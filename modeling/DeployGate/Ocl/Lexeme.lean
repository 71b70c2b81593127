import DeployGate.Ocl.Heredoc
import DeployGate.Text.DecimalDigit

/-!
# Lexemes

A document is cut into lexemes: line ends, space, comments, heredocs, strings,
numbers, names and punctuation.  Each is as long as it can be, and together they
are the document.

Main results:

- `Mark.ofChar?_eq_some_iff` shows that a mark and its character name each other.
- `Lexeme.text_isPrefix_of_read` shows that a lexeme is the start of the text it is
  read from, and `Lexeme.text_ne_nil_of_read` that it holds a character.
-/

namespace DeployGate

namespace Ocl

/-! ## Punctuation -/

/-- A punctuation character. -/
inductive Mark where
  | braceOpen
  | braceClose
  | bracketOpen
  | bracketClose
  | equals
  | comma
  | colon
  deriving DecidableEq, Repr

namespace Mark

/-- The character of a mark. -/
def char : Mark → Char
  | .braceOpen => '\x7b'
  | .braceClose => '\x7d'
  | .bracketOpen => '['
  | .bracketClose => ']'
  | .equals => '='
  | .comma => ','
  | .colon => ':'

/-- All marks. -/
def all : List Mark :=
  [.braceOpen, .braceClose, .bracketOpen, .bracketClose, .equals, .comma, .colon]

/-- The mark with the given character. -/
def ofChar? (c : Char) : Option Mark :=
  all.find? fun m => m.char == c

/-- A character is the one of a mark exactly if it names that mark. -/
theorem ofChar?_eq_some_iff {c : Char} {m : Mark} : ofChar? c = some m ↔ c = m.char := by
  constructor
  · intro h
    have := List.find?_some h
    exact (by simpa using this : m.char = c).symm
  · rintro rfl
    cases m <;> decide

end Mark

/-! ## Lexemes -/

/-- A piece of a document. -/
inductive Lexeme where
  | lineEnd (text : Text)
  | space (text : Text)
  | comment (text : Text)
  /-- A heredoc: whether its body is indented, its opener with the line end, its
  marker, its body, and its closing line. -/
  | heredoc (indented : Bool) (opener marker body closer : Text)
  | string (text : Text)
  | number (text : Text)
  | name (text : Text)
  | mark (m : Mark)
  deriving DecidableEq, Repr

namespace Lexeme

/-- The characters of a lexeme. -/
def text : Lexeme → Text
  | .lineEnd t => t
  | .space t => t
  | .comment t => t
  | .heredoc _ opener _ body closer => opener ++ body ++ closer
  | .string t => t
  | .number t => t
  | .name t => t
  | .mark m => [m.char]

end Lexeme

/-! ## Classes of characters -/

namespace Lexeme

/-- A space, a tab or a form feed. -/
def isSpace (c : Char) : Bool :=
  c == ' ' || c == '\t' || c == '\x0c'

/-- A character that a name may start with. -/
def isNameStart (c : Char) : Bool :=
  c.isAlpha || c == '_'

/-- A character that a marker may go on with. -/
def isMarkerChar (c : Char) : Bool :=
  c.isAlphanum || c == '_'

/-- A character that a name may go on with. -/
def isNameChar (c : Char) : Bool :=
  isMarkerChar c || c == '.' || c == '-'

/-! ## Starts of texts -/

/-- What a text starts with, followed by what the rest starts with, is what the text
starts with. -/
theorem append_isPrefix {a b t : Text} (ha : a <+: t) (hb : b <+: t.drop a.length) :
    a ++ b <+: t := by
  obtain ⟨u, rfl⟩ := ha
  rw [List.drop_left] at hb
  exact (List.prefix_append_right_inj a).2 hb

/-! ## Strings and numbers -/

/-- What follows the opening mark of a string, up to and with the closing one.  A
backslash takes the next character with it; no line feed is let in. -/
def stringTail? : Text → Option Text
  | [] => none
  | '"' :: _ => some ['"']
  | ['\\'] => none
  | '\\' :: c :: t =>
    if c = '\n' then none else (stringTail? t).map fun s => '\\' :: c :: s
  | c :: t => if c = '\n' then none else (stringTail? t).map (c :: ·)

/-- The hyphen that a text starts with, if it does. -/
def hyphen : Text → Text
  | '-' :: _ => ['-']
  | _ => []

/-- The decimal digits that a text starts with. -/
def digits (t : Text) : Text :=
  t.takeWhile Text.isDecimalDigit

/-- The point and the digits of a fraction that a text starts with, if it does. -/
def fraction : Text → Text
  | '.' :: t => if (digits t).isEmpty then [] else '.' :: digits t
  | _ => []

/-- The letter, sign and digits of an exponent that a text starts with, if it does. -/
def exponent : Text → Text
  | [] => []
  | e :: t =>
    if e = 'e' ∨ e = 'E' then
      match t with
      | [] => []
      | s :: u =>
        if s = '+' ∨ s = '-' then if (digits u).isEmpty then [] else e :: s :: digits u
        else if (digits t).isEmpty then [] else e :: digits t
    else []

/-- The number that a text starts with, if it does: digits with an optional sign,
fraction and exponent. -/
def number? (t : Text) : Option Text :=
  let whole := digits (t.drop (hyphen t).length)
  if whole.isEmpty then none
  else
    let start := hyphen t ++ whole
    let places := fraction (t.drop start.length)
    some (start ++ places ++ exponent (t.drop (start ++ places).length))

/-- The end of a string lies where the string starts. -/
theorem isPrefix_of_stringTail? {t s : Text} (h : stringTail? t = some s) : s <+: t := by
  fun_induction stringTail? t generalizing s with
  | case1 => simp at h
  | case2 t =>
    obtain rfl := Option.some.inj h
    simp
  | case3 => simp at h
  | case4 => simp at h
  | case5 c t hc ih =>
    obtain ⟨u, hu, rfl⟩ := Option.map_eq_some_iff.1 h
    simp [ih hu]
  | case6 => simp at h
  | case7 c t _ _ _ hc ih =>
    obtain ⟨u, hu, rfl⟩ := Option.map_eq_some_iff.1 h
    simp [ih hu]

/-- The hyphen of a text is a start of it. -/
theorem hyphen_isPrefix (t : Text) : hyphen t <+: t := by
  unfold hyphen
  split <;> simp

/-- The digits of a text are a start of it. -/
theorem digits_isPrefix (t : Text) : digits t <+: t :=
  List.takeWhile_prefix _

/-- The fraction of a text is a start of it. -/
theorem fraction_isPrefix (t : Text) : fraction t <+: t := by
  unfold fraction
  split
  · split
    · exact List.nil_prefix
    · exact List.cons_prefix_cons.2 ⟨rfl, digits_isPrefix _⟩
  · exact List.nil_prefix

/-- The exponent of a text is a start of it. -/
theorem exponent_isPrefix (t : Text) : exponent t <+: t := by
  unfold exponent
  repeat' split
  all_goals simp [digits_isPrefix]

/-- The number of a text is a start of it. -/
theorem isPrefix_of_number? {t n : Text} (h : number? t = some n) : n <+: t := by
  simp only [number?] at h
  split at h
  · simp at h
  · obtain rfl := Option.some.inj h
    exact append_isPrefix (append_isPrefix (append_isPrefix (hyphen_isPrefix t)
      (digits_isPrefix _)) (fraction_isPrefix _)) (exponent_isPrefix _)

/-- A number holds a digit. -/
theorem ne_nil_of_number? {t n : Text} (h : number? t = some n) : n ≠ [] := by
  simp only [number?] at h
  split at h
  · simp at h
  · next hw =>
    obtain rfl := Option.some.inj h
    have := fun e => hw (List.isEmpty_iff.2 e)
    simp_all

/-! ## Heredocs -/

/-- The opener of a heredoc. -/
structure Opener where
  indented : Bool
  marker : Text
  text : Text
  deriving DecidableEq, Repr

/-- The blanks and the line end that an opener ends with. -/
def openerEnd? (t : Text) : Option Text :=
  let blanks := t.takeWhile Text.isBlank
  match t.drop blanks.length with
  | '\n' :: _ => some (blanks ++ ['\n'])
  | '\r' :: '\n' :: _ => some (blanks ++ ['\r', '\n'])
  | _ => none

/-- The opener that a text starts with: two angle marks, a hyphen if the body is
indented, a marker, and nothing else up to the line end. -/
def opener? : Text → Option Opener
  | '<' :: '<' :: t =>
    let rest := t.drop (hyphen t).length
    let marker := rest.takeWhile isMarkerChar
    if rest.head?.any isNameStart then
      (openerEnd? (rest.drop marker.length)).map fun tail =>
        ⟨!(hyphen t).isEmpty, marker, '<' :: '<' :: (hyphen t ++ marker ++ tail)⟩
    else none
  | _ => none

/-- The end of an opener lies where the opener goes on. -/
theorem isPrefix_of_openerEnd? {t e : Text} (h : openerEnd? t = some e) : e <+: t := by
  have hb : t.takeWhile Text.isBlank <+: t := List.takeWhile_prefix _
  simp only [openerEnd?] at h
  split at h
  · next hr =>
    obtain rfl := Option.some.inj h
    exact append_isPrefix hb (by simp [hr])
  · next hr =>
    obtain rfl := Option.some.inj h
    exact append_isPrefix hb (by simp [hr])
  · simp at h

/-- The opener of a text is a start of it. -/
theorem text_isPrefix_of_opener? {t : Text} {o : Opener} (h : opener? t = some o) :
    o.text <+: t := by
  unfold opener? at h
  split at h
  · next t =>
    dsimp only at h
    split at h
    · obtain ⟨e, he, rfl⟩ := Option.map_eq_some_iff.1 h
      have hm : hyphen t ++ (t.drop (hyphen t).length).takeWhile isMarkerChar <+: t :=
        append_isPrefix (hyphen_isPrefix t) (List.takeWhile_prefix _)
      have ht := append_isPrefix hm (by simpa using isPrefix_of_openerEnd? he)
      simpa using ht
    · simp at h
  · simp at h

/-- An opener holds its angle marks. -/
theorem text_ne_nil_of_opener? {t : Text} {o : Opener} (h : opener? t = some o) :
    o.text ≠ [] := by
  unfold opener? at h
  split at h
  · dsimp only at h
    split at h
    · obtain ⟨e, -, rfl⟩ := Option.map_eq_some_iff.1 h
      simp
    · simp at h
  · simp at h

/-! ## The lexeme at a place -/

/-- Why no lexeme is read at a place. -/
inductive Fault where
  /-- No lexeme starts with this character. -/
  | unexpected (c : Char)
  /-- A heredoc has no closing line for its marker. -/
  | unterminated (marker : Text)
  deriving DecidableEq, Repr

/-- The heredoc that an opener starts. -/
def ofOpener (o : Opener) (rest : Text) : Except Fault Lexeme :=
  match Heredoc.find? o.marker rest with
  | some p => .ok (.heredoc o.indented o.text o.marker p.body p.closer)
  | none => .error (.unterminated o.marker)

/-- The lexeme that starts with the character `c` before the text `t`. -/
def read (c : Char) (t : Text) : Except Fault Lexeme :=
  if c = '\n' then .ok (.lineEnd ['\n'])
  else if c = '\r' ∧ t.head? = some '\n' then .ok (.lineEnd ['\r', '\n'])
  else if isSpace c then .ok (.space (c :: t.takeWhile isSpace))
  else if c = '#' ∨ (c = '/' ∧ t.head? = some '/') then
    .ok (.comment (c :: t.takeWhile (· != '\n')))
  else if c = '<' then
    match opener? (c :: t) with
    | some o => ofOpener o ((c :: t).drop o.text.length)
    | none => .error (.unexpected c)
  else if c = '"' then
    match stringTail? t with
    | some s => .ok (.string (c :: s))
    | none => .error (.unexpected c)
  else if isNameStart c then .ok (.name (c :: t.takeWhile isNameChar))
  else match number? (c :: t), Mark.ofChar? c with
    | some n, _ => .ok (.number n)
    | none, some m => .ok (.mark m)
    | none, none => .error (.unexpected c)

/-- A heredoc is the start of its opener and what follows it. -/
theorem text_isPrefix_of_ofOpener {o : Opener} {t : Text} {l : Lexeme} (ho : o.text <+: t)
    (h : ofOpener o (t.drop o.text.length) = .ok l) : l.text <+: t := by
  unfold ofOpener at h
  split at h
  · next p hp =>
    obtain rfl := Except.ok.inj h
    obtain ⟨rest, hr⟩ := Heredoc.body_append_closer hp
    simpa [text] using append_isPrefix ho (b := p.body ++ p.closer) ⟨rest, hr.symm⟩
  · simp at h

/-- A heredoc holds its opener. -/
theorem text_ne_nil_of_ofOpener {o : Opener} {t : Text} {l : Lexeme} (ho : o.text ≠ [])
    (h : ofOpener o t = .ok l) : l.text ≠ [] := by
  unfold ofOpener at h
  split at h
  · obtain rfl := Except.ok.inj h
    simp [text, ho]
  · simp at h

/-- A lexeme is the start of the text it is read from. -/
theorem text_isPrefix_of_read {c : Char} {t : Text} {l : Lexeme} (h : read c t = .ok l) :
    l.text <+: c :: t := by
  unfold read at h
  split at h
  · obtain rfl := Except.ok.inj h
    simp_all [text]
  split at h
  · next hc =>
    obtain rfl := Except.ok.inj h
    cases t with
    | nil => simp at hc
    | cons d t => simp_all [text]
  split at h
  · obtain rfl := Except.ok.inj h
    simp [text, List.takeWhile_prefix]
  split at h
  · obtain rfl := Except.ok.inj h
    simp [text, List.takeWhile_prefix]
  split at h
  · split at h
    · next ho => exact text_isPrefix_of_ofOpener (text_isPrefix_of_opener? ho) h
    · simp at h
  split at h
  · split at h
    · next hs =>
      obtain rfl := Except.ok.inj h
      simpa [text] using isPrefix_of_stringTail? hs
    · simp at h
  split at h
  · obtain rfl := Except.ok.inj h
    simp [text, List.takeWhile_prefix]
  split at h
  · next hn =>
    obtain rfl := Except.ok.inj h
    exact isPrefix_of_number? hn
  · next hm =>
    obtain rfl := Except.ok.inj h
    simp [text, Mark.ofChar?_eq_some_iff.1 hm]
  · simp at h

/-- A lexeme holds a character. -/
theorem text_ne_nil_of_read {c : Char} {t : Text} {l : Lexeme} (h : read c t = .ok l) :
    l.text ≠ [] := by
  unfold read at h
  split at h
  · obtain rfl := Except.ok.inj h
    simp [text]
  split at h
  · obtain rfl := Except.ok.inj h
    simp [text]
  split at h
  · obtain rfl := Except.ok.inj h
    simp [text]
  split at h
  · obtain rfl := Except.ok.inj h
    simp [text]
  split at h
  · split at h
    · next ho => exact text_ne_nil_of_ofOpener (text_ne_nil_of_opener? ho) h
    · simp at h
  split at h
  · split at h
    · obtain rfl := Except.ok.inj h
      simp [text]
    · simp at h
  split at h
  · obtain rfl := Except.ok.inj h
    simp [text]
  split at h
  · next hn =>
    obtain rfl := Except.ok.inj h
    exact ne_nil_of_number? hn
  · obtain rfl := Except.ok.inj h
    simp [text]
  · simp at h

/-- A lexeme and what lies behind it are the text it is read from. -/
theorem text_append_of_read {c : Char} {t : Text} {l : Lexeme} (h : read c t = .ok l) :
    l.text ++ t.drop (l.text.length - 1) = c :: t := by
  obtain ⟨rest, hr⟩ := text_isPrefix_of_read h
  cases ht : l.text with
  | nil => exact absurd ht (text_ne_nil_of_read h)
  | cons d u =>
    rw [ht] at hr
    obtain ⟨rfl, rfl⟩ := List.cons.inj hr
    simp

end Lexeme

end Ocl

end DeployGate
