import DeployGate.Ocl.Lexeme
import DeployGate.Proofs.Text.Span

/-!
# Classes of lexemes

A class says which texts are lexemes of one kind, without saying how they are read.
No two classes share a first character, so a text starts with lexemes of one class at
most.

Main results:

- Definition `Lexeme.InClass`: the texts of each class.
- Theorem `Lexeme.InClass.firstClass`: the first character decides on the class.
- Theorem `Lexeme.InClass.class_eq`: two lexemes at one place are of one class.
-/

namespace DeployGate

namespace Ocl

namespace Lexeme

/-! ## Parts of lexemes -/

/-- A line feed with or without a carriage return in front of it. -/
inductive IsLineEnd : Text → Prop
  | lineFeed : IsLineEnd ['\n']
  | carriageReturn : IsLineEnd ['\r', '\n']

/-- What may stand between quotation marks: no line feed, and no quotation mark and no
backslash but behind a backslash. -/
inductive StringBody : Text → Prop
  | nil : StringBody []
  | plain {c : Char} {t : Text} (hquote : c ≠ '"') (hslash : c ≠ '\\') (hfeed : c ≠ '\n')
      (ht : StringBody t) : StringBody (c :: t)
  | escaped {c : Char} {t : Text} (hfeed : c ≠ '\n') (ht : StringBody t) :
      StringBody ('\\' :: c :: t)

/-- One or more decimal digits. -/
def IsDigits (t : Text) : Prop :=
  t ≠ [] ∧ ∀ c ∈ t, Text.isDecimalDigit c = true

/-- Nothing, or a point and digits. -/
inductive IsFraction : Text → Prop
  | none : IsFraction []
  | places {t : Text} (ht : IsDigits t) : IsFraction ('.' :: t)

/-- Nothing, or a letter `e`, at most one sign and digits. -/
inductive IsExponent : Text → Prop
  | none : IsExponent []
  | power {e : Char} {s t : Text} (he : e = 'e' ∨ e = 'E')
      (hs : s = [] ∨ s = ['+'] ∨ s = ['-']) (ht : IsDigits t) : IsExponent (e :: (s ++ t))

/-- A letter or an underscore, and then letters, digits and underscores. -/
inductive IsMarker : Text → Prop
  | mk {c : Char} {t : Text} (hc : isNameStart c = true)
      (ht : ∀ d ∈ t, isMarkerChar d = true) : IsMarker (c :: t)

/-- The hyphen that says that a heredoc is indented. -/
def hyphenIf (indented : Bool) : Text :=
  if indented then ['-'] else []

/-- Two angle marks, a hyphen if the body is indented, a marker, blanks and a line end
open a heredoc. -/
inductive Opens (indented : Bool) (marker : Text) : Text → Prop
  | mk {b e : Text} (hm : IsMarker marker) (hb : ∀ c ∈ b, Text.isBlank c = true)
      (he : IsLineEnd e) :
      Opens indented marker ('<' :: '<' :: (hyphenIf indented ++ (marker ++ (b ++ e))))

/-- An opener holds a marker. -/
theorem Opens.isMarker {indented : Bool} {marker t : Text} (h : Opens indented marker t) :
    IsMarker marker := by
  cases h with
  | mk hm => exact hm

/-! ## Classes -/

/-- The classes of lexemes.  A heredoc belongs to the class of its opener. -/
inductive Class where
  | lineEnd
  | space
  | comment
  | opener
  | string
  | number
  | name
  | mark
  deriving DecidableEq, Repr

/-- The texts of each class. -/
inductive InClass : Class → Text → Prop
  | lineEnd {t : Text} (ht : IsLineEnd t) : InClass .lineEnd t
  | space {t : Text} (hne : t ≠ []) (ht : ∀ c ∈ t, isSpace c = true) : InClass .space t
  | hash {t : Text} (ht : '\n' ∉ t) : InClass .comment ('#' :: t)
  | slashes {t : Text} (ht : '\n' ∉ t) : InClass .comment ('/' :: '/' :: t)
  | opener {indented : Bool} {marker t : Text} (ht : Opens indented marker t) :
      InClass .opener t
  | string {t : Text} (ht : StringBody t) : InClass .string ('"' :: (t ++ ['"']))
  | number {s w f e : Text} (hs : s = [] ∨ s = ['-']) (hw : IsDigits w) (hf : IsFraction f)
      (he : IsExponent e) : InClass .number (s ++ (w ++ (f ++ e)))
  | name {c : Char} {t : Text} (hc : isNameStart c = true)
      (ht : ∀ d ∈ t, isNameChar d = true) : InClass .name (c :: t)
  | mark (m : Mark) : InClass .mark [m.char]

/-! ## First characters -/

/-- The class of the lexemes that start with a character, if some do. -/
def firstClass? (c : Char) : Option Class :=
  if c = '\n' ∨ c = '\r' then some .lineEnd
  else if isSpace c then some .space
  else if c = '#' ∨ c = '/' then some .comment
  else if c = '<' then some .opener
  else if c = '"' then some .string
  else if isNameStart c then some .name
  else if c = '-' ∨ Text.isDecimalDigit c then some .number
  else if (Mark.ofChar? c).isSome then some .mark
  else none

/-- A character that a name may start with lies below the code points that are not
ASCII. -/
theorem toNat_lt_of_isNameStart {c : Char} (h : isNameStart c = true) : c.toNat < 128 := by
  simp only [isNameStart, Char.isAlpha, Char.isUpper, Char.isLower, Bool.or_eq_true,
    Bool.and_eq_true, decide_eq_true_eq, beq_iff_eq] at h
  simp only [Char.toNat]
  rcases h with (⟨-, h⟩ | ⟨-, h⟩) | rfl
  · exact Nat.lt_of_le_of_lt (UInt32.le_iff_toNat_le.mp h) (by decide)
  · exact Nat.lt_of_le_of_lt (UInt32.le_iff_toNat_le.mp h) (by decide)
  · decide

/-- No name starts with a decimal digit. -/
theorem isNameStart_eq_false_of_isDecimalDigit {c : Char}
    (h : Text.isDecimalDigit c = true) : isNameStart c = false := by
  cases hc : isNameStart c with
  | false => rfl
  | true =>
      have hascii := toNat_lt_of_isNameStart hc
      have hdigit : c.isDigit = true := by simpa [Text.isDecimalDigit, hascii] using h
      simp only [Char.isDigit, Bool.and_eq_true, decide_eq_true_eq] at hdigit
      simp only [isNameStart, Char.isAlpha, Char.isUpper, Char.isLower, Bool.or_eq_true,
        Bool.and_eq_true, decide_eq_true_eq, beq_iff_eq] at hc
      rcases hc with (⟨hlow, -⟩ | ⟨hlow, -⟩) | rfl
      · exact absurd (UInt32.le_trans hlow hdigit.2) (by decide)
      · exact absurd (UInt32.le_trans hlow hdigit.2) (by decide)
      · exact absurd hdigit (by decide)

/-- A character with a property that fails for another one is not that other one. -/
theorem ne_of_eq_true {p : Char → Bool} {c d : Char} (hc : p c = true) (hd : p d = false) :
    c ≠ d := by
  intro heq
  subst heq
  rw [hc] at hd
  contradiction

/-- A character that a name starts with starts nothing else. -/
theorem firstClass?_of_isNameStart {c : Char} (h : isNameStart c = true) :
    firstClass? c = some .name := by
  have hne : ∀ d, isNameStart d = false → c ≠ d := fun d hd => ne_of_eq_true h hd
  have hspace : isSpace c = false := by
    simp [isSpace, hne ' ' (by decide), hne '\t' (by decide), hne '\x0c' (by decide)]
  simp [firstClass?, h, hspace, hne '\n' (by decide), hne '\r' (by decide), hne '#' (by decide),
    hne '/' (by decide), hne '<' (by decide), hne '"' (by decide)]

/-- A decimal digit starts numbers only. -/
theorem firstClass?_of_isDecimalDigit {c : Char} (h : Text.isDecimalDigit c = true) :
    firstClass? c = some .number := by
  have hne : ∀ d, Text.isDecimalDigit d = false → c ≠ d := fun d hd => ne_of_eq_true h hd
  have hspace : isSpace c = false := by
    simp [isSpace, hne ' ' (by decide), hne '\t' (by decide), hne '\x0c' (by decide)]
  simp [firstClass?, h, hspace, isNameStart_eq_false_of_isDecimalDigit h, hne '\n' (by decide),
    hne '\r' (by decide), hne '#' (by decide), hne '/' (by decide), hne '<' (by decide),
    hne '"' (by decide)]

/-- The first character of a lexeme decides on its class. -/
theorem InClass.firstClass {k : Class} {t : Text} (h : InClass k t) :
    ∃ c u, t = c :: u ∧ firstClass? c = some k := by
  cases h with
  | lineEnd ht => cases ht <;> exact ⟨_, _, rfl, by decide⟩
  | space hne ht =>
      cases t with
      | nil => contradiction
      | cons c u =>
          have hc : isSpace c = true := ht c (List.mem_cons_self ..)
          refine ⟨c, u, rfl, ?_⟩
          have hne : ∀ d, isSpace d = false → c ≠ d := fun d hd => ne_of_eq_true hc hd
          simp [firstClass?, hc, hne '\n' (by decide), hne '\r' (by decide)]
  | hash ht => exact ⟨_, _, rfl, by decide⟩
  | slashes ht => exact ⟨_, _, rfl, by decide⟩
  | opener ht =>
      cases ht
      exact ⟨_, _, rfl, by decide⟩
  | string ht => exact ⟨_, _, rfl, by decide⟩
  | @number s w f e hs hw hf he =>
      rcases hw with ⟨hne, hdigits⟩
      rcases hs with rfl | rfl
      · cases w with
        | nil => contradiction
        | cons c w =>
            exact ⟨c, _, rfl, firstClass?_of_isDecimalDigit (hdigits c (List.mem_cons_self ..))⟩
      · exact ⟨'-', _, rfl, by decide⟩
  | name hc ht => exact ⟨_, _, rfl, firstClass?_of_isNameStart hc⟩
  | mark m =>
      refine ⟨_, _, rfl, ?_⟩
      cases m <;> decide

/-- Two lexemes at the start of a text are of one class. -/
theorem InClass.class_eq {j k : Class} {t u v : Text} (hu : InClass j u) (hv : InClass k v)
    (hut : u <+: t) (hvt : v <+: t) : j = k := by
  rcases hu.firstClass with ⟨c, u, rfl, hc⟩
  rcases hv.firstClass with ⟨d, v, rfl, hd⟩
  rcases hut with ⟨x, rfl⟩
  rcases List.cons_prefix_cons.mp hvt with ⟨rfl, -⟩
  rw [hc] at hd
  exact Option.some.inj hd

end Lexeme

end Ocl

end DeployGate
