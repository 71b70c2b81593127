/-!
# Texts

A text is the list of its characters.  Offsets, lengths and order are those of
the list, so every reader and printer of this library is a function on lists.

Main results:

- `Text.unlines_lines` and `Text.lines_unlines` show that cutting a text at its
  line feeds loses nothing and is undone by joining.
- `Text.lineFeeds_append` adds line feeds over a concatenation.
- `Text.after?_eq_some_iff` says when a text begins with another.
-/

namespace DeployGate

/-- A text is the list of its characters. -/
abbrev Text := List Char

namespace Text

/-! ## Cutting and joining -/

/-- Put a character in front of the first of some pieces. -/
private def consFirst (c : Char) : List Text → List Text
  | [] => [[c]]
  | p :: ps => (c :: p) :: ps

/-- The pieces of a text between the occurrences of one character, so that `n`
occurrences give `n + 1` pieces. -/
def splitAt (separator : Char) : Text → List Text
  | [] => [[]]
  | c :: t =>
    if c = separator then [] :: splitAt separator t
    else consFirst c (splitAt separator t)

/-- Concatenate texts with a separator between neighbours. -/
def joinWith (separator : Text) : List Text → Text
  | [] => []
  | [t] => t
  | t :: u :: ts => t ++ separator ++ joinWith separator (u :: ts)

/-- A text has at least one piece. -/
theorem splitAt_ne_nil (s : Char) (t : Text) : splitAt s t ≠ [] := by
  cases t with
  | nil => simp [splitAt]
  | cons c t =>
    simp only [splitAt]
    split
    · simp
    · cases splitAt s t <;> simp [consFirst]

/-- Joining the pieces of a text gives the text back. -/
@[simp] theorem joinWith_splitAt (s : Char) (t : Text) : joinWith [s] (splitAt s t) = t := by
  induction t with
  | nil => rfl
  | cons c t ih =>
    simp only [splitAt]
    cases h : splitAt s t with
    | nil => exact absurd h (splitAt_ne_nil s t)
    | cons p ps =>
      rw [h] at ih
      split <;> rename_i hc
      · simp [joinWith, hc, ih]
      · cases ps <;> simpa [consFirst, joinWith] using ih

/-- No piece holds the separator. -/
theorem separator_not_mem_of_mem_splitAt {s : Char} {p t : Text} (h : p ∈ splitAt s t) :
    s ∉ p := by
  induction t generalizing p with
  | nil => simp_all [splitAt]
  | cons c t ih =>
    simp only [splitAt] at h
    split at h <;> rename_i hc
    · rcases List.mem_cons.1 h with rfl | h
      · simp
      · exact ih h
    · cases hl : splitAt s t with
      | nil => exact absurd hl (splitAt_ne_nil s t)
      | cons m ps =>
        rw [hl] at h ih
        rcases List.mem_cons.1 h with rfl | h
        · have := ih (List.mem_cons_self ..)
          simp [this, Ne.symm hc]
        · exact ih (List.mem_cons_of_mem _ h)

/-- A text without the separator is its own only piece. -/
theorem splitAt_of_not_mem {s : Char} {p : Text} (h : s ∉ p) : splitAt s p = [p] := by
  induction p with
  | nil => rfl
  | cons c p ih =>
    simp only [List.mem_cons, not_or] at h
    simp [splitAt, Ne.symm h.1, ih h.2, consFirst]

/-- A piece and a separator in front of a text put that piece in front. -/
theorem splitAt_append_cons {s : Char} {p : Text} (h : s ∉ p) (t : Text) :
    splitAt s (p ++ s :: t) = p :: splitAt s t := by
  induction p with
  | nil => simp [splitAt]
  | cons c p ih =>
    simp only [List.mem_cons, not_or] at h
    simp [splitAt, Ne.symm h.1, ih h.2, consFirst]

/-- Pieces without the separator are the pieces of the text they are joined to. -/
theorem splitAt_joinWith {s : Char} {ps : List Text} (hne : ps ≠ [])
    (h : ∀ p ∈ ps, s ∉ p) : splitAt s (joinWith [s] ps) = ps := by
  induction ps with
  | nil => exact absurd rfl hne
  | cons p ps ih =>
    cases ps with
    | nil => exact splitAt_of_not_mem (h p (List.mem_cons_self ..))
    | cons q ps =>
      have hp := h p (List.mem_cons_self ..)
      simp only [joinWith, List.append_assoc, List.singleton_append]
      rw [splitAt_append_cons hp, ih (by simp) fun k hk => h k (List.mem_cons_of_mem _ hk)]

/-! ## Lines -/

/-- The lines of a text: the pieces between its line feeds. -/
def lines (t : Text) : List Text :=
  splitAt '\n' t

/-- Join lines with one line feed between neighbours. -/
def unlines (ls : List Text) : Text :=
  joinWith ['\n'] ls

/-- Joining the lines of a text gives the text back. -/
@[simp] theorem unlines_lines (t : Text) : unlines (lines t) = t :=
  joinWith_splitAt '\n' t

/-- Lines without line feeds are the lines of the text they are joined to. -/
theorem lines_unlines {ls : List Text} (hne : ls ≠ []) (h : ∀ l ∈ ls, '\n' ∉ l) :
    lines (unlines ls) = ls :=
  splitAt_joinWith hne h

/-- The number of line feeds in a text. -/
def lineFeeds (t : Text) : Nat :=
  t.count '\n'

@[simp] theorem lineFeeds_nil : lineFeeds [] = 0 := rfl

/-- Line feeds add up over a concatenation. -/
@[simp] theorem lineFeeds_append (s t : Text) :
    lineFeeds (s ++ t) = lineFeeds s + lineFeeds t :=
  List.count_append

/-! ## Beginnings and ends -/

/-- A space or a tab. -/
def isBlank (c : Char) : Bool :=
  c == ' ' || c == '\t'

/-- A text of spaces and tabs only, the empty text included. -/
def allBlank (t : Text) : Bool :=
  t.all isBlank

/-- What follows a given beginning, if the text begins with it. -/
def after? : Text → Text → Option Text
  | [], t => some t
  | _ :: _, [] => none
  | c :: p, d :: t => if c = d then after? p t else none

/-- A text begins with `p` exactly if something follows `p` in it. -/
theorem after?_eq_some_iff {p t r : Text} : after? p t = some r ↔ t = p ++ r := by
  induction p generalizing t with
  | nil => simp [after?, eq_comm]
  | cons c p ih =>
    cases t with
    | nil => simp [after?]
    | cons d t => by_cases h : c = d <;> simp [after?, h, ih, eq_comm]

/-- Drop the characters at the end of a text that satisfy `p`. -/
def trimEnd (p : Char → Bool) (t : Text) : Text :=
  (t.reverse.dropWhile p).reverse

/-- A text without its first and its last character. -/
def inner (t : Text) : Text :=
  t.tail.dropLast

/-! ## Order and numerals -/

/-- Lexicographic order by code point, a text before its extensions. -/
def atMost : Text → Text → Bool
  | [], _ => true
  | _ :: _, [] => false
  | c :: s, d :: t => if c = d then atMost s t else decide (c < d)

/-- The decimal digits of a natural number. -/
def ofNat (n : Nat) : Text :=
  Nat.toDigits 10 n

/-- The decimal digits of an integer, a negative one with a minus sign in front. -/
def ofInt : Int → Text
  | .ofNat n => ofNat n
  | .negSucc n => '-' :: ofNat (n + 1)

/-- The value of a digit from `0` to `9`, `a` to `z` or `A` to `Z`, and zero for
every other character. -/
def digitValue (c : Char) : Nat :=
  if c.isDigit then c.toNat - '0'.toNat
  else if c.isLower then c.toNat - 'a'.toNat + 10
  else if c.isUpper then c.toNat - 'A'.toNat + 10
  else 0

/-- The number that a run of digits denotes in the given base. -/
def toNat (base : Nat) (digits : Text) : Nat :=
  digits.foldl (fun n c => n * base + digitValue c) 0

/-- A hexadecimal digit, in either case. -/
def isHexDigit (c : Char) : Bool :=
  c.isDigit || ('a' ≤ c && c ≤ 'f') || ('A' ≤ c && c ≤ 'F')

/-- A number in base sixteen with lower-case digits, filled up with zeros to the
given width. -/
def toHex (width n : Nat) : Text :=
  let digits := Nat.toDigits 16 n
  List.replicate (width - digits.length) '0' ++ digits

end Text

end DeployGate
