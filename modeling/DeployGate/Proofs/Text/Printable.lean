import Mathlib
import DeployGate.Text.Quoted

/-!
# Printable texts

Messages show texts in quotation marks and numbers in digits, so that what they show has
printable characters only.  No line ends at a printable character.

Main results:

- Theorem `Text.not_isLineBreak_of_mem`: no line ends within a printable text.
- Theorem `Text.printable_quoted`: a quoted text is printable, whatever the text is.
-/

namespace DeployGate

namespace Text

/-! ## Printable characters -/

/-- The characters at which a line ends, for one reader or another. -/
def lineBreaks : List Char :=
  ['\n', '\r', '\x0b', '\x0c', '\x1c', '\x1d', '\x1e', '\u0085', '\u2028', '\u2029']

/-- A character at which a line ends. -/
def isLineBreak (c : Char) : Bool :=
  lineBreaks.contains c

/-- A character at which a line ends is not printable. -/
theorem isPrintable_of_isLineBreak {c : Char} (h : isLineBreak c = true) :
    isPrintable c = false := by
  have hall : lineBreaks.all (fun d => !isPrintable d) = true := by decide +kernel
  have hc := List.all_eq_true.mp hall c (List.contains_iff_mem.mp h)
  simpa using hc

variable {s t : Text} {c : Char}

/-- No line ends within a printable text. -/
theorem not_isLineBreak_of_mem (h : t.Printable) (hc : c ∈ t) : isLineBreak c = false := by
  cases hbreak : isLineBreak c with
  | false => rfl
  | true =>
      have hprintable := h c hc
      rw [isPrintable_of_isLineBreak hbreak] at hprintable
      contradiction

/-- A printable text has no line feed. -/
theorem Printable.line_feed_not_mem (h : t.Printable) : '\n' ∉ t := by
  intro hmem
  exact absurd (not_isLineBreak_of_mem h hmem) (by decide)

@[simp] theorem printable_nil : Printable [] := by
  simp [Printable]

@[simp] theorem printable_cons : Printable (c :: t) ↔ isPrintable c = true ∧ Printable t :=
  List.forall_mem_cons

@[simp] theorem printable_append : Printable (s ++ t) ↔ Printable s ∧ Printable t :=
  List.forall_mem_append

/-- Some characters of a printable text are printable. -/
theorem Printable.subset (h : t.Printable) (hst : s ⊆ t) : s.Printable :=
  fun c hc => h c (hst hc)

/-- Printable texts with a printable separator between them are printable. -/
theorem printable_joinWith (hs : s.Printable) {ts : List Text} (h : ∀ t ∈ ts, t.Printable) :
    (joinWith s ts).Printable := by
  induction ts with
  | nil => exact printable_nil
  | cons t ts ih =>
      have ht := h t List.mem_cons_self
      have hrest := ih fun u hu => h u (List.mem_cons_of_mem t hu)
      cases ts with
      | nil => exact ht
      | cons u ts => simp [joinWith, hs, ht, hrest]

/-! ## Numerals -/

/-- A digit is printable in every base. -/
theorem isPrintable_digitChar (n : Nat) : isPrintable n.digitChar = true := by
  by_cases h : n < 16
  · interval_cases n <;> decide
  · rw [Nat.digitChar_eq_star.mpr (by omega)]
    decide

/-- The digits of a number are printable in every base. -/
theorem printable_toDigits {b : Nat} (hb : 1 < b) (n : Nat) : Printable (Nat.toDigits b n) := by
  induction n using Nat.strong_induction_on with
  | h n ih =>
      rw [Nat.toDigits_eq_if hb]
      split
      · simp [isPrintable_digitChar]
      · have hlt : n / b < n := Nat.div_lt_self (by omega) hb
        simp [ih (n / b) hlt, isPrintable_digitChar]

/-- A number in decimal is printable. -/
theorem printable_ofNat (n : Nat) : (ofNat n).Printable :=
  printable_toDigits (by decide) n

/-- An integer in decimal is printable. -/
theorem printable_ofInt (k : Int) : (ofInt k).Printable := by
  cases k with
  | ofNat n => exact printable_ofNat n
  | negSucc n => exact printable_cons.mpr ⟨by decide, printable_ofNat (n + 1)⟩

/-- A run of one printable character is printable. -/
theorem printable_replicate (hc : isPrintable c = true) (n : Nat) :
    Printable (List.replicate n c) := by
  intro d hd
  rw [List.eq_of_mem_replicate hd]
  exact hc

/-- A number in base sixteen is printable. -/
theorem printable_toHex (width n : Nat) : (toHex width n).Printable := by
  have hzeros := printable_replicate (c := '0') (by decide)
  simp [toHex, hzeros, printable_toDigits]

/-- What is left of a text without some characters at its end is in the text. -/
theorem trimEnd_subset (p : Char → Bool) (t : Text) : trimEnd p t ⊆ t := by
  intro c hc
  have hmem := (List.dropWhile_sublist p).subset (List.mem_reverse.mp hc)
  exact List.mem_reverse.mp hmem

/-! ## Quoted texts -/

/-- The mark around a shown text is printable. -/
theorem isPrintable_quoteMark (t : Text) : isPrintable t.quoteMark = true := by
  unfold quoteMark
  split <;> decide

/-- What stands for a character between two printable marks is printable. -/
theorem printable_quotedChar {mark : Char} (hmark : isPrintable mark = true) (c : Char) :
    (quotedChar mark c).Printable := by
  have hescape : ∀ d u, isPrintable d = true → Printable u → Printable ('\\' :: d :: u) := by
    intro d u hd hu
    simp [hd, hu, show isPrintable '\\' = true by decide]
  unfold quotedChar
  split
  · next h =>
    refine hescape c [] ?_ printable_nil
    rcases (by simpa using h : c = mark ∨ c = '\\') with h | h
    · rw [h, hmark]
    · rw [h]
      decide
  split
  · decide
  split
  · decide
  split
  · decide
  split
  · next h => simpa using h
  split
  · exact hescape 'x' _ (by decide) (printable_toHex 2 _)
  split
  · exact hescape 'u' _ (by decide) (printable_toHex 4 _)
  · exact hescape 'U' _ (by decide) (printable_toHex 8 _)

/-- A quoted text is printable, whatever the text is. -/
theorem printable_quoted (t : Text) : t.quoted.Printable := by
  have hmark := isPrintable_quoteMark t
  have hinside : Printable (t.flatMap (quotedChar t.quoteMark)) := by
    intro c hc
    rcases List.mem_flatMap.mp hc with ⟨d, -, hd⟩
    exact printable_quotedChar hmark d c hd
  simp [quoted, hmark, hinside]

end Text

end DeployGate
