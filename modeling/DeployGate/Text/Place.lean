import DeployGate.Text.Basic

/-!
# Places of a text

A place is counted in characters from the start of a text and in lines and columns from one.
-/

namespace DeployGate

namespace Text

/-- A place of a text: its offset, its line and its column. -/
structure Place where
  offset : Nat
  line : Nat
  column : Nat
  deriving DecidableEq, Repr

/-- The place at an offset of a text. -/
def Place.ofOffset (t : Text) (offset : Nat) : Place :=
  let before := t.take offset
  ⟨offset, lineFeeds before + 1, (before.reverse.takeWhile (· != '\n')).length + 1⟩

end Text

end DeployGate
