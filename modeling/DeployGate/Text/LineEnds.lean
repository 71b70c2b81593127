import DeployGate.Text.Basic

/-!
# Line ends

Files end their lines with a line feed, a carriage return, or both.  Readers of
this library see line feeds only.
-/

namespace DeployGate

namespace Text

/-- Every carriage return, alone or before a line feed, read as one line feed. -/
def normalizeLineEnds : Text → Text
  | [] => []
  | '\r' :: '\n' :: t => '\n' :: normalizeLineEnds t
  | '\r' :: t => '\n' :: normalizeLineEnds t
  | c :: t => c :: normalizeLineEnds t

end Text

end DeployGate
