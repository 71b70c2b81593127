import DeployGate.Number.Basic
import DeployGate.Text.Place

/-!
# Faults of JSON texts

A malformed JSON text is reported with the first place that does not fit.
-/

namespace DeployGate

namespace Json

/-- What does not fit at a place of a JSON text. -/
inductive Cause where
  | value
  | memberName
  | colon
  | comma
  | extraData
  | unterminatedString
  | controlCharacter
  | escape
  | unicodeEscape
  | byteOrderMark
  deriving DecidableEq, Repr

/-- The wording of a cause. -/
def Cause.message : Cause → Text
  | .value => "Expecting value".toList
  | .memberName => "Expecting property name enclosed in double quotes".toList
  | .colon => "Expecting ':' delimiter".toList
  | .comma => "Expecting ',' delimiter".toList
  | .extraData => "Extra data".toList
  | .unterminatedString => "Unterminated string starting at".toList
  | .controlCharacter => "Invalid control character at".toList
  | .escape => "Invalid \\escape".toList
  | .unicodeEscape => "Invalid \\uXXXX escape".toList
  | .byteOrderMark => "Unexpected UTF-8 BOM (decode using utf-8-sig)".toList

/-- Why a text is not read as JSON. -/
inductive Fault where
  /-- The text is no JSON text. -/
  | malformed (cause : Cause) (place : Text.Place)
  /-- An integer numeral is refused. -/
  | numeral (fault : NumeralFault)
  /-- An escape names half of a surrogate pair. -/
  | loneSurrogate
  deriving DecidableEq, Repr

/-- The wording of a fault. -/
def Fault.message : Fault → Text
  | .malformed cause place => cause.message ++ ": line ".toList ++ Text.ofNat place.line ++
      " column ".toList ++ Text.ofNat place.column ++ " (char ".toList ++
      Text.ofNat place.offset ++ [')']
  | .numeral fault => fault.message
  | .loneSurrogate => "surrogates not allowed".toList

end Json

end DeployGate
