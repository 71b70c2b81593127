import DeployGate.Json.Reader
import DeployGate.RulesFile.Load
import DeployGate.Yaml.Reader

/-!
# The tools at hand

The readers of this library as the formats of rules files, and its own validator.  What the
readers leave out is refused: in both formats half of a surrogate pair, and in YAML tags other than
those of texts, lists and mappings, the merging of mappings, values that hold themselves, and times
of the day.  The reader of YAML says of a malformed text neither what is wrong nor where, and
neither reader finds a text nested too deep.

Main results:

- Definition `Tools.standard`: the tools that the program runs with.
-/

namespace DeployGate

/-- A refusal of the reader of JSON as a fault of the format. -/
def Json.Fault.toFormatFault (fault : Json.Fault) : FormatFault :=
  match fault with
  | .malformed _ place => .malformed fault.message [place]
  | .numeral refusal => .broken (.ofNumeral refusal)
  | .loneSurrogate => .broken ⟨"UnicodeEncodeError".toList, fault.message⟩

/-- A refusal of the reader of YAML as a fault of the format.  A code that needs more than 31
bits has a wording of its own. -/
def Yaml.Fault.toFormatFault : Yaml.Fault → FormatFault
  | .malformed => .malformed "no document of the kind that is read".toList []
  | .codePoint code => .broken (if code ≤ 0x10FFFF then
      ⟨"UnicodeEncodeError".toList, "surrogates not allowed".toList⟩
    else if code < Nat.pow 2 31 then
      ⟨"ValueError".toList, "chr() arg not in range(0x110000)".toList⟩
    else ⟨"OverflowError".toList, "Python int too large to convert to C int".toList⟩)
  | .numeral fault => .broken (.ofNumeral fault)
  | .truthWord text => .broken ⟨"KeyError".toList, text.quoted⟩
  | .date fault => .broken ⟨"ValueError".toList, fault.message⟩

/-- The formats as the readers of this library know them. -/
def Formats.standard : Formats where
  json t := (Json.read t).mapError Json.Fault.toFormatFault
  yaml t := (Yaml.read t).mapError Yaml.Fault.toFormatFault

/-- The tools that the program runs with. -/
def Tools.standard : Tools where
  formats := .standard
  validator := .standard

end DeployGate
