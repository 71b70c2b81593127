import DeployGate.Datum.Basic
import DeployGate.Text.Place

/-!
# Formats of rules files

How a text is read in a format is left open: a format is any reader of texts, and a run is
given the two that it needs.  A reader either gives a value, or says that the text is not in
its format, or breaks off in another way.
-/

namespace DeployGate

/-! ## Faults -/

/-- An error that breaks off a part of the program that this library leaves open: the name of
its kind, and its message. -/
structure Breakdown where
  kind : Text
  message : Text
  deriving DecidableEq, Repr

/-- The error that a refused numeral is. -/
def Breakdown.ofNumeral (fault : NumeralFault) : Breakdown :=
  let kind := match fault with
    | .beyondDoubles => "OverflowError".toList
    | _ => "ValueError".toList
  ⟨kind, fault.message⟩

/-- Why a text is not read in a format. -/
inductive FormatFault where
  /-- The text is not in the format: what is said of it, and the places that this is about. -/
  | malformed (message : Text) (places : List Text.Place)
  /-- The reader breaks off. -/
  | broken (error : Breakdown)
  deriving DecidableEq, Repr

/-- The wording of a fault. -/
def FormatFault.message : FormatFault → Text
  | .malformed message _ => message
  | .broken error => error.message

/-! ## Formats -/

/-- A format is what every text is in it. -/
abbrev Format := Text → Except FormatFault Datum

/-- The two formats of rules files. -/
structure Formats where
  json : Format
  yaml : Format

/-- A format of which some texts are known, and in which no other text is. -/
def Format.ofTable (known : List (Text × Except FormatFault Datum)) : Format :=
  fun t => (known.lookup t).getD (.error (.malformed [] []))

end DeployGate
