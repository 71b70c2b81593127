import DeployGate.Files.Basic
import DeployGate.RulesFile.Validator

/-!
# Loading rules files

A rules file is read as JSON, and as YAML if it is no JSON text.  What it says is
laid over the rules that held before.
-/

namespace DeployGate

/-- What rules files are read and checked with. -/
structure Tools where
  formats : Formats
  validator : Validator

/-! ## Values -/

/-- Why no value is loaded from a file. -/
inductive LoadFault where
  | read (fault : ReadFault)
  | json (fault : FormatFault)
  | yaml (fault : FormatFault)
  deriving DecidableEq, Repr

/-- The wording of a fault. -/
def LoadFault.message : LoadFault → Text
  | .read fault => fault.message
  | .json fault => fault.message
  | .yaml fault => fault.message

namespace Datum

/-- The value of a text in either format: the second is tried only where the text is
malformed in the first. -/
def ofText (formats : Formats) (t : Text) : Except LoadFault Datum :=
  match formats.json t with
  | .ok d => .ok d
  | .error (.broken error) => .error (.json (.broken error))
  | .error (.malformed _ _) => (formats.yaml t).mapError .yaml

/-- Load a value from a file in either format. -/
def load (formats : Formats) (files : Files) (path : Path) : Except LoadFault Datum := do
  ofText formats (← (files.text path).mapError .read)

/-- Load a value from a JSON file. -/
def loadJson (formats : Formats) (files : Files) (path : Path) : Except LoadFault Datum := do
  (formats.json (← (files.textWithMark path).mapError .read)).mapError .json

end Datum

/-! ## Rules -/

/-- Why no rules are loaded from a file. -/
inductive RulesFault where
  | load (fault : LoadFault)
  /-- The file holds no mapping but a value of another kind. -/
  | notMapping (d : Datum)
  | violation (v : Violation) (message : Text)
  /-- There is no message of a violation, since the validator breaks off. -/
  | unworded (error : Breakdown)
  /-- The validator finds nothing wrong, and yet no field has the key. -/
  | unknownKey (key : Datum)

/-- The wording of a fault. -/
def RulesFault.message : RulesFault → Text
  | .load fault => fault.message
  | .notMapping d => "rules file must contain a mapping, got ".toList ++ d.kindName
  | .violation _ message => message
  | .unworded error => error.message
  | .unknownKey key => match key.shown with
    | .ok t => t
    | .error fault => fault.message

namespace Rules

/-- Give a field a value; a value of the wrong kind changes nothing. -/
def set (r : Rules) : Field → Datum → Rules
  | .minSteps, .number x => { r with minSteps := x }
  | .firstStepName, .text t => { r with firstStepName := t }
  | .secondStepName, .text t => { r with secondStepName := t }
  | .lastStepName, .text t => { r with lastStepName := t }
  | .actionType, .text t => { r with actionType := t }
  | _, _ => r

/-- Lay the entries of a mapping over rules. -/
def overlay (r : Rules) (entries : Datum.Entries) : Rules :=
  Field.all.foldl (fun r f => match Datum.lookup? (.text f.key) entries with
    | some d => r.set f d
    | none => r) r

/-- The first key of a mapping that no field has. -/
def unknownKey? (entries : Datum.Entries) : Option Datum :=
  (entries.map Prod.fst).find? fun k => (Field.ofKey? k).isNone

/-- Lay a loaded value over rules, if it is a mapping in which a validator finds nothing
wrong and whose keys are all known. -/
def overlayDatum (validator : Validator) (base : Rules) (d : Datum) : Except RulesFault Rules :=
  match d with
  | .map entries =>
    match validator.violations d with
    | [] => match unknownKey? entries with
      | none => .ok (base.overlay entries)
      | some key => .error (.unknownKey key)
    | v :: _ => match validator.message v with
      | .ok message => .error (.violation v message)
      | .error error => .error (.unworded error)
  | d => .error (.notMapping d)

/-- Load a rules file over the given rules. -/
def loadOver (tools : Tools) (base : Rules) (files : Files) (path : Path) :
    Except RulesFault Rules := do
  base.overlayDatum tools.validator (← (Datum.load tools.formats files path).mapError .load)

/-- Load a rules file over the standard rules. -/
def load (tools : Tools) (files : Files) (path : Path) : Except RulesFault Rules :=
  standard.loadOver tools files path

end Rules

end DeployGate
