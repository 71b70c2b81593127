import DeployGate.Datum.Basic
import DeployGate.Process.Rules

/-!
# The form of a rules file

A rules file is a mapping with up to five known keys.  The least number of steps is
an integer of at least one, also when it is written as a double; the other values
are texts that are not empty.
-/

namespace DeployGate

/-! ## Fields -/

/-- A rule that a rules file may set. -/
inductive Field where
  | minSteps
  | firstStepName
  | secondStepName
  | lastStepName
  | actionType
  deriving DecidableEq, Repr

namespace Field

/-- All fields in the order in which they are looked at. -/
def all : List Field :=
  [.minSteps, .firstStepName, .secondStepName, .lastStepName, .actionType]

/-- The key of a field. -/
def key : Field → Text
  | .minSteps => "minSteps".toList
  | .firstStepName => "firstStepName".toList
  | .secondStepName => "secondStepName".toList
  | .lastStepName => "lastStepName".toList
  | .actionType => "actionType".toList

/-- The field with the given key. -/
def ofKey? (d : Datum) : Option Field :=
  match d with
  | .text t => all.find? fun f => f.key == t
  | _ => none

end Field

/-! ## Violations -/

/-- What is wrong with a value at some place of a rules file. -/
inductive Problem where
  /-- The whole is no mapping. -/
  | notMapping (d : Datum)
  /-- There are keys that no field has. -/
  | unknownKeys (keys : List Datum)
  | notInteger (d : Datum)
  | belowOne (x : Number)
  | notText (d : Datum)
  | emptyText
  deriving Repr

/-- A step on the way into a value: the key of a mapping or the index of an item. -/
inductive PathItem where
  | key (t : Text)
  | index (n : Nat)
  deriving DecidableEq, Repr

/-- The name that messages give to the kind of a step. -/
def PathItem.kindName : PathItem → Text
  | .key _ => "str".toList
  | .index _ => "int".toList

/-- The way to the value of a field. -/
def Field.path (f : Field) : List PathItem :=
  [.key f.key]

/-- A problem and the way to the value it is found at, which for the file as a whole has
no steps. -/
structure Violation where
  path : List PathItem
  problem : Problem
  deriving Repr

namespace Schema

/-- What is wrong with the least number of steps. -/
def countProblems (d : Datum) : List Problem :=
  match d with
  | .number x =>
    (if x.isIntegral then [] else [.notInteger d]) ++
      (if x.ltInt 1 then [.belowOne x] else [])
  | _ => [.notInteger d]

/-- What is wrong with a name. -/
def nameProblems (d : Datum) : List Problem :=
  match d with
  | .text t => if t.isEmpty then [.emptyText] else []
  | _ => [.notText d]

/-- What is wrong with the value of a field. -/
def fieldProblems : Field → Datum → List Problem
  | .minSteps, d => countProblems d
  | _, d => nameProblems d

/-- The keys of a mapping that no field has. -/
def unknownKeys (entries : Datum.Entries) : List Datum :=
  (entries.map Prod.fst).filter fun k => (Field.ofKey? k).isNone

/-- The violations at a field of a mapping. -/
def fieldViolations (entries : Datum.Entries) (f : Field) : List Violation :=
  match Datum.lookup? (.text f.key) entries with
  | some d => (fieldProblems f d).map (⟨f.path, ·⟩)
  | none => []

/-- All violations of a value: unknown keys first, then field by field. -/
def violations (d : Datum) : List Violation :=
  match d with
  | .map entries =>
    let unknown := unknownKeys entries
    (if unknown.isEmpty then [] else [⟨[], .unknownKeys unknown⟩]) ++
      Field.all.flatMap (fieldViolations entries)
  | _ => [⟨[], .notMapping d⟩]

end Schema

end DeployGate
