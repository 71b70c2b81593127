import DeployGate.Process.Rules
import DeployGate.Process.Step

/-!
# Checking a deployment process

Eight checks are made in a fixed order, and the first that fails is the one that is
reported.

Main results:

- `Check.firstFailure?_eq_none_iff` says that nothing is reported exactly if every
  check passes.
-/

namespace DeployGate

/-! ## Checks -/

/-- A step that the rules speak of. -/
inductive Place where
  | first
  | second
  | last
  deriving DecidableEq, Repr

namespace Place

/-- The index of the step at a place. -/
def index : Place → Int
  | .first => 0
  | .second => 1
  | .last => -1

/-- How messages call the step at a place. -/
def title : Place → Text
  | .first => "First".toList
  | .second => "Second".toList
  | .last => "Last".toList

end Place

/-- A check of a deployment process. -/
inductive Check where
  /-- There are enough steps. -/
  | stepCount
  /-- A step has the name the rules give it. -/
  | stepName (place : Place)
  /-- The action of a step has the type the rules give it. -/
  | actionType (place : Place)
  /-- The last step has a name at all. -/
  | lastStepNamed
  deriving DecidableEq, Repr

/-- What a check looks at: a number, or a text that may be missing. -/
inductive Fact where
  | number (x : Number)
  | text (t : Option Text)
  deriving DecidableEq, Repr

/-- A fact as messages show it. -/
def Fact.toText : Fact → Except NumeralFault Text
  | .number x => x.toText
  | .text (some t) => .ok t
  | .text none => .ok "None".toList

/-- The name that rules give to the step at a place. -/
def Rules.stepName (r : Rules) : Place → Text
  | .first => r.firstStepName
  | .second => r.secondStepName
  | .last => r.lastStepName

namespace Check

/-- All checks in the order in which they are made. -/
def all : List Check :=
  [.stepCount, .stepName .first, .actionType .first, .stepName .second, .actionType .second,
    .lastStepNamed, .stepName .last, .actionType .last]

/-- What a check finds in a process. -/
def actual (steps : List Step) : Check → Fact
  | .stepCount => .number (.int steps.length)
  | .stepName p => .text (Step.nameAt? steps p.index)
  | .actionType p => .text (Step.actionTypeAt? steps p.index)
  | .lastStepNamed => .text (Step.nameAt? steps Place.last.index)

/-- What rules want a check to find. -/
def expected (rules : Rules) : Check → Fact
  | .stepCount => .number rules.minSteps
  | .stepName p => .text (some (rules.stepName p))
  | .actionType _ => .text (some rules.actionType)
  | .lastStepNamed => .text none

/-- Whether a process passes a check. -/
def passes (rules : Rules) (steps : List Step) (c : Check) : Bool :=
  match c with
  | .stepCount => rules.minSteps.leInt steps.length
  | .lastStepNamed => (Step.nameAt? steps Place.last.index).any fun t => !t.isEmpty
  | c => c.actual steps == c.expected rules

/-- What to say of a check with the given expectation and finding filled in. -/
def wording (expected actual : Text) : Check → Text
  | .stepCount => "The deployment process must have at least ".toList ++ expected ++
      " steps (was ".toList ++ actual ++ [')']
  | .stepName p => p.title ++ " step must be called ".toList ++ expected ++
      " (was ".toList ++ actual ++ [')']
  | .actionType p => p.title ++ " step must be a script step of type ".toList ++ expected ++
      " (was ".toList ++ actual ++ [')']
  | .lastStepNamed => "Failed to find the name of the last step".toList

/-- The message of a check. -/
def message (rules : Rules) (steps : List Step) (c : Check) : Except NumeralFault Text := do
  let actual ← (c.actual steps).toText
  let expected ← (c.expected rules).toText
  pure (c.wording expected actual)

/-- The first check that a process fails. -/
def firstFailure? (rules : Rules) (steps : List Step) : Option Check :=
  all.find? fun c => !c.passes rules steps

/-- No check fails exactly if every check passes. -/
theorem firstFailure?_eq_none_iff {rules : Rules} {steps : List Step} :
    firstFailure? rules steps = none ↔ ∀ c ∈ all, c.passes rules steps = true := by
  simp [firstFailure?, List.find?_eq_none]

end Check

/-! ## Verdicts -/

/-- Whether a process passes, and the line that says so. -/
structure Verdict where
  passed : Bool
  line : Text
  deriving DecidableEq, Repr

/-- The line for a process that passes every check. -/
def Verdict.allPassed : Text :=
  "All tests passed!".toList

/-- Check a document against rules. -/
def Ocl.Document.check (d : Ocl.Document) (rules : Rules) : Except NumeralFault Verdict :=
  match Check.firstFailure? rules d.steps with
  | none => .ok ⟨true, Verdict.allPassed⟩
  | some c => (c.message rules d.steps).map (⟨false, ·⟩)

end DeployGate
