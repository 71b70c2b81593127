import DeployGate.Number.Basic

/-!
# Rules for a deployment process

How many steps a process needs at least, what its first, second and last step are
called, and of which type their actions are.
-/

namespace DeployGate

/-- The rules that a deployment process is checked against.  The least number of
steps keeps the form it was written in. -/
structure Rules where
  minSteps : Number
  firstStepName : Text
  secondStepName : Text
  lastStepName : Text
  actionType : Text
  deriving DecidableEq, Repr

namespace Rules

/-- The rules that hold where nothing else is said. -/
def standard : Rules where
  minSteps := .int 3
  firstStepName := "Generate GitHub Token".toList
  secondStepName := "Check for Updates".toList
  lastStepName := "Vulnerability Scan".toList
  actionType := "Octopus.Script".toList

end Rules

end DeployGate
