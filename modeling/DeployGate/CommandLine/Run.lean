import DeployGate.Files.Basic
import DeployGate.Number.Basic

/-!
# Runs of a program

What a run leaves behind: what it wrote to its two outputs, and how it ended.
-/

namespace DeployGate

/-- How a run ends: with a result, by leaving the program with an exit code, or by a
fault that nothing handles. -/
inductive Ending (α ε : Type) where
  | result (a : α)
  | exit (code : Nat)
  | fault (e : ε)
  deriving DecidableEq, Repr

/-- The ending of a run and the text of its two outputs. -/
structure Run (α ε : Type) where
  ending : Ending α ε
  out : Text
  err : Text
  deriving DecidableEq, Repr

namespace Run

/-- A text and a line end. -/
def line (t : Text) : Text :=
  t ++ ['\n']

/-- A run that writes a line to the first output and ends with a result. -/
def saying {α ε : Type} (a : α) (t : Text) : Run α ε :=
  ⟨.result a, line t, []⟩

/-- A run that writes a line to the second output and ends with a result. -/
def warning {α ε : Type} (a : α) (t : Text) : Run α ε :=
  ⟨.result a, [], line t⟩

/-- A run that writes nothing and ends with a fault. -/
def failing {α ε : Type} (e : ε) : Run α ε :=
  ⟨.fault e, [], []⟩

/-- Change the result of a run. -/
def map {α β ε : Type} (f : α → β) (r : Run α ε) : Run β ε :=
  match r.ending with
  | .result a => ⟨.result (f a), r.out, r.err⟩
  | .exit code => ⟨.exit code, r.out, r.err⟩
  | .fault e => ⟨.fault e, r.out, r.err⟩

end Run

end DeployGate
