import DeployGate.Proofs.CommandLine.Ending
import DeployGate.Proofs.RulesFile.Overlay

/-!
# The rules of a rules file

Rules are loaded from a file exactly if its value has the form of a rules file.  They have what
the value says and the standard for what it does not say.  That is so whatever reads the value, and
with every validator that obeys the laws.

Main results:

- Definition `Datum.IsRulesFile`: the form of a rules file.
- Theorem `Schema.violations_eq_nil_iff`: the checks find nothing exactly in a value of this form.
- Theorem `Rules.load_exactly`: from which files rules are loaded, which rules these are, and
  which fault the other files have.
-/

namespace DeployGate

/-! ## The form of a rules file -/

namespace Datum

/-- Entries of a rules file: all keys are known, the least number of steps stands for an integer
of at least one if it is there, and so every other value is a text that is not empty. -/
structure IsRulesFile (es : Entries) : Prop where
  known : ∀ e ∈ es, ∃ f : Field, e.1 = .text f.key
  count : ∀ d, lookup? (.text Field.minSteps.key) es = some d →
    ∃ (x : Number) (n : Int), d = .number x ∧ x.value? = some (n : ℚ) ∧ 1 ≤ n
  name : ∀ f : Field, f ≠ .minSteps → ∀ d, lookup? (.text f.key) es = some d →
    ∃ t, d = .text t ∧ t ≠ []

end Datum

namespace Schema

/-- The checks find nothing in a mapping exactly if it has the form of a rules file. -/
theorem violations_eq_nil_iff {es : Datum.Entries} :
    violations (.map es) = [] ↔ Datum.IsRulesFile es := by
  rw [violations_map_eq_nil_iff]
  simp only [Field.ofKey?_eq_some_iff]
  constructor
  · intro h
    rcases h with ⟨hkeys, hvalues⟩
    refine ⟨hkeys, fun d hd => ?_, fun f hf d hd => ?_⟩
    · exact countProblems_eq_nil_iff.mp (hvalues .minSteps d hd)
    · have hname := hvalues f d hd
      rw [fieldProblems_of_ne hf] at hname
      exact nameProblems_eq_nil_iff.mp hname
  · intro h
    refine ⟨h.known, fun f d hd => ?_⟩
    by_cases hf : f = .minSteps
    · subst hf
      exact countProblems_eq_nil_iff.mpr (h.count d hd)
    · rw [fieldProblems_of_ne hf]
      exact nameProblems_eq_nil_iff.mpr (h.name f hf d hd)

end Schema

/-! ## Loaded rules -/

namespace Rules

variable {tools : Tools} {files : Files} {path : Path} {d : Datum}

/-- A value in the form of a rules file gives the rules what it says. -/
theorem overlayDatum_of_isRulesFile {V : Validator} (hV : V.Draft7) {es : Datum.Entries}
    (h : Datum.IsRulesFile es) (base : Rules) :
    ∃ rules, base.overlayDatum V (.map es) = .ok rules ∧
      ∀ f, rules.get f = (Datum.lookup? (.text f.key) es).getD (base.get f) := by
  have hnone := Schema.violations_eq_nil_iff.mpr h
  rcases overlayDatum_of_violations_nil hV base hnone with ⟨es', hes, hrules⟩
  rcases Datum.map.inj hes with rfl
  exact ⟨_, hrules, fun f => get_overlay (Schema.violations_map_eq_nil_iff.mp hnone).2⟩

/-- What comes of a file with a value, if messages show all that is in it. -/
theorem load_cases (hdraft : tools.validator.Draft7) (hworded : tools.validator.Worded)
    (hload : Datum.load tools.formats files path = .ok d) (hshown : ¬d.Unshown) :
    (∃ es, d = .map es ∧ Datum.IsRulesFile es ∧ ∃ rules, load tools files path = .ok rules ∧
      ∀ f, rules.get f = (d.valueOf? f).getD (standard.get f)) ∨
    ((∀ es, d ≠ .map es) ∧ load tools files path = .error (.notMapping d)) ∨
    ∃ es, d = .map es ∧ ¬Datum.IsRulesFile es ∧
      ∃ v message, load tools files path = .error (.violation v message) := by
  rw [load_of_datum hload]
  cases d with
  | map es =>
      by_cases h : Datum.IsRulesFile es
      · left
        exact ⟨es, rfl, h, overlayDatum_of_isRulesFile hdraft h standard⟩
      · right
        right
        exact ⟨es, rfl, h, exists_violation_of_map hdraft hworded standard hshown
          (mt Schema.violations_eq_nil_iff.mp h)⟩
  | _ => exact .inr (.inl ⟨by simp, rfl⟩)

/-- Let a validator obey the laws, let a value be loaded from a file, and let messages show all
integers in it.  Rules are loaded from the file exactly if the value is a mapping in the form of a
rules file.  They have the value of every key that is there and the standard for the others.  If the
value is no mapping the file is refused as such, and if it is a mapping in any other form it is
refused for a violation; there is no other fault. -/
theorem load_exactly {tools : Tools} {files : Files} {path : Path} {d : Datum}
    (hdraft : tools.validator.Draft7) (hworded : tools.validator.Worded)
    (hload : Datum.load tools.formats files path = .ok d) (hshown : ¬d.Unshown) :
    ((∃ rules, load tools files path = .ok rules) ↔ ∃ es, d = .map es ∧ Datum.IsRulesFile es) ∧
    (∀ rules, load tools files path = .ok rules →
      ∀ f, rules.get f = (d.valueOf? f).getD (standard.get f)) ∧
    (load tools files path = .error (.notMapping d) ↔ ∀ es, d ≠ .map es) ∧
    ((∃ v message, load tools files path = .error (.violation v message)) ↔
      ∃ es, d = .map es ∧ ¬Datum.IsRulesFile es) ∧
    ∀ fault, load tools files path = .error fault →
      fault = .notMapping d ∨ ∃ v message, fault = .violation v message := by
  rcases load_cases hdraft hworded hload hshown with ⟨es, rfl, hform, rules, hrules, hget⟩ |
    ⟨hno, hrefused⟩ | ⟨es, rfl, hform, v, message, hrefused⟩
  · refine ⟨by simp [hrules, hform], ?_, by simp [hrules], by simp [hrules, hform],
      by simp [hrules]⟩
    intro rules' hrules'
    rw [hrules] at hrules'
    rwa [← Except.ok.inj hrules']
  · refine ⟨by simp [hrefused, hno], by simp [hrefused], by simp [hrefused, hno],
      by simp [hrefused, hno], ?_⟩
    intro fault hfault
    rw [hrefused] at hfault
    exact .inl (Except.error.inj hfault).symm
  · refine ⟨by simp [hrefused, hform], by simp [hrefused], by simp [hrefused],
      by simp [hrefused, hform], ?_⟩
    intro fault hfault
    rw [hrefused] at hfault
    exact .inr ⟨v, message, (Except.error.inj hfault).symm⟩

/-- A rules file with a number of steps and the name of the last step. -/
def sevenStepsText : Text :=
  "\x7b\"minSteps\":7,\"lastStepName\":\"Scan\"\x7d".toList

/-- What that file is read as. -/
def sevenSteps : Datum :=
  .map [(.text "minSteps".toList, .number (.int 7)),
    (.text "lastStepName".toList, .text "Scan".toList)]

/-- Tools that read that file. -/
def sevenStepsTools : Tools where
  formats := {
    json := .ofTable [(sevenStepsText, .ok sevenSteps)]
    yaml := .ofTable [] }
  validator := .standard

/-- From that file rules are loaded that have its two values and are standard otherwise. -/
theorem load_exactly_sevenSteps :
    sevenStepsTools.validator.Draft7 ∧ sevenStepsTools.validator.Worded ∧
    Datum.load sevenStepsTools.formats (Files.ofText sevenStepsText)
      (Path.ofText "r.json".toList) = .ok sevenSteps ∧
    ¬sevenSteps.Unshown ∧
    load sevenStepsTools (Files.ofText sevenStepsText) (Path.ofText "r.json".toList) =
      .ok { standard with minSteps := .int 7, lastStepName := "Scan".toList } := by
  have hdraft := Validator.standard_draft7
  have hworded := Validator.standard_legible.worded
  have htext : (Files.ofText sevenStepsText).text (Path.ofText "r.json".toList) =
      .ok sevenStepsText := Files.text_ofText (by decide) (Text.plain_of_all (by cbv))
  have hload : Datum.load sevenStepsTools.formats (Files.ofText sevenStepsText)
      (Path.ofText "r.json".toList) = .ok sevenSteps := datum_load_of_json htext rfl
  have hshow : sevenSteps.shown =
      .ok "\x7b'minSteps': 7, 'lastStepName': 'Scan'\x7d".toList := by cbv
  have hshown := sevenSteps.shown_refusedIff.not_of_ok hshow
  rcases load_exactly hdraft hworded hload hshown with ⟨hiff, hget, -⟩
  have hnone : Schema.violations sevenSteps = [] := by rfl
  have hform := Schema.violations_eq_nil_iff.mp hnone
  rcases hiff.mpr ⟨_, rfl, hform⟩ with ⟨rules, hrules⟩
  have hsame : rules = { standard with minSteps := .int 7, lastStepName := "Scan".toList } := by
    refine eq_of_get fun f => ?_
    rw [hget rules hrules f]
    cases f <;> rfl
  exact ⟨hdraft, hworded, hload, hshown, by rw [hrules, hsame]⟩

end Rules

end DeployGate
