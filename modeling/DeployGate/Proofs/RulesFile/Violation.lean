import DeployGate.Proofs.Number.Value
import DeployGate.RulesFile.Schema

/-!
# Violations of a value

What is wrong with a value, said of the value and not of the checks: the conditions of the form
of a rules file, one by one.  The checks of this library find each violation exactly once, field
by field.

Main results:

- Definition `Schema.Wrong`: what is wrong with a value.
- Theorem `Schema.mem_violations_iff`: the checks find what is wrong and nothing else.
- Definition `Schema.Accounts`: a list has all that is wrong with a value, in an order.
- Theorem `Schema.accounts_violations`: each violation is found once, in the order of the fields.
-/

namespace DeployGate

/-! ## Known keys -/

namespace Field

/-- All fields are looked at. -/
theorem mem_all (f : Field) : f ∈ all := by
  cases f <;> decide

/-- The field of a key has that key. -/
theorem ofKey?_eq_some_iff {k : Datum} {f : Field} : ofKey? k = some f ↔ k = .text f.key := by
  cases k with
  | text t =>
      rw [ofKey?, Datum.text.injEq]
      constructor
      · intro h
        have hkey : f.key = t := by simpa using List.find?_some h
        exact hkey.symm
      · rintro rfl
        cases f <;> decide
  | _ => simp [ofKey?]

/-- The fields in the order of their keys. -/
def byKey : List Field :=
  [.actionType, .firstStepName, .lastStepName, .minSteps, .secondStepName]

end Field

namespace Datum

/-- A key that no field has. -/
def Unknown (k : Datum) : Prop :=
  ∀ f : Field, k ≠ .text f.key

/-- No field is found for a key exactly if no field has it. -/
theorem ofKey?_isNone_iff {k : Datum} : (Field.ofKey? k).isNone = true ↔ k.Unknown := by
  rw [Option.isNone_iff_eq_none, Option.eq_none_iff_forall_ne_some]
  simp [Unknown, Field.ofKey?_eq_some_iff]

instance : DecidablePred Unknown := fun _ => decidable_of_iff _ ofKey?_isNone_iff

/-- A number that stands for an integer. -/
def IsInteger (d : Datum) : Prop :=
  ∃ (x : Number) (n : Int), d = .number x ∧ x.value? = some (n : ℚ)

end Datum

/-! ## What is wrong -/

namespace Schema

/-- What is wrong with a value, and where: it is no mapping, there are unknown keys, a name is
no text or is empty, or the least number of steps is no integer or is below one. -/
inductive Wrong : Datum → Violation → Prop
  | notMapping {d : Datum} (h : ∀ es, d ≠ .map es) : Wrong d ⟨[], .notMapping d⟩
  | unknownKeys {es : Datum.Entries} {ks : List Datum}
      (hks : ks = (es.map Prod.fst).filter (·.Unknown)) (hne : ks ≠ []) :
      Wrong (.map es) ⟨[], .unknownKeys ks⟩
  | notText {es : Datum.Entries} {f : Field} {d : Datum} (hf : f ≠ .minSteps)
      (hd : Datum.lookup? (.text f.key) es = some d) (h : ∀ t, d ≠ .text t) :
      Wrong (.map es) ⟨f.path, .notText d⟩
  | emptyText {es : Datum.Entries} {f : Field} (hf : f ≠ .minSteps)
      (hd : Datum.lookup? (.text f.key) es = some (.text [])) :
      Wrong (.map es) ⟨f.path, .emptyText⟩
  | notInteger {es : Datum.Entries} {d : Datum}
      (hd : Datum.lookup? (.text Field.minSteps.key) es = some d) (h : ¬d.IsInteger) :
      Wrong (.map es) ⟨Field.minSteps.path, .notInteger d⟩
  | belowOne {es : Datum.Entries} {x : Number}
      (hd : Datum.lookup? (.text Field.minSteps.key) es = some (.number x)) (h : x.Below 1) :
      Wrong (.map es) ⟨Field.minSteps.path, .belowOne x⟩

variable {d : Datum} {es : Datum.Entries} {v w : Violation} {p : Problem}

/-- What is wrong with a name. -/
theorem mem_nameProblems_iff : p ∈ nameProblems d ↔
    ((∀ t, d ≠ .text t) ∧ p = .notText d) ∨ (d = .text [] ∧ p = .emptyText) := by
  cases d with
  | text t => cases t <;> simp [nameProblems]
  | _ => simp [nameProblems]

/-- What is wrong with the least number of steps. -/
theorem mem_countProblems_iff : p ∈ countProblems d ↔
    (¬d.IsInteger ∧ p = .notInteger d) ∨ ∃ x, d = .number x ∧ x.Below 1 ∧ p = .belowOne x := by
  cases d with
  | number x =>
      have hinteger : (Datum.number x).IsInteger ↔ x.isIntegral = true := by
        simp [Datum.IsInteger, Number.isIntegral_iff]
      simp only [countProblems, List.mem_append, hinteger, Datum.number.injEq]
      cases x.isIntegral <;> simp [Number.ltInt_iff]
  | _ => simp [countProblems, Datum.IsInteger]

/-- Nothing is wrong with a name exactly if it is a text that is not empty. -/
theorem nameProblems_eq_nil_iff : nameProblems d = [] ↔ ∃ t, d = .text t ∧ t ≠ [] := by
  cases d with
  | text t => cases t <;> simp [nameProblems]
  | _ => simp [nameProblems]

/-- Nothing is wrong with the least number of steps exactly if it stands for an integer of at
least one. -/
theorem countProblems_eq_nil_iff : countProblems d = [] ↔
    ∃ (x : Number) (n : Int), d = .number x ∧ x.value? = some (n : ℚ) ∧ 1 ≤ n := by
  simp only [List.eq_nil_iff_forall_not_mem, mem_countProblems_iff]
  constructor
  · intro h
    rcases not_imp_comm.mp (fun hd => h _ (.inl ⟨hd, rfl⟩)) not_false with ⟨x, n, rfl, hn⟩
    refine ⟨x, n, rfl, hn, not_lt.mp fun hlt => ?_⟩
    exact h _ (.inr ⟨x, rfl, (Number.below_iff_of_value? hn).mpr hlt, rfl⟩)
  · rintro ⟨x, n, rfl, hn, hle⟩ p (⟨hd, -⟩ | ⟨y, hy, hbelow, -⟩)
    · exact hd ⟨x, n, rfl, hn⟩
    · rcases Datum.number.inj hy with rfl
      exact absurd ((Number.below_iff_of_value? hn).mp hbelow) (not_lt.mpr hle)

/-- The other fields are names. -/
theorem fieldProblems_of_ne {f : Field} (hf : f ≠ .minSteps) :
    fieldProblems f d = nameProblems d := by
  cases f <;> first | rfl | contradiction

/-- The unknown keys of a mapping, in their order. -/
theorem unknownKeys_eq : unknownKeys es = (es.map Prod.fst).filter (·.Unknown) := by
  apply List.filter_congr
  intro k _
  rw [Bool.eq_iff_iff, Datum.ofKey?_isNone_iff, decide_eq_true_iff]

/-- What is wrong at a field of a mapping is what is wrong with its value. -/
theorem mem_fieldViolations_iff {f : Field} : v ∈ fieldViolations es f ↔
    ∃ d, Datum.lookup? (.text f.key) es = some d ∧ ∃ p ∈ fieldProblems f d, ⟨f.path, p⟩ = v := by
  unfold fieldViolations
  cases Datum.lookup? (.text f.key) es <;> simp

/-- What is wrong with a mapping is that it has unknown keys, or what is wrong at a field. -/
theorem mem_violations_map_iff : v ∈ violations (.map es) ↔
    ((es.map Prod.fst).filter (·.Unknown) ≠ [] ∧
      v = ⟨[], .unknownKeys ((es.map Prod.fst).filter (·.Unknown))⟩) ∨
    ∃ f d, Datum.lookup? (.text f.key) es = some d ∧
      ∃ p ∈ fieldProblems f d, ⟨f.path, p⟩ = v := by
  have hfields : v ∈ Field.all.flatMap (fieldViolations es) ↔ ∃ f, v ∈ fieldViolations es f := by
    simp [List.mem_flatMap, Field.mem_all]
  simp only [violations, List.mem_append, hfields, mem_fieldViolations_iff, unknownKeys_eq]
  cases (es.map Prod.fst).filter (·.Unknown) <;> simp

/-- What the checks find is wrong with the value. -/
theorem wrong_of_mem_violations (h : v ∈ violations d) : Wrong d v := by
  cases d with
  | map es =>
      rcases mem_violations_map_iff.mp h with ⟨hne, rfl⟩ | ⟨f, d, hd, p, hp, rfl⟩
      · exact .unknownKeys rfl hne
      by_cases hf : f = .minSteps
      · subst hf
        rcases mem_countProblems_iff.mp hp with ⟨hinteger, rfl⟩ | ⟨x, rfl, hbelow, rfl⟩
        · exact .notInteger hd hinteger
        · exact .belowOne hd hbelow
      · rw [fieldProblems_of_ne hf] at hp
        rcases mem_nameProblems_iff.mp hp with ⟨htext, rfl⟩ | ⟨rfl, rfl⟩
        · exact .notText hf hd htext
        · exact .emptyText hf hd
  | _ =>
      rcases List.mem_singleton.mp h with rfl
      exact .notMapping (by simp)

/-- The checks find all that is wrong with a value. -/
theorem Wrong.mem_violations (h : Wrong d v) : v ∈ violations d := by
  have hcount : ∀ {es d p}, Datum.lookup? (.text Field.minSteps.key) es = some d →
      p ∈ countProblems d → ⟨Field.minSteps.path, p⟩ ∈ violations (.map es) :=
    fun hd hp => mem_violations_map_iff.mpr (.inr ⟨.minSteps, _, hd, _, hp, rfl⟩)
  have hname : ∀ {es d p} {f : Field}, f ≠ .minSteps →
      Datum.lookup? (.text f.key) es = some d → p ∈ nameProblems d →
      ⟨f.path, p⟩ ∈ violations (.map es) := by
    intro es d p f hf hd hp
    rw [← fieldProblems_of_ne hf] at hp
    exact mem_violations_map_iff.mpr (.inr ⟨f, d, hd, p, hp, rfl⟩)
  cases h with
  | notMapping h => cases d <;> first | exact List.mem_singleton.mpr rfl | exact absurd rfl (h _)
  | unknownKeys hks hne =>
      subst hks
      exact mem_violations_map_iff.mpr (.inl ⟨hne, rfl⟩)
  | notText hf hd h => exact hname hf hd (mem_nameProblems_iff.mpr (.inl ⟨h, rfl⟩))
  | emptyText hf hd => exact hname hf hd (mem_nameProblems_iff.mpr (.inr ⟨rfl, rfl⟩))
  | notInteger hd h => exact hcount hd (mem_countProblems_iff.mpr (.inl ⟨h, rfl⟩))
  | belowOne hd h => exact hcount hd (mem_countProblems_iff.mpr (.inr ⟨_, rfl, h, rfl⟩))

/-- What is wrong with a value is wrong with all of it or at a field. -/
theorem Wrong.path_cases (h : Wrong d v) : v.path = [] ∨ ∃ f : Field, v.path = f.path := by
  cases h with
  | notMapping => exact .inl rfl
  | unknownKeys => exact .inl rfl
  | notText => exact .inr ⟨_, rfl⟩
  | emptyText => exact .inr ⟨_, rfl⟩
  | notInteger => exact .inr ⟨_, rfl⟩
  | belowOne => exact .inr ⟨_, rfl⟩

/-- The checks find what is wrong with a value and nothing else. -/
theorem mem_violations_iff : v ∈ violations d ↔ Wrong d v :=
  ⟨wrong_of_mem_violations, Wrong.mem_violations⟩

end Schema

/-! ## The order of violations -/

/-- Fields with the same path are the same. -/
theorem Field.path_injective : Function.Injective Field.path := by
  intro f g
  cases f <;> cases g <;> decide

namespace Violation

/-- A violation comes before another one: that of the file as a whole before those at the
fields, these in the order of a list of fields, and at one place that a value is no integer
before that it is below one. -/
def Before (fs : List Field) (v w : Violation) : Prop :=
  [v.path, w.path].Sublist ([] :: fs.map Field.path) ∨
    v.path = w.path ∧ (∃ d, v.problem = .notInteger d) ∧ ∃ x, w.problem = .belowOne x

variable {fs gs : List Field} {v w : Violation}

/-- Of two violations at one place only problems of one value come before one another. -/
theorem not_sublist_of_eq (hfs : fs.Nodup) (heq : v.path = w.path) :
    ¬[v.path, w.path].Sublist ([] :: fs.map Field.path) := by
  have hplaces : ([] :: fs.map Field.path).Nodup := by
    simp [List.nodup_map_iff Field.path_injective, hfs, Field.path]
  rw [heq]
  exact List.nodup_iff_sublist.mp hplaces w.path

/-- The file as a whole comes before every field. -/
theorem root_sublist {g : Field} (hg : g ∈ fs) : [[], g.path].Sublist ([] :: fs.map Field.path) :=
  (List.singleton_sublist.mpr (List.mem_map_of_mem hg)).cons_cons []

/-- No violation comes before itself. -/
theorem not_before_self (hfs : fs.Nodup) : ¬Before fs v v := by
  rintro (h | ⟨-, ⟨d, hd⟩, x, hx⟩)
  · exact not_sublist_of_eq hfs rfl h
  · rw [hd] at hx
    contradiction

/-- No violation comes before unknown keys. -/
theorem not_before_unknownKeys {ks : List Datum} : ¬Before fs v ⟨[], .unknownKeys ks⟩ := by
  rintro (h | ⟨-, -, x, hx⟩)
  · have hlast : [[]].Sublist (fs.map Field.path) := h.tail
    simp [Field.path] at hlast
  · contradiction

/-- At one place the list of fields makes no difference to the order. -/
theorem Before.of_eq (h : Before fs v w) (hfs : fs.Nodup) (heq : v.path = w.path) :
    Before gs v w := by
  rcases h with h | h
  · exact absurd h (not_sublist_of_eq hfs heq)
  · exact .inr h

end Violation

namespace Schema

variable {d : Datum} {fs : List Field} {v : Violation} {vs : List Violation}

/-- A list of violations accounts for a value: it has what is wrong with the value and nothing
else, in the order of a list of fields. -/
structure Accounts (d : Datum) (fs : List Field) (vs : List Violation) : Prop where
  mem_iff : ∀ v, v ∈ vs ↔ Wrong d v
  ordered : vs.Pairwise (Violation.Before fs)

/-- No violation is there twice. -/
theorem Accounts.nodup (h : Accounts d fs vs) (hfs : fs.Nodup) : vs.Nodup := by
  apply h.ordered.imp
  rintro v w hbefore rfl
  exact Violation.not_before_self hfs hbefore

/-- The first violation comes before all others. -/
theorem Accounts.before_of_wrong (h : Accounts d fs (v :: vs)) {w : Violation}
    (hw : Wrong d w) : w = v ∨ Violation.Before fs v w := by
  rcases List.mem_cons.mp ((h.mem_iff w).mpr hw) with hfirst | hrest
  · exact .inl hfirst
  · exact .inr (List.rel_of_pairwise_cons h.ordered hrest)

/-- Of two problems of one value the first is that it is no integer, the second that it is below
one. -/
theorem pairwise_fieldProblems (f : Field) (d : Datum) :
    (fieldProblems f d).Pairwise fun p q =>
      (∃ d, p = .notInteger d) ∧ ∃ x, q = .belowOne x := by
  by_cases hf : f = .minSteps
  · subst hf
    cases d with
    | number x => cases hx : x.isIntegral <;> cases hlt : x.ltInt 1 <;>
        simp [fieldProblems, countProblems, hx, hlt]
    | _ => exact List.pairwise_singleton _ _
  · rw [fieldProblems_of_ne hf]
    cases d with
    | text t => cases t <;> simp [nameProblems]
    | _ => exact List.pairwise_singleton _ _

/-- What is wrong at the fields of a mapping is in the order of the fields. -/
theorem pairwise_fieldViolations (es : Datum.Entries) (fs : List Field) :
    (fs.flatMap (fieldViolations es)).Pairwise (Violation.Before fs) := by
  rw [List.pairwise_flatMap]
  constructor
  · intro f _
    unfold fieldViolations
    split
    · next d hd =>
      rw [List.pairwise_map]
      exact (pairwise_fieldProblems f d).imp fun hpair => .inr ⟨rfl, hpair⟩
    · exact .nil
  · rw [List.pairwise_iff_forall_sublist]
    intro f g hfg v hv w hw
    rcases mem_fieldViolations_iff.mp hv with ⟨_, -, p, -, rfl⟩
    rcases mem_fieldViolations_iff.mp hw with ⟨_, -, q, -, rfl⟩
    left
    exact (hfg.map Field.path).cons []

/-- The checks account for a value in the order of all fields. -/
theorem accounts_violations (d : Datum) : Accounts d Field.all (violations d) := by
  refine ⟨fun v => mem_violations_iff, ?_⟩
  cases d with
  | map es =>
      have hkeys : ∀ v ∈ (if (unknownKeys es).isEmpty then []
          else [⟨[], .unknownKeys (unknownKeys es)⟩] : List Violation), v.path = [] := by
        intro v hv
        split at hv
        · contradiction
        · rw [List.mem_singleton.mp hv]
      refine List.pairwise_append.mpr ⟨?_, pairwise_fieldViolations es Field.all, ?_⟩
      · split
        · exact .nil
        · exact List.pairwise_singleton _ _
      · intro v hv w hw
        rcases List.mem_flatMap.mp hw with ⟨f, hf, hw⟩
        rcases mem_fieldViolations_iff.mp hw with ⟨_, -, q, -, rfl⟩
        left
        rw [hkeys v hv]
        exact Violation.root_sublist hf
  | _ => exact List.pairwise_singleton _ _

end Schema

end DeployGate
