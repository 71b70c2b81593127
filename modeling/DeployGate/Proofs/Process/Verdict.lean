import DeployGate.CommandLine.Gate
import DeployGate.Proofs.Process.StepLookup

/-!
# The verdict on a document

Checking a document says one line: that all checks pass, or what is wrong with the first
thing that is.  This module says which line that is by what the steps of the document
say of themselves.

Main results:

- Definition `Check.Met`: what each check wants of a process.
- Definition `Check.Says`: what is said of a check that is not met.
- Theorem `Gate.checkDocument_verdict`: the line for every document and all rules whose
  least number of steps is an integer that can be shown.
-/

namespace DeployGate

/-! ## Numerals -/

/-- A smaller number has no more digits. -/
theorem Text.length_ofNat_le {m n : Nat} (h : m ≤ n) : (ofNat m).length ≤ (ofNat n).length := by
  have hpos : 0 < (ofNat n).length := Nat.length_toDigits_pos
  have hn := (Nat.length_toDigits_le_iff (b := 10) (n := n) (by decide) hpos).1 (Nat.le_refl _)
  exact (Nat.length_toDigits_le_iff (by decide) hpos).2 (Nat.lt_of_le_of_lt h hn)

/-- An integer within the limit is shown in decimal. -/
theorem showInt_of_length_le {n : Int} (h : (Text.ofNat n.natAbs).length ≤ digitLimit) :
    showInt n = .ok (Text.ofInt n) :=
  if_neg (Nat.not_lt.mpr h)

/-! ## Checks -/

/-- What messages show in place of a text: the text that has a property, or `None` if
there is none. -/
inductive Shown (P : Text → Prop) : Text → Prop
  | found {t : Text} (ht : P t) : Shown P t
  | missing (hnone : ∀ t, ¬P t) : Shown P "None".toList

/-- Showing what a look-up gives shows what has the property that it decides. -/
theorem exists_toText_shown {P : Text → Prop} {o : Option Text} (h : ∀ t, o = some t ↔ P t) :
    ∃ t, (Fact.text o).toText = .ok t ∧ Shown P t := by
  cases o with
  | none =>
      refine ⟨_, rfl, .missing ?_⟩
      intro t ht
      have hsome := (h t).2 ht
      contradiction
  | some t => exact ⟨t, rfl, .found ((h t).1 rfl)⟩

namespace Check

variable {rules : Rules} {count : Int} {steps : List Step}

/-- A process has what a check wants of it. -/
def Met (rules : Rules) (count : Int) (steps : List Step) : Check → Prop
  | .stepCount => count ≤ steps.length
  | .stepName p => Step.HasName steps p (rules.stepName p)
  | .actionType p => Step.HasActionType steps p rules.actionType
  | .lastStepNamed => ∃ t, t ≠ [] ∧ Step.HasName steps .last t

/-- What is said of a process that does not have what a check wants. -/
inductive Says (rules : Rules) (count : Int) (steps : List Step) : Check → Text → Prop
  | stepCount : Says rules count steps .stepCount
      ("The deployment process must have at least ".toList ++ Text.ofInt count ++
        " steps (was ".toList ++ Text.ofInt steps.length ++ ")".toList)
  | stepName {p : Place} {t : Text} (ht : Shown (Step.HasName steps p) t) :
      Says rules count steps (.stepName p)
        (p.title ++ " step must be called ".toList ++ rules.stepName p ++
          " (was ".toList ++ t ++ ")".toList)
  | actionType {p : Place} {t : Text} (ht : Shown (Step.HasActionType steps p) t) :
      Says rules count steps (.actionType p)
        (p.title ++ " step must be a script step of type ".toList ++ rules.actionType ++
          " (was ".toList ++ t ++ ")".toList)
  | lastStepNamed : Says rules count steps .lastStepNamed
      "Failed to find the name of the last step".toList

/-- A process passes a check exactly if it has what the check wants. -/
theorem passes_iff_met (hcount : rules.minSteps = .int count) (c : Check) :
    c.passes rules steps = true ↔ c.Met rules count steps := by
  cases c with
  | stepCount => simp [passes, Met, hcount, Number.leInt]
  | stepName p =>
      rw [Met, ← Step.nameAt?_eq_some_iff]
      simp [passes, actual, expected]
  | actionType p =>
      rw [Met, ← Step.actionTypeAt?_eq_some_iff]
      simp [passes, actual, expected]
  | lastStepNamed =>
      simp only [Met, ← Step.nameAt?_eq_some_iff, passes, Option.any_eq_true]
      constructor
      · intro h
        rcases h with ⟨t, ht, hne⟩
        exact ⟨t, by simpa using hne, ht⟩
      · intro h
        rcases h with ⟨t, hne, ht⟩
        exact ⟨t, ht, by simpa using hne⟩

/-- The message of a check that is not met says what is found.  The number of steps is
below the number that is wanted, so that it can be shown if that can. -/
theorem exists_message_says (hcount : rules.minSteps = .int count)
    (hdigits : (Text.ofNat count.natAbs).length ≤ digitLimit) {c : Check}
    (hc : ¬c.Met rules count steps) :
    ∃ message, c.message rules steps = .ok message ∧ Says rules count steps c message := by
  cases c with
  | stepCount =>
      have hbelow : steps.length ≤ count.natAbs := by
        have hlt := Int.not_le.mp hc
        omega
      have hlength := Text.length_ofNat_le hbelow
      have hactual : showInt steps.length = .ok (Text.ofInt steps.length) := by
        apply showInt_of_length_le
        rw [Int.natAbs_natCast]
        omega
      have hexpected := showInt_of_length_le hdigits
      refine ⟨_, ?_, .stepCount⟩
      simp only [message, actual, expected, Fact.toText, Number.toText, hcount, hactual, hexpected]
      rfl
  | stepName p =>
      obtain ⟨t, ht, hshown⟩ := exists_toText_shown (P := Step.HasName steps p)
        fun _ => Step.nameAt?_eq_some_iff
      refine ⟨_, ?_, .stepName hshown⟩
      simp only [message, actual, expected, ht]
      rfl
  | actionType p =>
      obtain ⟨t, ht, hshown⟩ := exists_toText_shown (P := Step.HasActionType steps p)
        fun _ => Step.actionTypeAt?_eq_some_iff
      refine ⟨_, ?_, .actionType hshown⟩
      simp only [message, actual, expected, ht]
      rfl
  | lastStepNamed =>
      obtain ⟨t, ht, -⟩ := exists_toText_shown (P := Step.HasName steps .last)
        fun _ => Step.nameAt?_eq_some_iff
      refine ⟨_, ?_, .lastStepNamed⟩
      simp only [message, actual, expected, ht]
      rfl

/-- The first failure is a check that is not met behind ones that are. -/
theorem firstFailure?_eq_some_iff (hcount : rules.minSteps = .int count) {c : Check} :
    firstFailure? rules steps = some c ↔ ∃ before after, all = before ++ c :: after ∧
      (∀ b ∈ before, b.Met rules count steps) ∧ ¬c.Met rules count steps := by
  rw [firstFailure?, List.find?_eq_some_iff_append]
  simp only [Bool.not_eq_true', Bool.not_not, ← passes_iff_met hcount, Bool.not_eq_true]
  constructor
  · intro h
    rcases h with ⟨hc, before, after, hall, hbefore⟩
    exact ⟨before, after, hall, hbefore, hc⟩
  · intro h
    rcases h with ⟨before, after, hall, hbefore, hc⟩
    exact ⟨hc, before, after, hall, hbefore⟩

end Check

/-! ## The line -/

namespace Gate

/-- A document passes exactly if it meets all checks.  Otherwise the one line that is
written is about the first check that it does not meet.  Nothing ends the run. -/
theorem checkDocument_verdict (d : Ocl.Document) (rules : Rules) (count : Int)
    (hcount : rules.minSteps = .int count)
    (hdigits : (Text.ofNat count.natAbs).length ≤ digitLimit) :
    (checkDocument d rules = .saying true "All tests passed!".toList ↔
      ∀ c ∈ Check.all, c.Met rules count d.steps) ∧
    (¬(∀ c ∈ Check.all, c.Met rules count d.steps) →
      ∃ before c after message, Check.all = before ++ c :: after ∧
        (∀ b ∈ before, b.Met rules count d.steps) ∧ ¬c.Met rules count d.steps ∧
        Check.Says rules count d.steps c message ∧
        checkDocument d rules = .saying false message) := by
  cases hfirst : Check.firstFailure? rules d.steps with
  | none =>
      have hall : ∀ c ∈ Check.all, c.Met rules count d.steps := by
        intro c hc
        have hpasses := Check.firstFailure?_eq_none_iff.mp hfirst c hc
        exact (Check.passes_iff_met hcount c).mp hpasses
      have hline : checkDocument d rules = .saying true Verdict.allPassed := by
        simp [checkDocument, Ocl.Document.check, hfirst]
      constructor
      · exact ⟨fun _ => hall, fun _ => hline⟩
      · intro hnot
        contradiction
  | some c =>
      rcases (Check.firstFailure?_eq_some_iff hcount).mp hfirst with
        ⟨before, after, hall, hbefore, hc⟩
      rcases Check.exists_message_says hcount hdigits hc with ⟨message, hmessage, hsays⟩
      have hline : checkDocument d rules = .saying false message := by
        simp [checkDocument, Ocl.Document.check, hfirst, hmessage, Except.map]
      refine ⟨⟨?_, ?_⟩, fun _ => ⟨before, c, after, message, hall, hbefore, hc, hsays, hline⟩⟩
      · intro hpassed
        rw [hline] at hpassed
        simp [Run.saying] at hpassed
      · intro hmet
        have hmem : c ∈ Check.all := by simp [hall]
        exact absurd (hmet c hmem) hc

/-- Rules that want two steps with other names and another type than the standard ones. -/
def manualRules : Rules where
  minSteps := .int 2
  firstStepName := "Build".toList
  secondStepName := "Test".toList
  lastStepName := "Ship".toList
  actionType := "Manual".toList

/-- A step with two names, of which the second counts, and an action of a type. -/
def renamedStep (name : String) (type : Ocl.Value) : Ocl.Node :=
  .block ⟨"step".toList, [], [.attribute ⟨"name".toList, .literal .string "\"Old\"".toList, 1⟩,
    .attribute ⟨"name".toList, .literal .string ('"' :: name.toList ++ ['"']), 1⟩,
    .block ⟨"action".toList, [], [.attribute ⟨"action_type".toList, type, 1⟩], 1⟩], 1⟩

/-- Three steps that meet those rules but for the type of the last action, which is a list. -/
def threeSteps : Ocl.Document :=
  [renamedStep "Build" (.literal .identifier "Manual".toList),
    renamedStep "Test" (.literal .string "\"Manual\"".toList), renamedStep "Ship" (.list [])]

/-- The line about those steps is that of the last check. -/
theorem checkDocument_verdict_threeSteps :
    manualRules.minSteps = .int 2 ∧ (Text.ofNat (2 : Int).natAbs).length ≤ digitLimit ∧
      checkDocument threeSteps manualRules =
        .saying false "Last step must be a script step of type Manual (was None)".toList := by
  have hcount : manualRules.minSteps = .int 2 := rfl
  have hdigits : (Text.ofNat (2 : Int).natAbs).length ≤ digitLimit := by decide
  have hothers : ∀ c ∈ Check.all, c ≠ .actionType .last →
      c.Met manualRules 2 threeSteps.steps := by
    simp only [← Check.passes_iff_met hcount]
    decide
  have hnone : ∀ t, ¬Step.HasActionType threeSteps.steps .last t := by
    intro t ht
    have hsome : Step.actionTypeAt? threeSteps.steps Place.last.index = some t :=
      Step.actionTypeAt?_eq_some_iff.mpr ht
    have hmissing : Step.actionTypeAt? threeSteps.steps Place.last.index = none := by decide
    rw [hmissing] at hsome
    contradiction
  have hnot : ¬∀ c ∈ Check.all, c.Met manualRules 2 threeSteps.steps :=
    fun hmet => hnone _ (hmet (.actionType .last) (by decide))
  refine ⟨hcount, hdigits, ?_⟩
  rcases (checkDocument_verdict threeSteps manualRules 2 hcount hdigits).2 hnot with
    ⟨before, c, after, message, hall, -, hc, hsays, hline⟩
  have hlast : c = .actionType .last := by
    by_contra hne
    exact hc (hothers c (by simp [hall]) hne)
  subst hlast
  rw [hline]
  cases hsays with
  | actionType ht =>
      cases ht with
      | found hfound => exact absurd hfound (hnone _)
      | missing => rfl

end Gate

end DeployGate
