import Mathlib
import DeployGate.Process.Check

/-!
# What steps say of themselves

The name and the action type of a step are looked up in a document.  This module says
what they are without saying how they are looked up: of several parts with one name the
last one counts, and a value counts if it is a scalar.

Main results:

- Theorem `Ocl.Section.attribute?_eq_some_iff` and `Ocl.Section.block?_eq_some_iff`: what
  is found is the last part with the name.
- Theorem `Step.at?_eq_some_iff`: the first, the second and the last step.
- Theorems `Step.nameAt?_eq_some_iff` and `Step.actionTypeAt?_eq_some_iff`: what a step
  says of itself.
-/

namespace DeployGate

/-! ## Quotation marks -/

/-- A text, and what it says: without one pair of quotation marks around it, if it has
one. -/
inductive Unquoted : Text → Text → Prop
  | marks (t : Text) : Unquoted ('"' :: t ++ ['"']) t
  | plain {t : Text} (ht : ∀ u, t ≠ '"' :: u ++ ['"']) : Unquoted t t

/-- A text has quotation marks around it exactly if it starts and ends with one and is
not a single one. -/
theorem exists_eq_quote_iff {t : Text} :
    (∃ u, t = '"' :: u ++ ['"']) ↔
      2 ≤ t.length ∧ t.head? = some '"' ∧ t.getLast? = some '"' := by
  constructor
  · intro h
    rcases h with ⟨u, rfl⟩
    refine ⟨by simp, rfl, ?_⟩
    rw [List.getLast?_append]
    rfl
  · intro h
    rcases h with ⟨hlength, hhead, hlast⟩
    rcases List.head?_eq_some_iff.mp hhead with ⟨u, rfl⟩
    have hne : u ≠ [] := by
      intro hnil
      subst hnil
      simp at hlength
    rw [List.getLast?_cons_of_ne_nil hne] at hlast
    rcases List.getLast?_eq_some_iff.mp hlast with ⟨v, rfl⟩
    exact ⟨v, rfl⟩

/-- Taking off quotation marks gives what a text says. -/
theorem unquoted_iff {t u : Text} : t.unquoted = u ↔ Unquoted t u := by
  constructor
  · intro htext
    subst htext
    by_cases h : ∃ v, t = '"' :: v ++ ['"']
    · rcases h with ⟨v, rfl⟩
      rw [Text.unquoted_quote]
      exact .marks v
    · have hno := mt exists_eq_quote_iff.mpr h
      rw [Text.unquoted, if_neg hno]
      exact .plain fun v hv => h ⟨v, hv⟩
  · intro h
    cases h with
    | marks => exact Text.unquoted_quote u
    | plain ht =>
        have hno := mt exists_eq_quote_iff.mpr (not_exists.mpr ht)
        rw [Text.unquoted, if_neg hno]

namespace Ocl

/-! ## The last part with a name -/

variable {β : Type} {embed : β → Node} {nameOf : β → Text} {select : Node → Option β}

/-- Among the parts of one kind the last one with a name. -/
def LastNamed (embed : β → Node) (nameOf : β → Text) (name : Text) (ns : List Node)
    (b : β) : Prop :=
  ∃ before after, ns = before ++ embed b :: after ∧ nameOf b = name ∧
    ∀ c, embed c ∈ after → nameOf c ≠ name

/-- Looking from the end finds the last part of a kind with a name. -/
theorem getLast?_eq_some_iff_lastNamed
    (hselect : ∀ n b, select n = some b ↔ n = embed b) {name : Text} {ns : List Node} {b : β} :
    ((ns.filterMap select).filter fun c => nameOf c == name).getLast? = some b ↔
      LastNamed embed nameOf name ns b := by
  rw [List.filter_filterMap, List.getLast?_filterMap, List.findSome?_eq_some_iff]
  have hmatch : ∀ n c, (select n).filter (fun c => nameOf c == name) = some c ↔
      n = embed c ∧ nameOf c = name := by
    intro n c
    rw [Option.filter_eq_some_iff, hselect, beq_iff_eq]
  constructor
  · intro h
    rcases h with ⟨after, n, before, hreverse, hn, hafter⟩
    rcases (hmatch n b).mp hn with ⟨rfl, hname⟩
    refine ⟨before.reverse, after.reverse, ?_, hname, ?_⟩
    · rw [← ns.reverse_reverse, hreverse]
      simp
    · intro c hc heq
      have hnone := hafter (embed c) (List.mem_reverse.mp hc)
      rw [(hmatch _ c).mpr ⟨rfl, heq⟩] at hnone
      contradiction
  · intro h
    rcases h with ⟨before, after, rfl, hname, hafter⟩
    refine ⟨after.reverse, embed b, before.reverse, by simp, (hmatch _ b).mpr ⟨rfl, hname⟩, ?_⟩
    intro n hn
    cases hc : (select n).filter fun c => nameOf c == name with
    | none => rfl
    | some c =>
        rcases (hmatch n c).mp hc with ⟨rfl, heq⟩
        exact absurd heq (hafter c (List.mem_reverse.mp hn))

namespace Section

variable {b : Block} {name : Text}

/-- The attribute that is found is the last one with the name. -/
theorem attribute?_eq_some_iff {a : Attribute} :
    b.attribute? name = some a ↔ LastNamed .attribute Binding.name name b.children a := by
  refine getLast?_eq_some_iff_lastNamed ?_
  intro n a
  cases n <;> simp [Node.attribute?]

/-- The block that is found is the last one with the name. -/
theorem block?_eq_some_iff {c : Block} :
    b.block? name = some c ↔ LastNamed .block Section.name name b.children c := by
  refine getLast?_eq_some_iff_lastNamed ?_
  intro n c
  cases n <;> simp [Node.block?]

/-- A block gives a name a scalar: its last attribute with the name holds one, which
says the text. -/
def Gives (b : Block) (name t : Text) : Prop :=
  ∃ a kind u, LastNamed .attribute Binding.name name b.children a ∧
    a.value = .literal kind u ∧ Unquoted u t

/-- The scalar of a value is what its text says. -/
theorem scalar?_eq_some_iff_literal {v : Value} {t : Text} :
    v.scalar? = some t ↔ ∃ kind u, v = .literal kind u ∧ Unquoted u t := by
  cases v with
  | literal kind u =>
      constructor
      · intro h
        exact ⟨kind, u, rfl, unquoted_iff.mp (Option.some.inj h)⟩
      · intro h
        rcases h with ⟨_, _, ⟨⟩, hu⟩
        exact congrArg some (unquoted_iff.mpr hu)
  | list vs => simp [Value.scalar?]
  | dictionary es => simp [Value.scalar?]

/-- The scalar that is found under a name is the one that the block gives it. -/
theorem scalar?_eq_some_iff {t : Text} : b.scalar? name = some t ↔ Gives b name t := by
  rw [scalar?, Option.bind_eq_some_iff]
  constructor
  · intro h
    rcases h with ⟨a, ha, ht⟩
    rcases scalar?_eq_some_iff_literal.mp ht with ⟨kind, u, hvalue, hu⟩
    exact ⟨a, kind, u, attribute?_eq_some_iff.mp ha, hvalue, hu⟩
  · intro h
    rcases h with ⟨a, kind, u, ha, hvalue, hu⟩
    exact ⟨a, attribute?_eq_some_iff.mpr ha, scalar?_eq_some_iff_literal.mpr ⟨kind, u, hvalue, hu⟩⟩

end Section

end Ocl

/-! ## Steps -/

/-- The step at a place of a process. -/
inductive Place.Holds : Place → List Step → Step → Prop
  | first (s : Step) (later : List Step) : Holds .first (s :: later) s
  | second (r s : Step) (later : List Step) : Holds .second (r :: s :: later) s
  | last (earlier : List Step) (s : Step) : Holds .last (earlier ++ [s]) s

namespace Step

variable {steps : List Step} {p : Place} {t : Text}

/-- The last step of a process is the one at its end. -/
theorem at?_last (steps : List Step) : at? steps Place.last.index = steps.getLast? := by
  change (if 0 < steps.length then steps[steps.length - 1 - 0]? else none) = _
  rw [List.getLast?_eq_getElem?]
  split
  · rfl
  · next h => simp [List.length_eq_zero_iff.mp (Nat.eq_zero_of_not_pos h)]

/-- The step with the index of a place is the one there. -/
theorem at?_eq_some_iff {s : Step} : at? steps p.index = some s ↔ p.Holds steps s := by
  cases p with
  | first =>
      change steps[0]? = some s ↔ _
      constructor
      · intro h
        rcases List.head?_eq_some_iff.mp (by rwa [List.head?_eq_getElem?]) with ⟨later, rfl⟩
        exact .first s later
      · intro h
        cases h
        rfl
  | second =>
      change steps[1]? = some s ↔ _
      constructor
      · intro h
        rcases steps with - | ⟨r, - | ⟨s', later⟩⟩
        · simp at h
        · simp at h
        · have hsame : s' = s := by simpa using h
          subst hsame
          exact .second r s' later
      · intro h
        cases h
        rfl
  | last =>
      rw [at?_last, List.getLast?_eq_some_iff]
      constructor
      · intro h
        rcases h with ⟨earlier, rfl⟩
        exact .last earlier s
      · intro h
        cases h with
        | last earlier => exact ⟨earlier, rfl⟩

/-- The step at a place has a name. -/
def HasName (steps : List Step) (p : Place) (t : Text) : Prop :=
  ∃ s, p.Holds steps s ∧ Ocl.Section.Gives s "name".toList t

/-- The step at a place has an action of some type. -/
def HasActionType (steps : List Step) (p : Place) (t : Text) : Prop :=
  ∃ s action, p.Holds steps s ∧
    Ocl.LastNamed .block Ocl.Section.name "action".toList s.children action ∧
    Ocl.Section.Gives action "action_type".toList t

/-- The name that is looked up is the one that the step has. -/
theorem nameAt?_eq_some_iff : nameAt? steps p.index = some t ↔ HasName steps p t := by
  rw [nameAt?, Option.bind_eq_some_iff]
  constructor
  · intro h
    rcases h with ⟨s, hs, ht⟩
    exact ⟨s, at?_eq_some_iff.mp hs, Ocl.Section.scalar?_eq_some_iff.mp ht⟩
  · intro h
    rcases h with ⟨s, hs, ht⟩
    exact ⟨s, at?_eq_some_iff.mpr hs, Ocl.Section.scalar?_eq_some_iff.mpr ht⟩

/-- The action type that is looked up is the one that the step has. -/
theorem actionTypeAt?_eq_some_iff :
    actionTypeAt? steps p.index = some t ↔ HasActionType steps p t := by
  rw [actionTypeAt?, Option.bind_eq_some_iff]
  constructor
  · intro h
    rcases h with ⟨s, hs, ht⟩
    rcases Option.bind_eq_some_iff.mp ht with ⟨action, haction, ht⟩
    exact ⟨s, action, at?_eq_some_iff.mp hs, Ocl.Section.block?_eq_some_iff.mp haction,
      Ocl.Section.scalar?_eq_some_iff.mp ht⟩
  · intro h
    rcases h with ⟨s, action, hs, haction, ht⟩
    refine ⟨s, at?_eq_some_iff.mpr hs, Option.bind_eq_some_iff.mpr ⟨action, ?_, ?_⟩⟩
    · exact Ocl.Section.block?_eq_some_iff.mpr haction
    · exact Ocl.Section.scalar?_eq_some_iff.mpr ht

end Step

end DeployGate
