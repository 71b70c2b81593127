import Mathlib
import DeployGate.RulesFile.Validator

/-!
# What messages cannot show

A message that has to show an integer with too many digits is refused.  This module says
of which values and problems that is so.

Main results:

- Definition `RefusedIff`: a result is refused exactly under a condition.
- Theorem `Datum.shown_refusedIff`: a value is refused exactly if such an integer is
  somewhere in it.
- Theorem `Problem.message_refusedIff`: the message of a problem is refused exactly if
  the values that it shows are.
-/

namespace DeployGate

/-! ## Refusals -/

/-- A result is refused for its digits exactly under a condition, and is there
otherwise. -/
def RefusedIff {α : Type} (P : Prop) (r : Except NumeralFault α) : Prop :=
  (P ∧ r = .error .unshown) ∨ (¬P ∧ ∃ a, r = .ok a)

namespace RefusedIff

variable {α β : Type} {P Q : Prop} {r : Except NumeralFault α}

/-- A result that is there is refused under no condition. -/
theorem ok (hP : ¬P) (a : α) : RefusedIff P (.ok a) :=
  .inr ⟨hP, a, rfl⟩

/-- A result that is not refused is there. -/
theorem exists_of_not (h : RefusedIff P r) (hP : ¬P) : ∃ a, r = .ok a := by
  rcases h with ⟨hrefused, -⟩ | ⟨-, hthere⟩
  · contradiction
  · exact hthere

/-- A result that is there is not refused. -/
theorem not_of_ok {a : α} (h : RefusedIff P r) (ha : r = .ok a) : ¬P := by
  rcases h with ⟨-, hrefused⟩ | ⟨hP, -⟩
  · rw [ha] at hrefused
    contradiction
  · exact hP

/-- Conditions that are equivalent say the same. -/
theorem congr (h : RefusedIff P r) (hPQ : P ↔ Q) : RefusedIff Q r := by
  rcases h with ⟨hP, hr⟩ | ⟨hP, hr⟩
  · left
    exact ⟨hPQ.1 hP, hr⟩
  · right
    exact ⟨mt hPQ.2 hP, hr⟩

/-- A step behind a result is refused where the result is, or where it is itself. -/
theorem bind {f : α → Except NumeralFault β} (h : RefusedIff P r)
    (hf : ∀ a, RefusedIff Q (f a)) : RefusedIff (P ∨ Q) (r >>= f) := by
  rcases h with ⟨hP, rfl⟩ | ⟨hP, a, rfl⟩
  · left
    exact ⟨.inl hP, rfl⟩
  · rcases hf a with ⟨hQ, hfa⟩ | ⟨hQ, b, hfa⟩
    · left
      exact ⟨.inr hQ, hfa⟩
    · right
      exact ⟨not_or.mpr ⟨hP, hQ⟩, b, hfa⟩

/-- A step behind a result that is never refused makes no difference. -/
theorem bind_ok {f : α → Except NumeralFault β} (h : RefusedIff P r)
    (hf : ∀ a, ∃ b, f a = .ok b) : RefusedIff P (r >>= f) := by
  rcases h with ⟨hP, rfl⟩ | ⟨hP, a, rfl⟩
  · exact .inl ⟨hP, rfl⟩
  · rcases hf a with ⟨b, hb⟩
    exact .inr ⟨hP, b, hb⟩

/-- Changing a result makes no difference to whether it is refused. -/
theorem map (h : RefusedIff P r) (f : α → β) : RefusedIff P (r.map f) := by
  rcases h with ⟨hP, rfl⟩ | ⟨hP, a, rfl⟩
  · left
    exact ⟨hP, rfl⟩
  · right
    exact ⟨hP, f a, rfl⟩

/-- Results for the items of a list are refused where one of them is. -/
theorem mapM {C : α → Prop} {f : α → Except NumeralFault β} (hf : ∀ a, RefusedIff (C a) (f a))
    (as : List α) : RefusedIff (∃ a ∈ as, C a) (as.mapM f) := by
  induction as with
  | nil => exact ok (by simp) []
  | cons a as ih =>
      rw [List.mapM_cons]
      have hrest : ∀ b, RefusedIff (∃ a ∈ as, C a) (as.mapM f >>= fun bs => pure (b :: bs)) := by
        intro b
        exact ih.bind_ok fun bs => ⟨b :: bs, rfl⟩
      apply ((hf a).bind hrest).congr
      simp

end RefusedIff

/-! ## Numbers and values -/

/-- A number has more decimal digits than messages show. -/
def Number.Unshown : Number → Prop
  | .int n => digitLimit < (Text.ofNat n.natAbs).length
  | .double _ => False

instance : DecidablePred Number.Unshown
  | .int n => inferInstanceAs (Decidable (digitLimit < (Text.ofNat n.natAbs).length))
  | .double _ => inferInstanceAs (Decidable False)

/-- A number is refused exactly if it has too many digits. -/
theorem Number.toText_refusedIff (x : Number) : RefusedIff x.Unshown x.toText := by
  cases x with
  | double x => exact .ok not_false _
  | int n =>
      by_cases h : digitLimit < (Text.ofNat n.natAbs).length
      · left
        exact ⟨h, if_pos h⟩
      · right
        exact ⟨h, _, if_neg h⟩

namespace Datum

/-- Somewhere in a value there is a number that messages do not show. -/
inductive Unshown : Datum → Prop
  | number {x : Number} (h : x.Unshown) : Unshown (.number x)
  | item {ds : List Datum} {d : Datum} (hd : d ∈ ds) (h : Unshown d) : Unshown (.list ds)
  | key {es : Entries} {e : Datum × Datum} (he : e ∈ es) (h : Unshown e.1) : Unshown (.map es)
  | value {es : Entries} {e : Datum × Datum} (he : e ∈ es) (h : Unshown e.2) :
      Unshown (.map es)
  | foreign {v : Foreign} (h : v.oversized = true) : Unshown (.foreign v)

/-- A list holds such a number exactly if one of its items does. -/
theorem unshown_list_iff {ds : List Datum} : Unshown (.list ds) ↔ ∃ d ∈ ds, d.Unshown := by
  constructor
  · intro h
    cases h with
    | item hd h => exact ⟨_, hd, h⟩
  · intro h
    rcases h with ⟨d, hd, h⟩
    exact .item hd h

/-- A mapping holds such a number exactly if one of its keys or values does. -/
theorem unshown_map_iff {es : Entries} :
    Unshown (.map es) ↔ ∃ e ∈ es, e.1.Unshown ∨ e.2.Unshown := by
  constructor
  · intro h
    cases h with
    | key he h => exact ⟨_, he, .inl h⟩
    | value he h => exact ⟨_, he, .inr h⟩
  · intro h
    rcases h with ⟨e, he, h | h⟩
    · exact .key he h
    · exact .value he h

/-- What a foreign value is shown as is refused exactly if such a number is in it. -/
theorem foreign_refusedIff (v : Foreign) (t : Text) :
    RefusedIff (Unshown (.foreign v)) (if v.oversized then .error .unshown else .ok t) := by
  cases h : v.oversized with
  | true => exact .inl ⟨.foreign h, rfl⟩
  | false =>
      refine .ok ?_ t
      intro hunshown
      cases hunshown with
      | foreign hover =>
          rw [h] at hover
          contradiction

mutual

/-- A value is refused exactly if it holds a number with too many digits. -/
theorem shown_refusedIff : ∀ d : Datum, RefusedIff d.Unshown d.shown
  | .null => .ok (by rintro ⟨⟩) _
  | .bool _ => .ok (by rintro ⟨⟩) _
  | .text _ => .ok (by rintro ⟨⟩) _
  | .date _ => .ok (by rintro ⟨⟩) _
  | .number x => x.toText_refusedIff.congr ⟨.number, by rintro ⟨h⟩; exact h⟩
  | .list ds => by
      have hitems := shownItems_refusedIff ds
      rw [shown]
      exact (hitems.bind_ok fun _ => ⟨_, rfl⟩).congr unshown_list_iff.symm
  | .map es => by
      have hentries := shownEntries_refusedIff es
      rw [shown]
      exact (hentries.bind_ok fun _ => ⟨_, rfl⟩).congr unshown_map_iff.symm
  | .foreign v => by
      rw [shown]
      exact foreign_refusedIff v v.form

/-- Items are refused exactly if one of them is. -/
theorem shownItems_refusedIff : ∀ ds : List Datum,
    RefusedIff (∃ d ∈ ds, d.Unshown) (shownItems ds)
  | [] => .ok (by simp) _
  | d :: ds => by
      have hfirst := shown_refusedIff d
      have hrest := shownItems_refusedIff ds
      rw [shownItems]
      refine (hfirst.bind fun _ => hrest.bind_ok fun _ => ⟨_, rfl⟩).congr ?_
      simp

/-- Entries are refused exactly if one of their keys or values is. -/
theorem shownEntries_refusedIff : ∀ es : Entries,
    RefusedIff (∃ e ∈ es, e.1.Unshown ∨ e.2.Unshown) (shownEntries es)
  | [] => .ok (by simp) _
  | (k, v) :: es => by
      have hkey := shown_refusedIff k
      have hvalue := shown_refusedIff v
      have hrest := shownEntries_refusedIff es
      rw [shownEntries]
      refine (hkey.bind fun _ => hvalue.bind fun _ => hrest.bind_ok fun _ => ⟨_, rfl⟩).congr ?_
      simp [or_assoc]

end

/-- A value in plain words is refused exactly if it holds a number with too many
digits. -/
theorem plain_refusedIff (d : Datum) : RefusedIff d.Unshown d.plain := by
  cases d with
  | text t => exact .ok (by rintro ⟨⟩) _
  | date d => exact .ok (by rintro ⟨⟩) _
  | foreign v => exact foreign_refusedIff v v.word
  | _ => exact shown_refusedIff _

end Datum

/-! ## Problems -/

namespace Problem

/-- A problem with a value that messages do not show. -/
def Unshown : Problem → Prop
  | .notMapping d => d.Unshown
  | .unknownKeys keys => ∃ k ∈ keys, k.Unshown
  | .notInteger d => d.Unshown
  | .belowOne x => x.Unshown
  | .notText d => d.Unshown
  | .emptyText => False

/-- Keys are refused exactly if one of them is. -/
theorem shownKeys_refusedIff (keys : List Datum) :
    RefusedIff (∃ k ∈ keys, k.Unshown) (shownKeys keys) := by
  have hpair : ∀ k : Datum, RefusedIff k.Unshown (do
      let word ← k.plain
      let form ← k.shown
      pure (word, form)) := by
    intro k
    have hword := k.plain_refusedIff
    have hform := k.shown_refusedIff
    refine (hword.bind fun _ => hform.bind_ok fun _ => ⟨_, rfl⟩).congr ?_
    simp
  unfold shownKeys
  exact (RefusedIff.mapM hpair keys).bind_ok fun _ => ⟨_, rfl⟩

/-- The message of a problem is refused exactly if it would show a number with too many
digits. -/
theorem message_refusedIff (p : Problem) : RefusedIff p.Unshown p.message := by
  cases p with
  | notMapping d => exact d.shown_refusedIff.map _
  | unknownKeys keys => exact (shownKeys_refusedIff keys).map _
  | notInteger d => exact d.shown_refusedIff.map _
  | belowOne x => exact x.toText_refusedIff.map _
  | notText d => exact d.shown_refusedIff.map _
  | emptyText => exact .ok not_false _

end Problem

end DeployGate
