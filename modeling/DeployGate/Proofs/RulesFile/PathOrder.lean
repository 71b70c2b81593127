import DeployGate.CommandLine.Lint
import DeployGate.Proofs.RulesFile.Violation

/-!
# The order of a report

A full report is sorted by the ways to the violations.  Ways are in lexicographic order, and none
of a step with a key and a step with an index, which nothing puts in an order, is among them.

Main results:

- Theorem `PathItem.pathAtMost_iff`: the order of ways is lexicographic.
- Theorem `pairwise_mergeSort_stable`: equal items of a sorted list stand as they did.
- Theorem `Schema.Accounts.mergeSort`: what accounts for a value in the order of the fields does so
  in the order of their keys once it is sorted.
- Theorem `Schema.clashIn?_eq_none`: what is wrong with a value can be sorted.
-/

namespace DeployGate

/-! ## Sorted lists -/

/-- One list is at most another by their first items, and where these are the same by what
follows. -/
theorem cons_le_cons_iff {α : Type} [LinearOrder α] {c d : α} {s t : List α} :
    c :: s ≤ d :: t ↔ c < d ∨ c = d ∧ s ≤ t := by
  rw [le_iff_lt_or_eq, le_iff_lt_or_eq (a := s), List.cons_lt_cons_iff, List.cons.injEq]
  tauto

/-- The order of texts is the lexicographic one. -/
theorem Text.atMost_iff {s t : Text} : atMost s t = true ↔ s ≤ t := by
  induction s generalizing t with
  | nil =>
      cases t with
      | nil => simp [atMost]
      | cons d t => simpa [atMost] using (List.nil_lt_cons d t).le
  | cons c s ih =>
      cases t with
      | nil => simp [atMost]
      | cons d t =>
          rw [atMost, cons_le_cons_iff, ← ih]
          split
          · next h => simp [h]
          · next h => simp [h]

/-- Sorted items are in order, and those that are equal in it stand as they did. -/
theorem pairwise_mergeSort_stable {α : Type} {le : α → α → Bool} {R : α → α → Prop}
    (htrans : ∀ a b c, le a b = true → le b c = true → le a c = true)
    (htotal : ∀ a b, (le a b || le b a) = true) {l : List α} (h : l.Pairwise R) :
    (l.mergeSort le).Pairwise fun a b => le a b = true ∧ (le b a = true → R a b) := by
  rw [List.pairwise_iff_forall_sublist]
  intro a b hab
  have hle := List.pairwise_iff_forall_sublist.mp (List.pairwise_mergeSort htrans htotal l) hab
  refine ⟨hle, fun hback => ?_⟩
  -- The items that equal the first one in the order are a sorted part of the list, and the
  -- sorting keeps such a part as it is.
  let same : α → Bool := fun c => le a c && le c a
  have hsorted : (l.filter same).Pairwise fun x y => le x y = true := by
    rw [List.pairwise_iff_forall_sublist]
    intro x y hxy
    have hx := List.of_mem_filter (hxy.subset (by simp : x ∈ [x, y]))
    have hy := List.of_mem_filter (hxy.subset (by simp : y ∈ [x, y]))
    simp only [same, Bool.and_eq_true] at hx hy
    exact htrans x a y hx.2 hy.1
  have hkept : ((l.filter same).filter same).Sublist ((l.mergeSort le).filter same) :=
    (List.sublist_mergeSort htrans htotal hsorted List.filter_sublist).filter same
  have hequal : l.filter same = (l.mergeSort le).filter same := by
    simp only [List.filter_filter, Bool.and_self] at hkept
    exact hkept.eq_of_length ((List.mergeSort_perm l le).filter same).length_eq.symm
  have hrefl : le a a = true := by simpa using htotal a a
  have hpair : ([a, b].filter same).Sublist (l.filter same) := by
    rw [hequal]
    exact hab.filter same
  rw [List.filter_eq_self.mpr (by simp [same, hle, hback, hrefl])] at hpair
  exact List.pairwise_iff_forall_sublist.mp h (hpair.trans List.filter_sublist)

/-! ## The order of ways -/

namespace PathItem

/-- Where a step stands among all steps. -/
def rank : PathItem → Text ⊕ₗ ℕ
  | .key t => Sum.inlₗ t
  | .index n => Sum.inrₗ n

/-- Steps that stand at one place are the same. -/
theorem rank_injective : Function.Injective rank := by
  intro p q h
  cases p <;> cases q <;> simp_all [rank]

/-- One step is at most another one if it does not stand behind it. -/
theorem atMost_iff {p q : PathItem} : p.atMost q = true ↔ p.rank ≤ q.rank := by
  cases p <;> cases q <;> simp [atMost, rank, Text.atMost_iff]

/-- The order of ways is lexicographic. -/
theorem pathAtMost_iff {ps qs : List PathItem} :
    pathAtMost ps qs = true ↔ ps.map rank ≤ qs.map rank := by
  induction ps generalizing qs with
  | nil =>
      cases qs with
      | nil => simp [pathAtMost]
      | cons q qs => simpa [pathAtMost] using (List.nil_lt_cons q.rank (qs.map rank)).le
  | cons p ps ih =>
      cases qs with
      | nil => simp [pathAtMost]
      | cons q qs =>
          rw [pathAtMost, List.map_cons, List.map_cons, cons_le_cons_iff]
          split
          · next h => simp [h, ih]
          · next h => simp [atMost_iff, le_iff_lt_or_eq, rank_injective.eq_iff, h]

/-- The order of ways is transitive. -/
theorem pathAtMost_trans {ps qs rs : List PathItem} (h : pathAtMost ps qs = true)
    (h' : pathAtMost qs rs = true) : pathAtMost ps rs = true := by
  rw [pathAtMost_iff] at *
  exact h.trans h'

/-- Any two ways are in order one way round or the other. -/
theorem pathAtMost_total (ps qs : List PathItem) :
    (pathAtMost ps qs || pathAtMost qs ps) = true := by
  rw [Bool.or_eq_true, pathAtMost_iff, pathAtMost_iff]
  exact le_total _ _

/-- Where no two ways clash none are found to. -/
theorem clashIn?_eq_none {ps : List (List PathItem)}
    (h : ∀ p ∈ ps, ∀ q ∈ ps, clash? p q = none) : clashIn? ps = none := by
  induction ps with
  | nil => rfl
  | cons p ps ih =>
      have hfirst : ps.findSome? (fun q => clash? q p) = none :=
        List.findSome?_eq_none_iff.mpr fun q hq =>
          h q (List.mem_cons_of_mem p hq) p List.mem_cons_self
      have hrest := ih fun q hq r hr =>
        h q (List.mem_cons_of_mem p hq) r (List.mem_cons_of_mem p hr)
      rw [clashIn?, hfirst, hrest]
      rfl

end PathItem

/-! ## Sorted violations -/

/-- Fields whose keys are in order are in order. -/
theorem Field.sublist_byKey {f g : Field} (hle : f.key ≤ g.key) (hne : f ≠ g) :
    [f, g].Sublist byKey := by
  rw [← Text.atMost_iff] at hle
  revert hle hne
  cases f <;> cases g <;> decide

/-- Violations at different places of a value are in the order of the keys if the ways to them
are. -/
theorem Violation.before_of_pathAtMost {d : Datum} {v w : Violation} (hv : Schema.Wrong d v)
    (hw : Schema.Wrong d w) (hle : PathItem.pathAtMost v.path w.path = true)
    (hne : v.path ≠ w.path) : Before Field.byKey v w := by
  left
  rcases hv.path_cases with hv | ⟨f, hv⟩ <;> rcases hw.path_cases with hw | ⟨g, hw⟩ <;>
    rw [hv, hw] at hle hne ⊢
  · contradiction
  · exact root_sublist (by cases g <;> decide)
  · contradiction
  · have hfields : f ≠ g := fun h => hne (congrArg Field.path h)
    have hkeys : f.key ≤ g.key := by
      rw [← Text.atMost_iff]
      revert hle hfields
      cases f <;> cases g <;> decide
    exact ((Field.sublist_byKey hkeys hfields).map Field.path).cons []

namespace Schema

variable {d : Datum} {vs : List Violation}

/-- What accounts for a value in the order of the fields does so in the order of their keys once it
is sorted. -/
theorem Accounts.mergeSort (h : Accounts d Field.all vs) :
    Accounts d Field.byKey (vs.mergeSort fun v w => PathItem.pathAtMost v.path w.path) := by
  refine ⟨fun v => List.mem_mergeSort.trans (h.mem_iff v), ?_⟩
  have htotal : ∀ v w : Violation,
      (PathItem.pathAtMost v.path w.path || PathItem.pathAtMost w.path v.path) = true :=
    fun v w => PathItem.pathAtMost_total v.path w.path
  have htrans : ∀ u v w : Violation, PathItem.pathAtMost u.path v.path = true →
      PathItem.pathAtMost v.path w.path = true → PathItem.pathAtMost u.path w.path = true :=
    fun _ _ _ => PathItem.pathAtMost_trans
  have hsorted := pairwise_mergeSort_stable htrans htotal h.ordered
  refine hsorted.imp_of_mem fun {v w} hv hw hpair => ?_
  rw [List.mem_mergeSort] at hv hw
  rcases hpair with ⟨hle, hstable⟩
  by_cases heq : v.path = w.path
  · rw [heq] at hle hstable
    exact (hstable hle).of_eq (by decide) heq
  · exact Violation.before_of_pathAtMost ((h.mem_iff v).mp hv) ((h.mem_iff w).mp hw) hle heq

/-- The ways to two things that are wrong with a value can be compared. -/
theorem Wrong.clash?_eq_none {v w : Violation} (hv : Wrong d v) (hw : Wrong d w) :
    PathItem.clash? v.path w.path = none := by
  rcases hv.path_cases with hv | ⟨f, hv⟩ <;> rcases hw.path_cases with hw | ⟨g, hw⟩ <;> rw [hv, hw]
  · rfl
  · rfl
  · rfl
  · cases f <;> cases g <;> decide

/-- What is wrong with a value can be sorted. -/
theorem clashIn?_eq_none (h : ∀ v ∈ vs, Wrong d v) :
    PathItem.clashIn? (vs.map Violation.path) = none := by
  apply PathItem.clashIn?_eq_none
  simp only [List.forall_mem_map]
  intro v hv w hw
  exact (h v hv).clash?_eq_none (h w hw)

end Schema

end DeployGate
