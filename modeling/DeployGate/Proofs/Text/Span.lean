import Mathlib

/-!
# Spans

A span is the run of items of one class that a list starts with.

Main results:

- Theorem `takeWhile_append_of_boundary`: a run of items of a class is the span of a
  list if the class ends behind it.
- Theorem `isPrefix_takeWhile_iff`: the span is the longest beginning of its class.
-/

namespace DeployGate

namespace Span

variable {α : Type} {p : α → Bool}

/-- What is left behind a span is what its class does not start with. -/
theorem drop_length_takeWhile (p : α → Bool) (t : List α) :
    t.drop (t.takeWhile p).length = t.dropWhile p := by
  induction t with
  | nil => rfl
  | cons c t ih =>
      by_cases hc : p c = true
      · simpa [hc] using ih
      · simp [hc]

/-- The items of a span are of its class. -/
theorem of_mem_takeWhile {t : List α} {c : α} (h : c ∈ t.takeWhile p) : p c = true :=
  List.all_eq_true.mp (List.all_takeWhile) c h

/-- Behind a span no item of its class is next. -/
theorem head?_dropWhile_eq_false {t : List α} {c : α} (h : (t.dropWhile p).head? = some c) :
    p c = false := by
  have hnot := List.head?_dropWhile_not p t
  rw [h] at hnot
  simpa using hnot

/-- Items among which a given one is not are all different from it. -/
theorem bne_of_not_mem {β : Type} [DecidableEq β] {b : β} {us : List β} (h : b ∉ us) :
    ∀ c ∈ us, (c != b) = true := by
  intro c hc
  have hne : c ≠ b := by
    intro heq
    subst heq
    contradiction
  simpa using hne

/-- An item that is not of a class is not among items of the class. -/
theorem not_mem_of_all {b : α} {us : List α} (hb : p b = false) (hus : ∀ c ∈ us, p c = true) :
    b ∉ us := by
  intro hmem
  rw [hus b hmem] at hb
  contradiction

/-- A run of items of a class is a span where the class ends behind it. -/
theorem takeWhile_append_of_boundary {us rest : List α} (hus : ∀ c ∈ us, p c = true)
    (hrest : ∀ c, rest.head? = some c → p c = false) :
    (us ++ rest).takeWhile p = us := by
  have hend : rest.takeWhile p = [] := by
    cases rest with
    | nil => rfl
    | cons c rest => exact List.takeWhile_cons_of_neg (by simp [hrest c rfl])
  rw [List.takeWhile_append_of_pos hus, hend, List.append_nil]

/-- The span of a list is the longest beginning of its class. -/
theorem isPrefix_takeWhile_iff {us t : List α} :
    us <+: t.takeWhile p ↔ us <+: t ∧ ∀ c ∈ us, p c = true := by
  constructor
  · intro h
    refine ⟨h.trans (List.takeWhile_prefix p), ?_⟩
    intro c hc
    exact of_mem_takeWhile (h.subset hc)
  · intro h
    rcases h with ⟨⟨rest, rfl⟩, hus⟩
    rw [List.takeWhile_append_of_pos hus]
    exact List.prefix_append us _

/-- Behind the first item, a beginning of one class reaches no further than the span. -/
theorem length_cons_le {c d : α} {us t : List α} (h : d :: us <+: c :: t)
    (hus : ∀ e ∈ us, p e = true) :
    (d :: us).length ≤ (c :: t.takeWhile p).length := by
  have htail : us <+: t := (List.cons_prefix_cons.mp h).2
  have hspan : us <+: t.takeWhile p := isPrefix_takeWhile_iff.mpr ⟨htail, hus⟩
  have hle := hspan.length_le
  simp only [List.length_cons]
  omega

end Span

end DeployGate
