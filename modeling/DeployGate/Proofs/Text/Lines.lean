import Mathlib
import DeployGate.Text.Basic

/-!
# Lines of texts put together

Where two texts are put together, the last line of the first and the first line of the second
become one line.  So of a text between two others only the lines between its first and its last
one are lines of the whole.

Main results:

- Definition `Text.innerLines`: the lines of a text between its first and its last one.
- Theorem `Text.lines_append`: the lines of two texts put together.
- Theorem `Text.mem_lines_between_iff`: the lines of a text between two others.
-/

namespace DeployGate

namespace Text

variable {s t l p q : Text} {as bs : List Text}

/-- The first line of a text has no line feed, and what is behind it has the other lines. -/
theorem lines_eq_cons (h : lines s = p :: bs) :
    '\n' ∉ p ∧ ((bs = [] ∧ s = p) ∨ ∃ rest, s = p ++ '\n' :: rest ∧ lines rest = bs) := by
  by_cases hmem : '\n' ∈ s
  · rcases List.eq_append_cons_of_mem hmem with ⟨u, rest, rfl, hu⟩
    rw [lines, splitAt_append_cons hu, List.cons.injEq] at h
    rcases h with ⟨rfl, hrest⟩
    exact ⟨hu, .inr ⟨rest, rfl, hrest⟩⟩
  · rw [lines, splitAt_of_not_mem hmem, List.cons.injEq] at h
    rcases h with ⟨rfl, rfl⟩
    exact ⟨hmem, .inl ⟨rfl, rfl⟩⟩

/-- A text without a line feed stands in front of the first line of another one. -/
theorem lines_append_of_not_mem (hq : '\n' ∉ q) (ht : lines t = p :: bs) :
    lines (q ++ t) = (q ++ p) :: bs := by
  rcases lines_eq_cons ht with ⟨hp, ⟨rfl, rfl⟩ | ⟨rest, rfl, hrest⟩⟩
  · exact splitAt_of_not_mem (by simp [hq, hp])
  · rw [← List.append_assoc, lines, splitAt_append_cons (by simp [hq, hp]), ← hrest]
    rfl

/-- The last line of a text and the first line of another one behind it become one line. -/
theorem lines_append (hs : lines s = as ++ [q]) (ht : lines t = p :: bs) :
    lines (s ++ t) = as ++ (q ++ p) :: bs := by
  induction as generalizing s with
  | nil =>
      rcases lines_eq_cons hs with ⟨hq, ⟨-, rfl⟩ | ⟨rest, rfl, hrest⟩⟩
      · exact lines_append_of_not_mem hq ht
      · exact absurd hrest (splitAt_ne_nil _ _)
  | cons a as ih =>
      rcases lines_eq_cons hs with ⟨ha, ⟨hnil, -⟩ | ⟨rest, rfl, hrest⟩⟩
      · simp at hnil
      · rw [List.append_assoc, List.cons_append, lines, splitAt_append_cons ha, ← lines, ih hrest]
        rfl

/-- The lines of a text between its first and its last one. -/
def innerLines (t : Text) : List Text :=
  (lines t).tail.dropLast

/-- A text on one line has no lines between its first and its last one. -/
theorem innerLines_of_not_mem (h : '\n' ∉ t) : innerLines t = [] := by
  rw [innerLines, lines, splitAt_of_not_mem h]
  rfl

/-- A text between two others, the first of which is on one line.  A line that neither starts
with the first text nor ends with the first line of the last is a line of the whole exactly if it
is inside the text between or behind the first line of the last. -/
theorem mem_lines_between_iff (e : Text) (hs : '\n' ∉ s) (ht : lines t = p :: bs)
    (hstart : ∀ u, l ≠ s ++ u) (hend : ∀ u, l ≠ u ++ p) :
    l ∈ lines (s ++ (e ++ t)) ↔ l ∈ innerLines e ∨ l ∈ bs := by
  rcases List.exists_cons_of_ne_nil (splitAt_ne_nil '\n' e) with ⟨first, later, he⟩
  rw [← lines] at he
  rw [innerLines, he, List.tail_cons]
  rcases later.eq_nil_or_concat' with rfl | ⟨inner, last, rfl⟩
  · -- The one line of the text is a part of the line around it.
    have hbehind : lines (e ++ t) = [] ++ (first ++ p) :: bs := lines_append he ht
    rw [lines_append_of_not_mem hs hbehind]
    simp [hstart]
  · have hbehind : lines (e ++ t) = (first :: inner) ++ (last ++ p) :: bs := lines_append he ht
    rw [lines_append_of_not_mem hs hbehind]
    simp [hstart, hend]

end Text

end DeployGate
