import Mathlib
import DeployGate.Text.Margin

/-!
# Margins of lines that end in carriage returns

The common margin is what all lines with a say in it are indented by.  A line of spaces and tabs
has none.  A carriage return at its end gives it one, so the margin of lines with returns is what
all of them share, and no line comes out empty.

Main results:

- Definition `Text.sharedIndentation`: the indentation that all lines share.
- Definition `Text.BlankLinesFit`: blank lines that change nothing in what is shared.
- Theorem `Text.margin_concat_return`: the margin of lines with returns.
- Theorem `Text.drop_eq_dropMargin_iff`: when lines with returns lose what they lose without.
-/

namespace DeployGate

namespace Text

variable {p s t l b : Text} {ls ts : List Text}

/-! ## Common starts -/

/-- What two texts start with is what their common start starts with. -/
theorem isPrefix_commonStart_iff : p <+: commonStart s t ↔ p <+: s ∧ p <+: t := by
  induction p generalizing s t with
  | nil => simp
  | cons e p ih =>
      cases s with
      | nil => simp [commonStart]
      | cons c s =>
          cases t with
          | nil => simp [commonStart]
          | cons d t =>
              by_cases hcd : c = d
              · subst hcd
                rw [commonStart, if_pos rfl]
                simp only [List.cons_prefix_cons, ih]
                exact and_and_left
              · rw [commonStart, if_neg hcd]
                simp only [List.prefix_nil, reduceCtorEq, List.cons_prefix_cons, false_iff]
                rintro ⟨⟨rfl, -⟩, rfl, -⟩
                exact hcd rfl

/-- What all texts start with is what their common start starts with. -/
theorem isPrefix_commonStartOf_iff (h : ts ≠ []) :
    p <+: commonStartOf ts ↔ ∀ t ∈ ts, p <+: t := by
  have hfold (s : Text) : p <+: ts.tail.foldl commonStart s ↔ p <+: s ∧ ∀ t ∈ ts.tail, p <+: t := by
    induction ts.tail generalizing s with
    | nil => simp
    | cons t ts ih => simp [ih, isPrefix_commonStart_iff, and_assoc]
  cases ts with
  | nil => contradiction
  | cons t ts => simpa [commonStartOf] using hfold t

/-- The indentation that all lines share, blank ones included. -/
def sharedIndentation (ls : List Text) : Text :=
  commonStartOf (ls.map indentation)

/-- The margin is what the lines that are not blank share. -/
theorem margin_eq_sharedIndentation (ls : List Text) :
    margin ls = sharedIndentation (ls.filter fun l => !allBlank l) := rfl

/-- What all lines are indented by is what their shared indentation starts with. -/
theorem isPrefix_sharedIndentation_iff (h : ls ≠ []) :
    p <+: sharedIndentation ls ↔ ∀ l ∈ ls, p <+: indentation l := by
  have hne : ls.map indentation ≠ [] := by simpa using h
  rw [sharedIndentation, isPrefix_commonStartOf_iff hne, List.forall_mem_map]

/-- All lines are indented by what they share. -/
theorem sharedIndentation_isPrefix (h : l ∈ ls) : sharedIndentation ls <+: indentation l :=
  (isPrefix_sharedIndentation_iff (List.ne_nil_of_mem h)).mp List.prefix_rfl l h

/-- The indentation of a line starts it. -/
theorem indentation_isPrefix (l : Text) : indentation l <+: l :=
  List.takeWhile_prefix _

/-- A line of spaces and tabs is its own indentation. -/
theorem indentation_of_allBlank (h : allBlank l = true) : indentation l = l :=
  List.takeWhile_eq_self_iff.mpr (List.all_eq_true.mp h)

/-! ## Margins with returns -/

/-- A carriage return is no part of an indentation. -/
@[simp] theorem indentation_concat_return (l : Text) :
    indentation (l ++ ['\r']) = indentation l := by
  induction l with
  | nil => rfl
  | cons c l ih =>
      by_cases hc : isBlank c = true
      · simpa [indentation, hc] using ih
      · simp [indentation, hc]

/-- A line with a carriage return is not blank. -/
@[simp] theorem allBlank_concat_return (l : Text) : allBlank (l ++ ['\r']) = false := by
  simp [allBlank, isBlank]

/-- The margin of lines with returns is what all of them share. -/
theorem margin_concat_return (ls : List Text) :
    margin (ls.map (· ++ ['\r'])) = sharedIndentation ls := by
  have hall : (ls.map (· ++ ['\r'])).filter (fun l => !allBlank l) = ls.map (· ++ ['\r']) := by
    apply List.filter_eq_self.mpr
    intro k hk
    rcases List.mem_map.mp hk with ⟨l, -, rfl⟩
    simp
  rw [margin, hall, sharedIndentation, List.map_map]
  congr 1
  exact List.map_congr_left fun l _ => indentation_concat_return l

/-- A line with a return keeps it when the margin is dropped. -/
theorem dropMargin_concat_return (h : p <+: l) :
    dropMargin p (l ++ ['\r']) = l.drop p.length ++ ['\r'] := by
  rw [dropMargin, if_neg (by simp), List.drop_append_of_le_length h.length_le]

/-! ## What is lost -/

/-- Every blank line is the margin of the others, or all lines are the same. -/
def BlankLinesFit (ls : List Text) : Prop :=
  ∀ b ∈ ls, allBlank b = true → b = margin ls ∨ ∀ l ∈ ls, l = b

instance (ls : List Text) : Decidable (BlankLinesFit ls) :=
  inferInstanceAs (Decidable (∀ b ∈ ls, allBlank b = true → b = margin ls ∨ ∀ l ∈ ls, l = b))

/-- The margin starts every line that is not blank. -/
theorem margin_isPrefix (h : l ∈ ls) (hl : allBlank l = false) : margin ls <+: indentation l := by
  rw [margin_eq_sharedIndentation]
  exact sharedIndentation_isPrefix (List.mem_filter.mpr ⟨h, by simp [hl]⟩)

/-- What all lines are indented by starts the margin, unless all lines are blank. -/
theorem sharedIndentation_isPrefix_margin (h : l ∈ ls) (hl : allBlank l = false) :
    sharedIndentation ls <+: margin ls := by
  have hmem : l ∈ ls.filter fun k => !allBlank k := List.mem_filter.mpr ⟨h, by simp [hl]⟩
  rw [margin_eq_sharedIndentation]
  apply (isPrefix_sharedIndentation_iff (List.ne_nil_of_mem hmem)).mpr
  intro k hk
  exact sharedIndentation_isPrefix (List.mem_of_mem_filter hk)

/-- Of blank lines alone the margin is empty. -/
theorem margin_of_allBlank (h : ∀ l ∈ ls, allBlank l = true) : margin ls = [] := by
  have hnone : ls.filter (fun l => !allBlank l) = [] := by
    apply List.filter_eq_nil_iff.mpr
    intro l hl
    simp [h l hl]
  rw [margin, hnone]
  rfl

/-- Where every blank line is the margin of the others, all lines are indented by the margin. -/
theorem sharedIndentation_eq_margin (hl : l ∈ ls) (hlblank : allBlank l = false)
    (hfit : ∀ b ∈ ls, allBlank b = true → b = margin ls) :
    sharedIndentation ls = margin ls := by
  have hback : margin ls <+: sharedIndentation ls := by
    apply (isPrefix_sharedIndentation_iff (List.ne_nil_of_mem hl)).mpr
    intro k hk
    by_cases hkblank : allBlank k = true
    · rw [indentation_of_allBlank hkblank, ← hfit k hk hkblank]
    · exact margin_isPrefix hk (by simpa using hkblank)
  have hforth := sharedIndentation_isPrefix_margin hl hlblank
  exact hforth.eq_of_length_le hback.length_le

/-- Two starts of a line, one of the other, are the same if they leave the same behind. -/
theorem eq_of_drop_eq {q : Text} (hpq : p <+: q) (hq : q <+: l)
    (h : l.drop p.length = l.drop q.length) : p = q := by
  have hlength := congrArg List.length h
  have hle := hpq.length_le
  have hle' := hq.length_le
  rw [List.length_drop, List.length_drop] at hlength
  exact hpq.eq_of_length (by omega)

/-- A blank line is what all lines are indented by if nothing of it is left behind that. -/
theorem eq_sharedIndentation_of_drop (hb : b ∈ ls) (hblank : allBlank b = true)
    (h : b.drop (sharedIndentation ls).length = []) :
    b = sharedIndentation ls := by
  have hstart := sharedIndentation_isPrefix hb
  rw [indentation_of_allBlank hblank] at hstart
  exact (hstart.eq_of_length_le (List.drop_eq_nil_iff.mp h)).symm

/-- Lines of which one is not blank lose the margin and what they share alike exactly if every
blank one is the margin of the others. -/
theorem drop_eq_dropMargin_iff_of_mem (hl : l ∈ ls) (hlblank : allBlank l = false) :
    (∀ k ∈ ls, k.drop (sharedIndentation ls).length = dropMargin (margin ls) k) ↔
      ∀ b ∈ ls, allBlank b = true → b = margin ls := by
  constructor
  · intro h b hb hblank
    have hldrop := h l hl
    have hbdrop := h b hb
    rw [dropMargin, if_neg (by simp [hlblank])] at hldrop
    rw [dropMargin, if_pos hblank] at hbdrop
    have hsame := eq_of_drop_eq (sharedIndentation_isPrefix_margin hl hlblank)
      ((margin_isPrefix hl hlblank).trans (indentation_isPrefix l)) hldrop
    rw [eq_sharedIndentation_of_drop hb hblank hbdrop, hsame]
  · intro h k hk
    rw [sharedIndentation_eq_margin hl hlblank h, dropMargin]
    split
    · next hkblank =>
      rw [h k hk hkblank]
      exact List.drop_length
    · rfl

/-- Blank lines lose all of what they hold and what they share alike exactly if they are empty or
all the same. -/
theorem drop_eq_dropMargin_iff_of_allBlank (hall : ∀ l ∈ ls, allBlank l = true) :
    (∀ k ∈ ls, k.drop (sharedIndentation ls).length = dropMargin (margin ls) k) ↔
      ∀ b ∈ ls, b = [] ∨ ∀ l ∈ ls, l = b := by
  constructor
  · intro h b hb
    have hstart (k : Text) (hk : k ∈ ls) : k = sharedIndentation ls := by
      have hkdrop := h k hk
      rw [dropMargin, if_pos (hall k hk)] at hkdrop
      exact eq_sharedIndentation_of_drop hk (hall k hk) hkdrop
    right
    intro l hl
    rw [hstart l hl, ← hstart b hb]
  · intro h k hk
    rw [dropMargin, if_pos (hall k hk), List.drop_eq_nil_iff]
    rcases h k hk with rfl | hsame
    · simp
    · apply List.IsPrefix.length_le
      apply (isPrefix_sharedIndentation_iff (List.ne_nil_of_mem hk)).mpr
      intro l hl
      rw [hsame l hl, indentation_of_allBlank (hall k hk)]

/-- Dropping what all lines are indented by is dropping the margin exactly if every blank line is
the margin of the others, or all lines are the same. -/
theorem drop_eq_dropMargin_iff (ls : List Text) :
    (∀ k ∈ ls, k.drop (sharedIndentation ls).length = dropMargin (margin ls) k) ↔
      BlankLinesFit ls := by
  by_cases hother : ∃ l ∈ ls, allBlank l = false
  · rcases hother with ⟨l, hl, hlblank⟩
    rw [drop_eq_dropMargin_iff_of_mem hl hlblank]
    refine forall₃_congr fun b hb hblank => ?_
    refine ⟨.inl, fun h => h.resolve_right fun hsame => ?_⟩
    rw [hsame l hl, hblank] at hlblank
    contradiction
  · have hall : ∀ l ∈ ls, allBlank l = true := by
      intro l hl
      by_contra hno
      exact hother ⟨l, hl, by simpa using hno⟩
    rw [drop_eq_dropMargin_iff_of_allBlank hall, BlankLinesFit, margin_of_allBlank hall]
    refine forall₂_congr fun b hb => ?_
    simp [hall b hb]

end Text

end DeployGate
