import DeployGate.Text.Basic

/-!
# Common margins

An indented block of lines loses the indentation that all of its lines share.
Lines of spaces and tabs only have no say in the margin and come out empty.

Main results:

- `Text.lineFeeds_withoutMargin` shows that removing the margin keeps every line.
-/

namespace DeployGate

namespace Text

/-! ## The margin -/

/-- The spaces and tabs that a line starts with. -/
def indentation (line : Text) : Text :=
  line.takeWhile isBlank

/-- The longest common beginning of two texts. -/
def commonStart : Text → Text → Text
  | c :: s, d :: t => if c = d then c :: commonStart s t else []
  | _, _ => []

/-- The longest common beginning of all texts in a list, empty for no text. -/
def commonStartOf : List Text → Text
  | [] => []
  | t :: ts => ts.foldl commonStart t

/-- The indentation shared by all lines that hold more than spaces and tabs. -/
def margin (ls : List Text) : Text :=
  commonStartOf ((ls.filter fun l => !allBlank l).map indentation)

/-! ## Removing it -/

/-- One line without the margin; a line of spaces and tabs only becomes empty. -/
def dropMargin (margin line : Text) : Text :=
  if allBlank line then [] else line.drop margin.length

/-- A text without the common margin of its lines. -/
def withoutMargin (t : Text) : Text :=
  let ls := lines t
  unlines (ls.map (dropMargin (margin ls)))

private theorem lineFeeds_joinWith {ps : List Text} (h : ∀ p ∈ ps, '\n' ∉ p) :
    lineFeeds (joinWith ['\n'] ps) = ps.length - 1 := by
  induction ps with
  | nil => rfl
  | cons p ps ih =>
    have hp : lineFeeds p = 0 := List.count_eq_zero.2 (h p (List.mem_cons_self ..))
    cases ps with
    | nil => simpa [joinWith] using hp
    | cons q ps =>
      have := ih fun k hk => h k (List.mem_cons_of_mem _ hk)
      simp only [joinWith, lineFeeds_append, hp, this]
      simp [lineFeeds]
      omega

private theorem line_feed_not_mem_dropMargin {m l : Text} (h : '\n' ∉ l) :
    '\n' ∉ dropMargin m l := by
  unfold dropMargin
  split
  · simp
  · exact fun hm => h (List.mem_of_mem_drop hm)

/-- Removing the margin keeps the number of lines. -/
theorem lineFeeds_withoutMargin (t : Text) : lineFeeds (withoutMargin t) = lineFeeds t := by
  have hl : ∀ p ∈ lines t, '\n' ∉ p := fun p hp => separator_not_mem_of_mem_splitAt hp
  have hd : ∀ p ∈ (lines t).map (dropMargin (margin (lines t))), '\n' ∉ p := by
    intro p hp
    obtain ⟨q, hq, rfl⟩ := List.mem_map.1 hp
    exact line_feed_not_mem_dropMargin (hl q hq)
  conv => rhs; rw [← unlines_lines t]
  simp only [withoutMargin, unlines]
  rw [lineFeeds_joinWith hd, lineFeeds_joinWith hl, List.length_map]

end Text

end DeployGate
