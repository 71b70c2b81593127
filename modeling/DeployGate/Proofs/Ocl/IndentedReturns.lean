import DeployGate.Proofs.Ocl.LineEndStyle
import DeployGate.Proofs.Text.Margin

/-!
# Indented heredocs with carriage returns

The margin of an indented heredoc is the one of its lines as they are, with the carriage returns
at their ends.  A blank line has no say in it without a return and has one with it.  So a heredoc
can lose another margin with returns than without, or keep blank lines that it lost.

Main results:

- Theorem `Heredoc.withoutMargin_bodyOf`: a body loses its margin line by line.
- Theorem `Heredoc.value_indented_withReturns_eq_iff`: when an indented heredoc says the same.
- Theorem `tokens_indented_withReturns`: the token of an indented heredoc with returns.
-/

namespace DeployGate

namespace Ocl

namespace Heredoc

variable {ls xs ys : List Text} {f : Text → Text}

/-! ## Bodies without their margins -/

/-- Lines that hold neither line feeds nor carriage returns. -/
def PlainLines (ls : List Text) : Prop :=
  ∀ l ∈ ls, '\n' ∉ l ∧ '\r' ∉ l

/-- Plain lines stay plain when they lose something. -/
theorem PlainLines.map (h : PlainLines ls) (hf : ∀ l, f l <:+: l) : PlainLines (ls.map f) := by
  intro k hk
  rcases List.mem_map.mp hk with ⟨l, hl, rfl⟩
  have hsubset := (hf l).subset
  exact ⟨fun hmem => (h l hl).1 (hsubset hmem), fun hmem => (h l hl).2 (hsubset hmem)⟩

/-- A body of plain lines holds no carriage return. -/
theorem PlainLines.return_not_mem (h : PlainLines ls) : '\r' ∉ bodyOf ls := by
  intro hmem
  rcases List.mem_flatMap.mp hmem with ⟨l, hl, hin⟩
  rcases List.mem_append.mp hin with hin | hin
  · exact (h l hl).2 hin
  · simp at hin

/-- Plain lines stay plain when their starts are dropped. -/
theorem PlainLines.map_drop (h : PlainLines ls) (n : Nat) :
    PlainLines (ls.map fun l => l.drop n) :=
  h.map fun l => (List.drop_suffix n l).isInfix

/-- Plain lines stay plain when they lose a margin. -/
theorem PlainLines.map_dropMargin (h : PlainLines ls) (margin : Text) :
    PlainLines (ls.map (Text.dropMargin margin)) := by
  apply h.map
  intro l
  rw [Text.dropMargin]
  split
  · exact List.nil_infix
  · exact (List.drop_suffix margin.length l).isInfix

/-- The lines of a body are the ones it is made of, and an empty one. -/
theorem lines_bodyOf (h : ∀ l ∈ ls, '\n' ∉ l) : Text.lines (bodyOf ls) = ls ++ [[]] := by
  have hlines := lines_bodyOf_append h []
  rwa [List.append_nil] at hlines

/-- A body loses its margin line by line. -/
theorem withoutMargin_bodyOf (h : ∀ l ∈ ls, '\n' ∉ l) :
    Text.withoutMargin (bodyOf ls) = bodyOf (ls.map (Text.dropMargin (Text.margin ls))) := by
  have hmargin : Text.margin (ls ++ [[]]) = Text.margin ls := by
    simp [Text.margin, Text.allBlank]
  have hempty : Text.dropMargin (Text.margin ls) [] = [] := rfl
  rw [Text.withoutMargin, lines_bodyOf h, hmargin, List.map_append, List.map_singleton, hempty,
    unlines_append_cons, unlines_singleton, List.append_nil]

/-- A body with returns loses what all its lines share. -/
theorem withoutMargin_withReturns (h : PlainLines ls) :
    Text.withoutMargin (bodyOf ls).withReturns =
      (bodyOf (ls.map fun l => l.drop (Text.sharedIndentation ls).length)).withReturns := by
  have hreturns : ∀ k ∈ ls.map (· ++ ['\r']), '\n' ∉ k := by
    intro k hk
    rcases List.mem_map.mp hk with ⟨l, hl, rfl⟩
    simp [(h l hl).1]
  have hdropped := h.map_drop (Text.sharedIndentation ls).length
  rw [withReturns_bodyOf fun l hl => (h l hl).1, withReturns_bodyOf fun l hl => (hdropped l hl).1,
    withoutMargin_bodyOf hreturns, Text.margin_concat_return, List.map_map, List.map_map]
  congr 1
  apply List.map_congr_left
  intro l hl
  exact Text.dropMargin_concat_return
    ((Text.sharedIndentation_isPrefix hl).trans (Text.indentation_isPrefix l))

/-! ## What bodies say -/

/-- A body has a line feed for each of its lines. -/
theorem lineFeeds_bodyOf (h : ∀ l ∈ ls, '\n' ∉ l) : (bodyOf ls).lineFeeds = ls.length := by
  induction ls with
  | nil => rfl
  | cons l ls ih =>
      have hrest := ih fun k hk => h k (List.mem_cons_of_mem l hk)
      have hl : Text.lineFeeds l = 0 := List.count_eq_zero.mpr (h l List.mem_cons_self)
      have hfeed : Text.lineFeeds ['\n'] = 1 := rfl
      simp only [bodyOf, List.flatMap_cons, Text.lineFeeds_append] at hrest ⊢
      rw [hrest, hl, hfeed, List.length_cons]
      omega

/-- What a body of plain lines loses at its end is the line feeds that its lines still need. -/
theorem bodyOf_eq_value_append (h : PlainLines ls) :
    bodyOf ls = value false (bodyOf ls) ++
      List.replicate (ls.length - (value false (bodyOf ls)).lineFeeds) '\n' := by
  rcases Lexeme.trimEnd_append (fun c => c == '\r' || c == '\n') (bodyOf ls) with
    ⟨ends, hsplit, hends, -⟩
  have hvalue : value false (bodyOf ls) =
      Text.trimEnd (fun c => c == '\r' || c == '\n') (bodyOf ls) := rfl
  rw [← hvalue] at hsplit
  have hall : ∀ c ∈ ends, c = '\n' := by
    intro c hc
    have hmem : c ∈ bodyOf ls := by
      rw [hsplit]
      exact List.mem_append_right _ hc
    have hend := hends c hc
    simp only [Bool.or_eq_true, beq_iff_eq] at hend
    rcases hend with rfl | hfeed
    · exact absurd hmem h.return_not_mem
    · exact hfeed
  have hreplicate : ends = List.replicate ends.length '\n' := List.eq_replicate_of_mem hall
  have hcount := congrArg Text.lineFeeds hsplit
  rw [lineFeeds_bodyOf fun l hl => (h l hl).1, Text.lineFeeds_append] at hcount
  have hlength : Text.lineFeeds ends = ends.length := by
    rw [hreplicate, Text.lineFeeds, List.count_replicate_self, List.length_replicate]
  have hrest : ls.length - (value false (bodyOf ls)).lineFeeds = ends.length := by omega
  rw [hrest, ← hreplicate]
  exact hsplit

/-- Bodies of as many plain lines that say the same have the same lines. -/
theorem eq_of_value_bodyOf (hlength : xs.length = ys.length) (hx : PlainLines xs)
    (hy : PlainLines ys) (h : value false (bodyOf xs) = value false (bodyOf ys)) : xs = ys := by
  have hbody : bodyOf xs = bodyOf ys := by
    rw [bodyOf_eq_value_append hx, h, hlength, ← bodyOf_eq_value_append hy]
  have hlines := congrArg Text.lines hbody
  rw [lines_bodyOf fun l hl => (hx l hl).1, lines_bodyOf fun l hl => (hy l hl).1] at hlines
  exact List.append_cancel_right hlines

/-- What a body of plain lines says holds no carriage return. -/
theorem PlainLines.return_not_mem_value (h : PlainLines ls) : '\r' ∉ value false (bodyOf ls) := by
  intro hmem
  apply h.return_not_mem
  rw [bodyOf_eq_value_append h]
  exact List.mem_append_left _ hmem

/-! ## What indented heredocs say -/

/-- What an indented heredoc says. -/
theorem value_indented (h : ∀ l ∈ ls, '\n' ∉ l) :
    value true (bodyOf ls) =
      value false (bodyOf (ls.map (Text.dropMargin (Text.margin ls)))) := by
  rw [value, if_pos rfl, withoutMargin_bodyOf h]
  rfl

/-- What an indented heredoc says with returns. -/
theorem value_indented_withReturns (h : PlainLines ls) :
    value true (bodyOf ls).withReturns =
      (value false
        (bodyOf (ls.map fun l => l.drop (Text.sharedIndentation ls).length))).withReturns := by
  rw [← value_withReturns, ← withoutMargin_withReturns h]
  rfl

/-- An indented heredoc says with returns what it says without, with returns, exactly if every
blank line of it is the margin of the others, or all its lines are the same. -/
theorem value_indented_withReturns_eq_iff (h : PlainLines ls) :
    value true (bodyOf ls).withReturns = (value true (bodyOf ls)).withReturns ↔
      Text.BlankLinesFit ls := by
  have hshared := h.map_drop (Text.sharedIndentation ls).length
  have hmargin := h.map_dropMargin (Text.margin ls)
  rw [← Text.drop_eq_dropMargin_iff, value_indented fun l hl => (h l hl).1,
    value_indented_withReturns h]
  constructor
  · intro hsame
    have hvalue := Text.withReturns_inj hshared.return_not_mem_value hmargin.return_not_mem_value
      hsame
    exact List.map_inj_left.mp (eq_of_value_bodyOf (by simp) hshared hmargin hvalue)
  · intro hsame
    rw [List.map_congr_left hsame]

end Heredoc

/-! ## Tokens -/

open Lexeme
open Heredoc (AtLineEnd HoldsOnly bodyOf)

variable {marker opener closer rest : Text} {ls : List Text}

/-- A text without carriage returns that starts with an indented heredoc starts with one on the
first line with returns too, and goes on with the same rest.  The heredoc says what it said,
with returns, exactly if every blank line of its body is the margin of the others, or all lines
of it are the same. -/
theorem tokens_indented_withReturns (hopens : Opens true marker opener)
    (hls : ∀ l ∈ ls, '\n' ∉ l ∧ ¬HoldsOnly marker l) (hcloser : HoldsOnly marker closer)
    (hrest : AtLineEnd rest) (hreturn : '\r' ∉ opener ++ (bodyOf ls ++ (closer ++ rest))) :
    (∃ line,
      tokens (opener ++ (bodyOf ls ++ (closer ++ rest))) = (tokensAt line rest).map
        (TokenList.prepend [⟨.heredoc (Heredoc.value true (bodyOf ls)), 1⟩]) ∧
      tokens (Text.withReturns (opener ++ (bodyOf ls ++ (closer ++ rest)))) =
        (tokensAt line rest.withReturns).map
          (TokenList.prepend [⟨.heredoc (Heredoc.value true (bodyOf ls).withReturns), 1⟩])) ∧
    (Heredoc.value true (bodyOf ls).withReturns = (Heredoc.value true (bodyOf ls)).withReturns ↔
      Text.BlankLinesFit ls) := by
  have hnext : IsNext (.heredoc true opener marker (bodyOf ls) closer)
      (opener ++ (bodyOf ls ++ (closer ++ rest))) :=
    isNext_heredoc_iff.mpr ⟨hopens, ⟨ls, rfl, hls⟩, hcloser, hrest⟩
  rcases exists_isNext_heredoc_withReturns hnext hreturn with
    ⟨closer', rest', hsplit, hnext', hrest'⟩
  have hclosing := hcloser.line_feed_not_mem hopens.isMarker
  refine ⟨⟨_, tokensAt_heredoc hnext 1, ?_⟩, ?_⟩
  · rw [Text.withReturns_append, Text.withReturns_append, Text.withReturns_append,
      Text.withReturns_of_not_mem hclosing, hsplit, ← hrest', tokens_eq_tokensAt,
      tokensAt_heredoc hnext', Text.lineFeeds_withReturns, Text.lineFeeds_withReturns]
  · apply Heredoc.value_indented_withReturns_eq_iff
    intro l hl
    refine ⟨(hls l hl).1, fun hmem => hreturn ?_⟩
    have hbody : '\r' ∈ bodyOf ls := List.mem_flatMap.mpr ⟨l, hl, List.mem_append_left _ hmem⟩
    exact List.mem_append_right _ (List.mem_append_left _ hbody)

/-- Lines of which the blank one is as wide as the margin. -/
def paddedLines : List Text :=
  [[' ', 'a'], [' '], [' ', 'b']]

/-- A heredoc of these lines says the same with returns. -/
theorem tokens_indented_withReturns_padded :
    tokens ("<<-E\n".toList ++ (bodyOf paddedLines ++ (['E'] ++ []))) =
        .ok ⟨[⟨.heredoc ['a', '\n', '\n', 'b'], 1⟩], 5⟩ ∧
      ∃ line, tokens (Text.withReturns
          ("<<-E\n".toList ++ (bodyOf paddedLines ++ (['E'] ++ [])))) =
        .ok ⟨[⟨.heredoc ['a', '\r', '\n', '\r', '\n', 'b'], 1⟩], line⟩ := by
  have hfit : Text.BlankLinesFit paddedLines := by decide
  have hvalue : Heredoc.value true (bodyOf paddedLines) = ['a', '\n', '\n', 'b'] := by cbv
  have hopens : Opens true ['E'] "<<-E\n".toList :=
    .mk (b := []) (e := ['\n']) (.mk rfl (by simp)) (by simp) .lineFeed
  have hlines : ∀ l ∈ paddedLines, '\n' ∉ l ∧ ¬HoldsOnly ['E'] l := by
    intro l hl
    have hmarker : 'E' ∉ l ∧ '\n' ∉ l := by
      revert l
      decide
    refine ⟨hmarker.2, fun hline => hmarker.1 ?_⟩
    cases hline
    simp
  have hreturn :
      decide ('\r' ∈ "<<-E\n".toList ++ (bodyOf paddedLines ++ (['E'] ++ []))) = false := by
    cbv
  rcases tokens_indented_withReturns hopens hlines (Heredoc.holdsOnly_self _) (.inl rfl)
    (of_decide_eq_false hreturn) with ⟨⟨line, -, hreturns⟩, hiff⟩
  rw [hiff.mpr hfit, hvalue, Text.withReturns_nil, tokensAt_nil] at hreturns
  exact ⟨by cbv, line, hreturns⟩

/-- An indented heredoc with an empty line between two lines with a margin. -/
def gappedIndentedHeredoc : Text :=
  "<<-E\n  a\n\n  b\nE".toList

/-- That heredoc loses its margin without returns and keeps it with returns: the empty line counts
as one without a margin there. -/
theorem tokens_gappedIndentedHeredoc :
    tokens gappedIndentedHeredoc = .ok ⟨[⟨.heredoc "a\n\nb".toList, 1⟩], 5⟩ ∧
      tokens gappedIndentedHeredoc.withReturns =
        .ok ⟨[⟨.heredoc "  a\r\n\r\n  b".toList, 1⟩], 5⟩ ∧
      "  a\r\n\r\n  b".toList ≠ Text.withReturns "a\n\nb".toList := by
  have hother : decide ("  a\r\n\r\n  b".toList = Text.withReturns "a\n\nb".toList) = false := by
    cbv
  exact ⟨by cbv, by cbv, of_decide_eq_false hother⟩

end Ocl

end DeployGate
