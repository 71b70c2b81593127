import DeployGate.Proofs.Ocl.LineNumbers

/-!
# Writing lexemes

Lexemes that are written one behind another are cut again where they were put together, if
each of them ends where it should.  Strings, marks and line feeds end by themselves.  A
number, a name and a heredoc end where the line is over.

Main results:

- Definition `Lexeme.heredocOf`: a heredoc for a text, with a marker that no line of the text
  holds.
- Theorem `Parted.tokens_eq`: the tokens of lexemes that are kept apart are theirs.
-/

namespace DeployGate

/-! ## Lines of texts -/

namespace Text

/-- Two texts with a separator between them have the pieces of both. -/
theorem splitAt_append_append {s : Char} (a b : Text) :
    splitAt s (a ++ s :: b) = splitAt s a ++ splitAt s b := by
  by_cases hmem : s ∈ a
  · rcases List.eq_append_cons_of_mem hmem with ⟨p, q, rfl, hp⟩
    have hrest := splitAt_append_append (s := s) q b
    rw [List.append_assoc, List.cons_append, splitAt_append_cons hp, splitAt_append_cons hp,
      hrest, List.cons_append]
  · rw [splitAt_append_cons hmem, splitAt_of_not_mem hmem, List.singleton_append]
termination_by a.length
decreasing_by
  subst_vars
  simp only [List.length_append, List.length_cons]
  omega

/-- Joined pieces are as long as each of them. -/
theorem length_le_of_mem_joinWith {s p : Text} {ps : List Text} (h : p ∈ ps) :
    p.length ≤ (joinWith s ps).length := by
  induction ps with
  | nil => contradiction
  | cons q ps ih =>
      cases ps with
      | nil =>
          rw [List.mem_singleton.mp h, joinWith]
      | cons r ps =>
          rw [joinWith, List.length_append, List.length_append]
          rcases List.mem_cons.mp h with rfl | hmem
          · omega
          · have hle := ih hmem
            omega

/-- No line is longer than its text. -/
theorem length_le_of_mem_lines {l t : Text} (h : l ∈ lines t) : l.length ≤ t.length := by
  have hle := length_le_of_mem_joinWith (s := ['\n']) h
  rwa [lines, joinWith_splitAt] at hle

/-- A text without a class at its end is all that is left where more of the class is cut
off. -/
theorem trimEnd_append_of_all {p : Char → Bool} {t ends : Text} (hends : ∀ c ∈ ends, p c = true)
    (hlast : ∀ c, t.getLast? = some c → p c = false) : trimEnd p (t ++ ends) = t := by
  have hall : ∀ c ∈ ends.reverse, p c = true := by
    intro c hc
    exact hends c (List.mem_reverse.mp hc)
  have hstop : t.reverse.dropWhile p = t.reverse := by
    cases hreverse : t.reverse with
    | nil => rfl
    | cons c u =>
        have hc : t.getLast? = some c := by
          rw [← List.head?_reverse, hreverse]
          rfl
        exact List.dropWhile_cons_of_neg (by simp [hlast c hc])
  rw [trimEnd, List.reverse_append, List.dropWhile_append_of_pos hall, hstop, List.reverse_reverse]

end Text

namespace Ocl

namespace Heredoc

/-- The body that is made of some lines is these lines with a line feed behind them. -/
theorem bodyOf_eq_unlines {ls : List Text} (hne : ls ≠ []) :
    bodyOf ls = Text.unlines ls ++ ['\n'] := by
  induction ls with
  | nil => contradiction
  | cons l ls ih =>
      cases ls with
      | nil => simp [bodyOf, unlines_singleton]
      | cons k ls =>
          have hrest := ih (by simp)
          rw [unlines_cons_cons, List.append_assoc, List.cons_append, ← hrest]
          simp [bodyOf]

/-- The lines of a text are the body that is the text with a line feed behind it. -/
theorem bodyOf_lines (t : Text) : bodyOf (Text.lines t) = t ++ ['\n'] := by
  have hne : Text.lines t ≠ [] := Text.splitAt_ne_nil _ _
  rw [bodyOf_eq_unlines hne, Text.unlines_lines]

/-- A marker holds itself alone. -/
theorem holdsOnly_self (marker : Text) : HoldsOnly marker marker := by
  have hline : HoldsOnly marker ([] ++ (marker ++ ([] ++ []))) :=
    .mk (by simp) (by simp) (.inl rfl)
  simpa using hline

/-- A line that holds a marker alone is as long as the marker. -/
theorem HoldsOnly.length_le {marker l : Text} (h : HoldsOnly marker l) :
    marker.length ≤ l.length := by
  cases h with
  | mk ha hb hr =>
      simp only [List.length_append]
      omega

end Heredoc

namespace Lexeme

/-! ## Lexemes that end by themselves -/

/-- A line feed is next in front of any text. -/
theorem isNext_lineFeed (t : Text) : IsNext (.lineEnd ['\n']) ('\n' :: t) :=
  .plain (by simp [classOf]) (longest_lineFeed t)

/-- A mark is next in front of any text. -/
theorem isNext_mark (m : Mark) (t : Text) : IsNext (.mark m) ((mark m).text ++ t) :=
  .plain (by simp [classOf]) (longest_mark m t)

/-- A string is next in front of any text. -/
theorem isNext_string {u : Text} (hu : InClass .string u) (t : Text) :
    IsNext (.string u) ((string u).text ++ t) := by
  cases hu with
  | @string v hv =>
      have hlongest := longest_string (stringTail?_of_stringBody hv t)
      refine .plain (by simp [classOf]) ?_
      simpa [text, classOf] using hlongest

/-! ## Lexemes that end where the line is over -/

/-- What holds no line feed is the longest lexeme in front of one. -/
theorem longest_append_lineFeed {k : Class} {u : Text} (hu : InClass k u) (hend : k ≠ .lineEnd)
    (hopener : k ≠ .opener) (t : Text) : Longest k u (u ++ '\n' :: t) := by
  apply Longest.of_inClass (List.prefix_append u _) hu
  intro v hv hclass
  by_contra hlong
  -- Anything longer would hold the line feed.
  have hfeed : u ++ ['\n'] <+: u ++ '\n' :: t := ⟨t, by simp⟩
  have hinside : u ++ ['\n'] <+: v := by
    apply List.prefix_of_prefix_length_le hfeed hv
    rw [List.length_append, List.length_singleton]
    omega
  exact hclass.line_feed_not_mem hend hopener (hinside.subset (by simp))

/-- A number is next at the end of a line. -/
theorem isNext_number {u : Text} (hu : InClass .number u) (t : Text) :
    IsNext (.number u) ((number u).text ++ '\n' :: t) :=
  .plain (by simp [classOf]) (longest_append_lineFeed hu (by simp) (by simp) t)

/-- A name is next at the end of a line. -/
theorem isNext_name {u : Text} (hu : InClass .name u) (t : Text) :
    IsNext (.name u) ((name u).text ++ '\n' :: t) :=
  .plain (by simp [classOf]) (longest_append_lineFeed hu (by simp) (by simp) t)

/-! ## Heredocs -/

/-- A marker that is longer than a text. -/
def freeMarker (t : Text) : Text :=
  List.replicate (t.length + 1) 'E'

/-- The opener of a heredoc for a text. -/
def openerOf (t : Text) : Text :=
  '<' :: '<' :: (freeMarker t ++ ['\n'])

/-- A heredoc for a text. -/
def heredocOf (t : Text) : Lexeme :=
  .heredoc false (openerOf t) (freeMarker t) (t ++ ['\n']) (freeMarker t)

/-- A marker that is longer than a text is one. -/
theorem isMarker_freeMarker (t : Text) : IsMarker (freeMarker t) := by
  apply IsMarker.mk
  · decide
  · intro c hc
    rw [List.eq_of_mem_replicate hc]
    decide

/-- No line of a text holds a marker that is longer than the text. -/
theorem not_holdsOnly_freeMarker {l t : Text} (h : l ∈ Text.lines t) :
    ¬Heredoc.HoldsOnly (freeMarker t) l := by
  intro hline
  have hmarker := hline.length_le
  have hle := Text.length_le_of_mem_lines h
  rw [freeMarker, List.length_replicate] at hmarker
  omega

/-- A heredoc for a text starts with an opener. -/
theorem opens_openerOf (t : Text) : Opens false (freeMarker t) (openerOf t) := by
  have hopens : Opens false (freeMarker t)
      ('<' :: '<' :: (hyphenIf false ++ (freeMarker t ++ ([] ++ ['\n'])))) :=
    .mk (isMarker_freeMarker t) (by simp) .lineFeed
  simpa [openerOf, hyphenIf] using hopens

/-- A heredoc for a text is next at the end of a line. -/
theorem isNext_heredocOf (u t : Text) :
    IsNext (heredocOf u) ((heredocOf u).text ++ '\n' :: t) := by
  have hopens := opens_openerOf u
  have hsplit : (heredocOf u).text ++ '\n' :: t =
      openerOf u ++ (u ++ '\n' :: (freeMarker u ++ '\n' :: t)) := by
    simp [heredocOf, text]
  have hlines : Text.lines ((openerOf u ++ (u ++ '\n' :: (freeMarker u ++ '\n' :: t))).drop
      (openerOf u).length) = Text.lines u ++ freeMarker u :: Text.lines t := by
    have hfeed := Heredoc.line_feed_not_mem_of_isMarker (isMarker_freeMarker u)
    rw [List.drop_left, Text.lines, Text.splitAt_append_append, Text.splitAt_append_cons hfeed]
    rfl
  -- The body is the lines of the text, none of which is as long as the marker.
  rw [hsplit, heredocOf, ← Heredoc.bodyOf_lines u]
  exact .heredoc (longest_opener (opener?_of_opens hopens _)) hopens hlines
    (fun k hk => not_holdsOnly_freeMarker hk) (Heredoc.holdsOnly_self _)

/-- A heredoc for a text denotes the text, if that does not end in line ends. -/
theorem symbol?_heredocOf {t : Text} (h : ∀ c, t.getLast? = some c → c ≠ '\r' ∧ c ≠ '\n') :
    (heredocOf t).symbol? = some (.heredoc t) := by
  have hvalue : Heredoc.value false (t ++ ['\n']) = t := by
    apply Text.trimEnd_append_of_all
    · simp
    · intro c hc
      simpa using h c hc
  rw [heredocOf, symbol?, hvalue]

end Lexeme

open Lexeme

/-! ## Lexemes one behind another -/

/-- Lexemes that are kept apart: each ends by itself, or a line feed follows it. -/
inductive Parted : List Lexeme → Prop
  | nil : Parted []
  | closed {l : Lexeme} {ls : List Lexeme} (hl : ∀ t, IsNext l (l.text ++ t))
      (hls : Parted ls) : Parted (l :: ls)
  | line {l : Lexeme} {ls : List Lexeme} (hl : ∀ t, IsNext l (l.text ++ '\n' :: t))
      (hls : Parted ls) : Parted (l :: .lineEnd ['\n'] :: ls)

/-- The text of lexemes that are kept apart is cut into them. -/
theorem Parted.cuts {ls : List Lexeme} (h : Parted ls) :
    Cuts (ls.flatMap Lexeme.text) ls [] := by
  induction h with
  | nil => exact .done []
  | closed hl _ ih =>
      rw [List.flatMap_cons]
      exact .next (hl _) ih
  | line hl _ ih =>
      rw [List.flatMap_cons, List.flatMap_cons]
      exact .next (hl _) (.next (isNext_lineFeed _) ih)

/-- The tokens of the text of lexemes that are kept apart are the ones of these lexemes. -/
theorem Parted.tokens_eq {ls : List Lexeme} (h : Parted ls) :
    tokens (ls.flatMap Lexeme.text) = .ok (tokensFrom 1 ls) := by
  rcases h.cuts.scan_eq (.inl rfl) with ⟨hlexemes, hrest⟩
  apply tokens_eq_ok_iff.mpr
  exact ⟨(Scan.remainder_eq_nil_iff _).mp hrest, by rw [hlexemes]⟩

end Ocl

end DeployGate
