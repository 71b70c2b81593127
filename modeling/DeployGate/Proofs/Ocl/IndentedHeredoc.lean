import DeployGate.Proofs.Ocl.IndentedReturns

/-!
# Indented heredocs

An indented heredoc loses the margin of its lines.  That is the longest text of spaces and tabs
that all lines start with which have more than spaces and tabs on them.  Blanks in front of all
lines make the margin longer by as much, so the lines say the same at every depth, and the closing
line may be indented in any way.

Main results:

- Definition `Text.IsMargin`: the longest indentation of some lines, which is unique.
- Definition `Heredoc.Dedented`: what an indented heredoc of some lines says.
- Theorem `Heredoc.Dedented.indent`: at another depth it says the same.
- Theorem `tokens_indented`: the token of an indented heredoc, and the text at other depths.
-/

namespace DeployGate

namespace Text

variable {k l m n w : Text} {ls : List Text}

/-! ## Margins -/

/-- The longest text of spaces and tabs that every line starts with, lines of spaces and tabs
only apart. -/
structure IsMargin (ls : List Text) (m : Text) : Prop where
  blank : ∀ c ∈ m, isBlank c = true
  starts : ∀ l ∈ ls, allBlank l = false → m <+: l
  longest : ∀ n, (∀ c ∈ n, isBlank c = true) → (∀ l ∈ ls, allBlank l = false → n <+: l) →
    n.length ≤ m.length

/-- What the lines share is their margin, if not all of them are blank. -/
theorem isMargin_margin (hl : l ∈ ls) (hlblank : allBlank l = false) :
    IsMargin ls (margin ls) := by
  refine ⟨?_, ?_, ?_⟩
  · intro c hc
    exact Span.of_mem_takeWhile ((margin_isPrefix hl hlblank).subset hc)
  · intro k hk hkblank
    exact (margin_isPrefix hk hkblank).trans (indentation_isPrefix k)
  · intro n hn hstarts
    have hmem : l ∈ ls.filter fun k => !allBlank k := List.mem_filter.mpr ⟨hl, by simp [hlblank]⟩
    have hshared : n <+: margin ls := by
      rw [margin_eq_sharedIndentation]
      apply (isPrefix_sharedIndentation_iff (List.ne_nil_of_mem hmem)).mpr
      intro k hk
      rcases List.mem_filter.mp hk with ⟨hk, hkblank⟩
      exact Span.isPrefix_takeWhile_iff.mpr ⟨hstarts k hk (by simpa using hkblank), hn⟩
    exact hshared.length_le

/-- Of lines that have a margin some one is not blank. -/
theorem IsMargin.exists_not_blank (h : IsMargin ls m) : ∃ l ∈ ls, allBlank l = false := by
  by_contra hnone
  -- Without such a line nothing keeps the margin from being longer.
  have hblank : ∀ c ∈ m ++ [' '], isBlank c = true :=
    List.forall_mem_append.mpr ⟨h.blank, by simp [isBlank]⟩
  have hlonger := h.longest _ hblank fun l hl hlblank => absurd ⟨l, hl, hlblank⟩ hnone
  rw [List.length_append, List.length_singleton] at hlonger
  omega

/-- Lines have one margin only. -/
theorem IsMargin.unique (hm : IsMargin ls m) (hn : IsMargin ls n) : m = n := by
  rcases hm.exists_not_blank with ⟨l, hl, hlblank⟩
  have hle := hn.longest m hm.blank hm.starts
  have hge := hm.longest n hn.blank hn.starts
  have hstart : m <+: n :=
    List.prefix_of_prefix_length_le (hm.starts l hl hlblank) (hn.starts l hl hlblank) hle
  exact hstart.eq_of_length_le hge

/-! ## Lines at another depth -/

/-- Blanks in front of a line leave it as blank as it is. -/
theorem allBlank_append_of_blanks (hw : ∀ c ∈ w, isBlank c = true) (l : Text) :
    allBlank (w ++ l) = allBlank l := by
  have hall : allBlank w = true := List.all_eq_true.mpr hw
  rw [allBlank, List.all_append, ← allBlank, ← allBlank, hall, Bool.true_and]

/-- Blanks in front of all lines are in front of their margin. -/
theorem IsMargin.indent (h : IsMargin ls m) (hw : ∀ c ∈ w, isBlank c = true) :
    IsMargin (ls.map (w ++ ·)) (w ++ m) := by
  refine ⟨List.forall_mem_append.mpr ⟨hw, h.blank⟩, ?_, ?_⟩
  · intro k hk hkblank
    rcases List.mem_map.mp hk with ⟨l, hl, rfl⟩
    rw [allBlank_append_of_blanks hw] at hkblank
    exact (List.prefix_append_right_inj w).mpr (h.starts l hl hkblank)
  · intro n hn hstarts
    have hline : ∀ l ∈ ls, allBlank l = false → n <+: w ++ l := by
      intro l hl hlblank
      rw [← allBlank_append_of_blanks hw] at hlblank
      exact hstarts _ (List.mem_map_of_mem hl) hlblank
    rcases h.exists_not_blank with ⟨l, hl, hlblank⟩
    rcases List.prefix_or_prefix_of_prefix (hline l hl hlblank) (List.prefix_append w l) with
      hshort | ⟨p, rfl⟩
    · have hle := hshort.length_le
      rw [List.length_append]
      omega
    · -- What goes on behind the new blanks starts the lines as they were.
      have hle := h.longest p (fun c hc => hn c (List.mem_append_right _ hc))
        fun k hk hkblank => (List.prefix_append_right_inj w).mp (hline k hk hkblank)
      rw [List.length_append, List.length_append]
      omega

/-- A line without a margin: of a blank line nothing, and of another what is behind the margin. -/
inductive LosesMargin (m : Text) : Text → Text → Prop
  | blank {l : Text} (h : allBlank l = true) : LosesMargin m l []
  | other {k : Text} (h : allBlank (m ++ k) = false) : LosesMargin m (m ++ k) k

/-- A line loses the margin by dropping it. -/
theorem LosesMargin.eq_dropMargin (h : LosesMargin m l k) : dropMargin m l = k := by
  cases h with
  | blank h => rw [dropMargin, if_pos h]
  | other h => rw [dropMargin, if_neg (by simp [h]), List.drop_left]

/-- A line that is blank or starts with the margin loses it by dropping it. -/
theorem losesMargin_dropMargin (h : allBlank l = false → m <+: l) :
    LosesMargin m l (dropMargin m l) := by
  cases hl : allBlank l with
  | true =>
      rw [dropMargin, if_pos hl]
      exact .blank hl
  | false =>
      rcases h hl with ⟨k, rfl⟩
      rw [dropMargin, if_neg (by simp [hl]), List.drop_left]
      exact .other hl

/-- With blanks in front of the line and the margin, the same is left. -/
theorem LosesMargin.indent (h : LosesMargin m l k) (hw : ∀ c ∈ w, isBlank c = true) :
    LosesMargin (w ++ m) (w ++ l) k := by
  cases h with
  | blank h => exact .blank (by rwa [allBlank_append_of_blanks hw])
  | other h =>
      rw [← List.append_assoc]
      exact .other (by rwa [List.append_assoc, allBlank_append_of_blanks hw])

end Text

namespace Ocl

namespace Heredoc

variable {marker l v w : Text} {ls : List Text}

/-! ## What indented heredocs say -/

/-- What an indented heredoc of some lines says: nothing if all lines are blank, else its lines
without their margin, up to the carriage returns and line feeds at their end. -/
inductive Dedented (ls : List Text) : Text → Prop
  | blank (h : ∀ l ∈ ls, Text.allBlank l = true) : Dedented ls []
  | margin {m : Text} {ks : List Text} (hm : Text.IsMargin ls m)
      (hks : List.Forall₂ (Text.LosesMargin m) ls ks) :
      Dedented ls (Text.trimEnd (fun c => c == '\r' || c == '\n') (bodyOf ks))

/-- An indented heredoc of blank lines says nothing. -/
theorem value_of_allBlank (h : ∀ l ∈ ls, '\n' ∉ l) (hblank : ∀ l ∈ ls, Text.allBlank l = true) :
    value true (bodyOf ls) = [] := by
  have hends : ∀ c ∈ bodyOf (ls.map (Text.dropMargin (Text.margin ls))),
      (c == '\r' || c == '\n') = true := by
    intro c hc
    rcases List.mem_flatMap.mp hc with ⟨k, hk, hin⟩
    rcases List.mem_map.mp hk with ⟨l, hl, rfl⟩
    rw [Text.dropMargin, if_pos (hblank l hl), List.nil_append, List.mem_singleton] at hin
    rw [hin]
    rfl
  rw [value_indented h]
  exact Text.trimEnd_append_of_all (t := []) hends (by simp)

/-- What an indented heredoc says is what its lines say without their margin. -/
theorem dedented_value (h : ∀ l ∈ ls, '\n' ∉ l) : Dedented ls (value true (bodyOf ls)) := by
  by_cases hother : ∃ l ∈ ls, Text.allBlank l = false
  · rcases hother with ⟨l, hl, hlblank⟩
    have hm := Text.isMargin_margin hl hlblank
    rw [value_indented h]
    apply Dedented.margin hm
    rw [List.forall₂_map_right_iff, List.forall₂_same]
    exact fun k hk => Text.losesMargin_dropMargin (hm.starts k hk)
  · have hall : ∀ l ∈ ls, Text.allBlank l = true := by
      intro l hl
      by_contra hno
      exact hother ⟨l, hl, by simpa using hno⟩
    rw [value_of_allBlank h hall]
    exact .blank hall

/-- There is one thing only that lines say without their margin. -/
theorem Dedented.eq_value (hv : Dedented ls v) (h : ∀ l ∈ ls, '\n' ∉ l) :
    v = value true (bodyOf ls) := by
  cases hv with
  | blank hall => exact (value_of_allBlank h hall).symm
  | @margin m ks hm hks =>
      rcases hm.exists_not_blank with ⟨l, hl, hlblank⟩
      have hdropped : List.Forall₂ (fun l k => Text.dropMargin m l = k) ls ks :=
        hks.imp fun _ _ hk => hk.eq_dropMargin
      have hmap : ls.map (Text.dropMargin m) = ks := by
        rw [← List.forall₂_eq_eq_eq, List.forall₂_map_left_iff]
        exact hdropped
      rw [value_indented h, ← hm.unique (Text.isMargin_margin hl hlblank), hmap]
      rfl

/-- Lines say the same without their margin with blanks in front of all of them. -/
theorem Dedented.indent (hv : Dedented ls v) (hw : ∀ c ∈ w, Text.isBlank c = true) :
    Dedented (ls.map (w ++ ·)) v := by
  cases hv with
  | blank hall =>
      apply Dedented.blank
      intro k hk
      rcases List.mem_map.mp hk with ⟨l, hl, rfl⟩
      rw [Text.allBlank_append_of_blanks hw]
      exact hall l hl
  | margin hm hks =>
      apply Dedented.margin (hm.indent hw)
      rw [List.forall₂_map_left_iff]
      exact hks.imp fun _ _ hk => hk.indent hw

/-! ## Bodies at another depth -/

/-- A closing line stays one without a blank in front. -/
theorem HoldsOnly.of_cons {c : Char} (hm : Lexeme.IsMarker marker) (hc : Text.isBlank c = true)
    (h : HoldsOnly marker (c :: l)) : HoldsOnly marker l := by
  generalize hsplit : c :: l = t at h
  cases h with
  | @mk a b r ha hb hr =>
      cases a with
      | nil =>
          cases hm with
          | @mk d m hstart ht =>
              have hd : Text.isBlank d = true := (List.cons.inj hsplit).1 ▸ hc
              simp only [Text.isBlank, Bool.or_eq_true, beq_iff_eq] at hd
              rcases hd with rfl | rfl <;> exact absurd hstart (by decide)
      | cons d a =>
          rw [(List.cons.inj hsplit).2]
          exact .mk (fun e he => ha e (List.mem_cons_of_mem d he)) hb hr

/-- Blanks in front of a line do not make it a closing one. -/
theorem HoldsOnly.of_append (hm : Lexeme.IsMarker marker) (hw : ∀ c ∈ w, Text.isBlank c = true)
    (h : HoldsOnly marker (w ++ l)) : HoldsOnly marker l := by
  induction w with
  | nil => exact h
  | cons c w ih =>
      rcases List.forall_mem_cons.mp hw with ⟨hc, hw⟩
      exact ih hw (h.of_cons hm hc)

/-- Blanks in front of lines put no line feed into them. -/
theorem line_feed_not_mem_indent (h : ∀ l ∈ ls, '\n' ∉ l) (hw : ∀ c ∈ w, Text.isBlank c = true) :
    ∀ k ∈ ls.map (w ++ ·), '\n' ∉ k := by
  intro k hk
  rcases List.mem_map.mp hk with ⟨l, hl, rfl⟩
  simp [line_feed_not_mem_of_blanks hw, h l hl]

/-- At another depth a body has as many lines. -/
theorem lineFeeds_indent (h : ∀ l ∈ ls, '\n' ∉ l) (hw : ∀ c ∈ w, Text.isBlank c = true) :
    (bodyOf (ls.map (w ++ ·))).lineFeeds = (bodyOf ls).lineFeeds := by
  rw [lineFeeds_bodyOf (line_feed_not_mem_indent h hw), lineFeeds_bodyOf h, List.length_map]

/-- At another depth an indented heredoc says the same. -/
theorem value_indent (h : ∀ l ∈ ls, '\n' ∉ l) (hw : ∀ c ∈ w, Text.isBlank c = true) :
    value true (bodyOf (ls.map (w ++ ·))) = value true (bodyOf ls) :=
  (((dedented_value h).indent hw).eq_value (line_feed_not_mem_indent h hw)).symm

end Heredoc

/-! ## Tokens -/

open Lexeme
open Heredoc (HoldsOnly Dedented bodyOf)

variable {front behind : List Lexeme} {t marker opener body closer rest : Text} {i : Bool}

/-- A text that is cut in front of an opener is cut there whatever goes on behind the opener. -/
theorem Lexeme.Cuts.replace_opener (hopens : Opens i marker opener)
    (h : Cuts t front (opener ++ body)) (r : Text) :
    Cuts (front.flatMap Lexeme.text ++ (opener ++ r)) front (opener ++ r) := by
  cases hopens with
  | mk =>
      refine Cuts.replace (x := []) h ?_ ?_
      · intro _ l hl
        rcases front.eq_nil_or_concat' with rfl | ⟨front, k, rfl⟩
        · contradiction
        · rw [List.getLast?_concat] at hl
          rcases Option.some.inj hl with rfl
          exact h.of_concat.2.isOver_cons _
      · intro c hc
        rcases Option.some.inj hc with rfl
        decide

/-- Where a text is cut in front of a heredoc, the heredoc is a token on the line of the cut. -/
theorem tokens_heredoc (h : Cuts t front (opener ++ (body ++ (closer ++ rest))))
    (hnext : IsNext (.heredoc i opener marker body closer)
      (opener ++ (body ++ (closer ++ rest)))) :
    tokens t = (tokensAt
        ((tokensFrom 1 front).endLine + (opener.lineFeeds + body.lineFeeds : Nat)) rest).map
      (TokenList.prepend ((tokensFrom 1 front).tokens ++
        [⟨.heredoc (Heredoc.value i body), (tokensFrom 1 front).endLine⟩])) := by
  rw [tokens_eq_tokensAt, h.tokensAt_eq, tokensAt_heredoc hnext, map_prepend_prepend]

/-- An indented heredoc of a text says its lines without their margin, whatever is around it.
At another depth, and with any closing line, the text has the same tokens. -/
theorem tokens_indented
    (h : (Scan.of t).lexemes = front ++ .heredoc true opener marker body closer :: behind) :
    ∃ ls v rest, body = bodyOf ls ∧ (∀ l ∈ ls, '\n' ∉ l) ∧ Dedented ls v ∧
      t = front.flatMap Lexeme.text ++ (opener ++ (body ++ (closer ++ rest))) ∧
      tokens t = (tokensAt
          ((tokensFrom 1 front).endLine + (opener.lineFeeds + body.lineFeeds : Nat)) rest).map
        (TokenList.prepend ((tokensFrom 1 front).tokens ++
          [⟨.heredoc v, (tokensFrom 1 front).endLine⟩])) ∧
      ∀ w closer', (∀ c ∈ w, Text.isBlank c = true) → HoldsOnly marker closer' →
        tokens (front.flatMap Lexeme.text ++
          (opener ++ (bodyOf (ls.map (w ++ ·)) ++ (closer' ++ rest)))) = tokens t := by
  have hscan := cuts_scan t
  rw [h] at hscan
  rcases hscan.of_append with ⟨mid, hcuts, hbehind⟩
  cases hbehind with
  | @next _ rest _ _ hnext _ =>
      simp only [text, List.append_assoc] at hnext hcuts
      have ht := hcuts.append_eq
      rcases isNext_heredoc_iff.mp hnext with ⟨hopens, ⟨ls, rfl, hls⟩, hcloser, hend⟩
      have hfeed : ∀ l ∈ ls, '\n' ∉ l := fun l hl => (hls l hl).1
      refine ⟨ls, _, rest, rfl, hfeed, Heredoc.dedented_value hfeed, ht.symm,
        tokens_heredoc hcuts hnext, ?_⟩
      intro w closer' hw hcloser'
      have hlines : ∀ k ∈ ls.map (w ++ ·), '\n' ∉ k ∧ ¬HoldsOnly marker k := by
        intro k hk
        refine ⟨Heredoc.line_feed_not_mem_indent hfeed hw k hk, ?_⟩
        rcases List.mem_map.mp hk with ⟨l, hl, rfl⟩
        exact fun hline => (hls l hl).2 (hline.of_append hopens.isMarker hw)
      have hnext' : IsNext (.heredoc true opener marker (bodyOf (ls.map (w ++ ·))) closer')
          (opener ++ (bodyOf (ls.map (w ++ ·)) ++ (closer' ++ rest))) :=
        isNext_heredoc_iff.mpr ⟨hopens, ⟨_, rfl, hlines⟩, hcloser', hend⟩
      rw [tokens_heredoc (hcuts.replace_opener hopens _) hnext', tokens_heredoc hcuts hnext,
        Heredoc.value_indent hfeed hw, Heredoc.lineFeeds_indent hfeed hw]

/-- Lines with a tab and a space in front, and a blank one with less. -/
def tabbedLines : List Text :=
  [['\t', ' ', 'x'], [' '], ['\t', ' ', ' ', 'y']]

/-- An attribute with a heredoc of some lines, and an attribute behind it. -/
def heredocAttribute (ls : List Text) (closer : Text) : Text :=
  "a = ".toList ++ ("<<-E\n".toList ++ (bodyOf ls ++ (closer ++ "\nb = 1".toList)))

/-- With these lines the heredoc loses a tab and a space, and its tokens are the same at every
depth. -/
theorem tokens_indented_tabbed :
    tokens (heredocAttribute tabbedLines ['E']) =
      .ok ⟨[⟨.name ['a'], 1⟩, ⟨.mark .equals, 1⟩, ⟨.heredoc "x\n\n y".toList, 1⟩, ⟨.newline, 5⟩,
        ⟨.name ['b'], 6⟩, ⟨.mark .equals, 6⟩, ⟨.number ['1'], 6⟩], 6⟩ ∧
    ∀ w closer, (∀ c ∈ w, Text.isBlank c = true) → HoldsOnly ['E'] closer →
      tokens (heredocAttribute (tabbedLines.map (w ++ ·)) closer) =
        tokens (heredocAttribute tabbedLines ['E']) := by
  have hscan : (Scan.of (heredocAttribute tabbedLines ['E'])).lexemes =
      [.name ['a'], .space [' '], .mark .equals, .space [' ']] ++
        .heredoc true "<<-E\n".toList ['E'] (bodyOf tabbedLines) ['E'] ::
        [.lineEnd ['\n'], .name ['b'], .space [' '], .mark .equals, .space [' '],
          .number ['1']] := by cbv
  have hlines : Text.lines (bodyOf tabbedLines) = tabbedLines ++ [[]] := by cbv
  rcases tokens_indented hscan with ⟨ls, v, rest, hbody, hfeed, -, ht, -, hdeep⟩
  rw [hbody, Heredoc.lines_bodyOf hfeed] at hlines
  have hls : ls = tabbedLines := List.append_cancel_right hlines
  subst hls
  have hrest : "\nb = 1".toList = rest := by
    simpa [heredocAttribute, text, Mark.char] using ht
  subst hrest
  exact ⟨by cbv, hdeep⟩

end Ocl

end DeployGate
