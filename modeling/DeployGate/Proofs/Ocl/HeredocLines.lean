import DeployGate.Proofs.Ocl.LexemeReading

/-!
# The lines of a heredoc

The search for the end of a heredoc goes from character to character.  What it finds is
the first line that holds the marker alone.

Main results:

- Theorem `Heredoc.closer?_append` and `Heredoc.closer?_eq_none`: a line is a closing one
  exactly if it holds the marker alone.
- Theorem `Heredoc.find?_eq_some_iff`: a heredoc ends with the first such line, and its
  body is made of the lines in front.
- Theorem `Heredoc.find?_eq_none_iff`: a heredoc has no end exactly if there is no such
  line.
-/

namespace DeployGate

namespace Ocl

namespace Heredoc

/-! ## Lines that close a heredoc -/

/-- A line holds a marker alone, blanks around it and a carriage return at its end
apart. -/
inductive HoldsOnly (marker : Text) : Text → Prop
  | mk {a b r : Text} (ha : ∀ c ∈ a, Text.isBlank c = true)
      (hb : ∀ c ∈ b, Text.isBlank c = true) (hr : r = [] ∨ r = ['\r']) :
      HoldsOnly marker (a ++ (marker ++ (b ++ r)))

/-- A line is over where this text goes on. -/
def AtLineEnd (t : Text) : Prop :=
  t = [] ∨ ∃ u, t = '\n' :: u

variable {marker : Text}

/-- Where a line is over, no other character than a line feed is next. -/
theorem AtLineEnd.head?_eq {t : Text} (h : AtLineEnd t) (c : Char) (hc : t.head? = some c) :
    c = '\n' := by
  rcases h with rfl | ⟨u, rfl⟩
  · simp at hc
  · exact (Option.some.inj hc).symm

/-- No marker holds a line feed. -/
theorem line_feed_not_mem_of_isMarker (hm : Lexeme.IsMarker marker) : '\n' ∉ marker := by
  intro h
  exact absurd (hm.all_isMarkerChar _ h) (by decide)

/-- No blanks hold a line feed. -/
theorem line_feed_not_mem_of_blanks {b : Text} (hb : ∀ c ∈ b, Text.isBlank c = true) :
    '\n' ∉ b := by
  intro h
  exact absurd (hb _ h) (by decide)

/-- A line that holds a marker alone holds no line feed. -/
theorem HoldsOnly.line_feed_not_mem {l : Text} (hl : HoldsOnly marker l)
    (hm : Lexeme.IsMarker marker) : '\n' ∉ l := by
  cases hl with
  | mk ha hb hr =>
      have hmarker := line_feed_not_mem_of_isMarker hm
      have hbefore := line_feed_not_mem_of_blanks ha
      have hbehind := line_feed_not_mem_of_blanks hb
      rcases hr with rfl | rfl <;> simp [hmarker, hbefore, hbehind]

/-- Blanks and a carriage return are read where the line is over behind them. -/
theorem trailer?_append {b r rest : Text} (hb : ∀ c ∈ b, Text.isBlank c = true)
    (hr : r = [] ∨ r = ['\r']) (hrest : AtLineEnd rest) :
    trailer? (b ++ (r ++ rest)) = some (b ++ r) := by
  have hspan : (b ++ (r ++ rest)).takeWhile Text.isBlank = b := by
    apply Span.takeWhile_append_of_boundary hb
    intro c hc
    rcases hr with rfl | rfl
    · have hfeed : c = '\n' := hrest.head?_eq c hc
      subst hfeed
      decide
    · have hreturn : '\r' = c := Option.some.inj hc
      subst hreturn
      decide
  simp only [trailer?, hspan, List.drop_left]
  rcases hr with rfl | rfl <;> rcases hrest with rfl | ⟨u, rfl⟩ <;> simp

/-- What is read behind a marker is blanks and a carriage return, and the line is over
behind them. -/
theorem exists_of_trailer? {t u : Text} (h : trailer? t = some u) :
    ∃ b r rest, u = b ++ r ∧ (∀ c ∈ b, Text.isBlank c = true) ∧ (r = [] ∨ r = ['\r']) ∧
      t = u ++ rest ∧ AtLineEnd rest := by
  have hblanks : ∀ c ∈ t.takeWhile Text.isBlank, Text.isBlank c = true :=
    fun _ hc => Span.of_mem_takeWhile hc
  have ht : t = t.takeWhile Text.isBlank ++ t.drop (t.takeWhile Text.isBlank).length := by
    rw [Span.drop_length_takeWhile, List.takeWhile_append_dropWhile]
  simp only [trailer?] at h
  split at h
  · next hend =>
    have hsame := Option.some.inj h
    subst hsame
    rw [hend] at ht
    exact ⟨_, [], [], by simp, hblanks, Or.inl rfl, ht, Or.inl rfl⟩
  · next v hend =>
    have hsame := Option.some.inj h
    subst hsame
    rw [hend] at ht
    exact ⟨_, [], '\n' :: v, by simp, hblanks, Or.inl rfl, ht, Or.inr ⟨v, rfl⟩⟩
  · next hend =>
    have hsame := Option.some.inj h
    subst hsame
    rw [hend] at ht
    refine ⟨_, ['\r'], [], rfl, hblanks, Or.inr rfl, ?_, Or.inl rfl⟩
    rw [List.append_nil]
    exact ht
  · next v hend =>
    have hsame := Option.some.inj h
    subst hsame
    rw [hend] at ht
    refine ⟨_, ['\r'], '\n' :: v, rfl, hblanks, Or.inr rfl, ?_, Or.inr ⟨v, rfl⟩⟩
    rw [List.append_assoc, List.singleton_append]
    exact ht
  · simp at h

/-- A marker with what may follow it is read where it lies. -/
theorem markerLine?_append (marker : Text) {b r rest : Text} (hb : ∀ c ∈ b, Text.isBlank c = true)
    (hr : r = [] ∨ r = ['\r']) (hrest : AtLineEnd rest) :
    markerLine? marker (marker ++ (b ++ (r ++ rest))) = some (marker ++ (b ++ r)) := by
  have hafter := Text.after?_eq_some_iff.mpr
    (rfl : marker ++ (b ++ (r ++ rest)) = marker ++ (b ++ (r ++ rest)))
  rw [markerLine?, hafter, Option.bind_some, trailer?_append hb hr hrest, Option.map_some]

/-- A marker with what may follow it is a line that holds the marker alone. -/
theorem holdsOnly_of_markerLine? {t u : Text} (h : markerLine? marker t = some u) :
    HoldsOnly marker u ∧ ∃ rest, t = u ++ rest ∧ AtLineEnd rest := by
  rcases Option.map_eq_some_iff.mp h with ⟨v, hv, rfl⟩
  rcases Option.bind_eq_some_iff.mp hv with ⟨w, hw, hv⟩
  rcases exists_of_trailer? hv with ⟨b, r, rest, rfl, hb, hr, rfl, hrest⟩
  have hafter := Text.after?_eq_some_iff.mp hw
  subst hafter
  exact ⟨.mk (a := []) (by simp) hb hr, rest, by simp, hrest⟩

/-- A line that holds the marker alone is read as a closing line. -/
theorem closer?_append {l rest : Text} (hm : Lexeme.IsMarker marker)
    (hl : HoldsOnly marker l) (hrest : AtLineEnd rest) :
    closer? marker (l ++ rest) = some l := by
  cases hl with
  | @mk a b r ha hb hr =>
      induction a with
      | nil =>
          have hline := markerLine?_append marker hb hr hrest
          cases hm with
          | @mk c m hc ht =>
              have hblank : Text.isBlank c = false := by
                have hspace : c ≠ ' ' := Lexeme.ne_of_eq_true hc (by decide)
                have htab : c ≠ '\t' := Lexeme.ne_of_eq_true hc (by decide)
                simp [Text.isBlank, hspace, htab]
              simpa [closer?, hblank] using hline
      | cons c a ih =>
          have hblank := ha c (List.mem_cons_self ..)
          have hrec := ih fun d hd => ha d (List.mem_cons_of_mem _ hd)
          rw [List.cons_append, List.cons_append, closer?, if_pos hblank, hrec]
          rfl

/-- A closing line holds the marker alone, and the line is over behind it. -/
theorem holdsOnly_of_closer? {t u : Text} (h : closer? marker t = some u) :
    HoldsOnly marker u ∧ ∃ rest, t = u ++ rest ∧ AtLineEnd rest := by
  induction t generalizing u with
  | nil => exact holdsOnly_of_markerLine? h
  | cons c t ih =>
      simp only [closer?] at h
      split at h
      · next hblank =>
        rcases Option.or_eq_some_iff.mp h with h | ⟨-, h⟩
        · rcases Option.map_eq_some_iff.mp h with ⟨v, hv, rfl⟩
          rcases ih hv with ⟨hline, rest, rfl, hrest⟩
          refine ⟨?_, rest, rfl, hrest⟩
          cases hline with
          | @mk a b r ha hb hr =>
              refine .mk (a := c :: a) ?_ hb hr
              intro d hd
              rcases List.mem_cons.mp hd with rfl | hd
              · exact hblank
              · exact ha d hd
        · exact holdsOnly_of_markerLine? h
      · exact holdsOnly_of_markerLine? h

/-- Two lines that start a text and are over behind are the same. -/
theorem eq_of_append_eq {k l r s : Text} (hk : '\n' ∉ k) (hl : '\n' ∉ l) (hr : AtLineEnd r)
    (hs : AtLineEnd s) (h : k ++ r = l ++ s) : k = l := by
  have hfirst : ∀ {u v : Text}, '\n' ∉ u → AtLineEnd v →
      (u ++ v).takeWhile (· != '\n') = u := by
    intro u v hu hv
    apply Span.takeWhile_append_of_boundary (Span.bne_of_not_mem hu)
    intro c hc
    simpa using hv.head?_eq c hc
  rw [← hfirst hk hr, h, hfirst hl hs]

/-- A line that does not hold the marker alone is no closing line. -/
theorem closer?_eq_none {l rest : Text} (hm : Lexeme.IsMarker marker) (hfeed : '\n' ∉ l)
    (hl : ¬HoldsOnly marker l) (hrest : AtLineEnd rest) :
    closer? marker (l ++ rest) = none := by
  cases hc : closer? marker (l ++ rest) with
  | none => rfl
  | some u =>
      rcases holdsOnly_of_closer? hc with ⟨hu, r, hr, hend⟩
      have hline : l = u := eq_of_append_eq hfeed (hu.line_feed_not_mem hm) hrest hend hr
      subst hline
      contradiction

/-! ## The search for the closing line -/

/-- Where no closing line starts, the search goes on as from inside a line. -/
theorem search_true_of_closer? {t : Text} (h : closer? marker t = none) :
    search marker true t = search marker false t := by
  cases t with
  | nil => simp [search, h]
  | cons c t => simp [search, h]

/-- From inside a line the search passes the rest of the line. -/
theorem search_false_append {l : Text} (hl : '\n' ∉ l) (t : Text) :
    search marker false (l ++ '\n' :: t) =
      (find? marker t).map fun p => { p with body := l ++ '\n' :: p.body } := by
  induction l with
  | nil => simp [search, find?]
  | cons c l ih =>
      rcases not_or.mp (mt List.mem_cons.mpr hl) with ⟨hc, hl⟩
      have hfeed : (c == '\n') = false := by simpa using Ne.symm hc
      rw [List.cons_append, search]
      simp [hfeed, ih hl, Function.comp_def]

/-- From inside the last line the search finds nothing. -/
theorem search_false_eq_none {l : Text} (hl : '\n' ∉ l) : search marker false l = none := by
  induction l with
  | nil => simp [search]
  | cons c l ih =>
      rcases not_or.mp (mt List.mem_cons.mpr hl) with ⟨hc, hl⟩
      have hfeed : (c == '\n') = false := by simpa using Ne.symm hc
      simp [search, hfeed, ih hl]

/-- A closing line at the start of a text is found at once. -/
theorem find?_of_holdsOnly {l rest : Text} (hm : Lexeme.IsMarker marker)
    (hl : HoldsOnly marker l) (hrest : AtLineEnd rest) :
    find? marker (l ++ rest) = some ⟨[], l⟩ := by
  unfold find? search
  simp [closer?_append hm hl hrest]

/-- A line that closes nothing belongs to the body. -/
theorem find?_append {l : Text} (hm : Lexeme.IsMarker marker) (hfeed : '\n' ∉ l)
    (hl : ¬HoldsOnly marker l) (t : Text) :
    find? marker (l ++ '\n' :: t) =
      (find? marker t).map fun p => { p with body := l ++ '\n' :: p.body } := by
  have hrest : AtLineEnd ('\n' :: t) := .inr ⟨t, rfl⟩
  have hnone := closer?_eq_none hm hfeed hl hrest
  rw [find?, search_true_of_closer? hnone, search_false_append hfeed]

/-- A last line that closes nothing ends the search. -/
theorem find?_eq_none {l : Text} (hm : Lexeme.IsMarker marker) (hfeed : '\n' ∉ l)
    (hl : ¬HoldsOnly marker l) : find? marker l = none := by
  have hrest : AtLineEnd [] := .inl rfl
  have hnone := closer?_eq_none hm hfeed hl hrest
  rw [List.append_nil] at hnone
  rw [find?, search_true_of_closer? hnone, search_false_eq_none hfeed]

/-- The body of a heredoc: lines with their line feeds. -/
def bodyOf (ls : List Text) : Text :=
  ls.flatMap (· ++ ['\n'])

/-- Lines in front of others are joined by a line feed. -/
theorem unlines_cons_cons (k l : Text) (ls : List Text) :
    Text.unlines (k :: l :: ls) = k ++ '\n' :: Text.unlines (l :: ls) := by
  simp [Text.unlines, Text.joinWith]

/-- One line alone is its text. -/
theorem unlines_singleton (l : Text) : Text.unlines [l] = l := by
  simp [Text.unlines, Text.joinWith]

/-- A heredoc ends with the first line that holds its marker alone. -/
theorem find?_unlines (hm : Lexeme.IsMarker marker) {before later : List Text} {l : Text}
    (hfeed : ∀ k ∈ before ++ l :: later, '\n' ∉ k)
    (hbefore : ∀ k ∈ before, ¬HoldsOnly marker k) (hl : HoldsOnly marker l) :
    find? marker (Text.unlines (before ++ l :: later)) = some ⟨bodyOf before, l⟩ := by
  induction before with
  | nil =>
      cases later with
      | nil =>
          have hrest : AtLineEnd [] := Or.inl rfl
          have hfind := find?_of_holdsOnly hm hl hrest
          rw [List.append_nil] at hfind
          rw [List.nil_append, unlines_singleton, hfind]
          rfl
      | cons k later =>
          have hrest : AtLineEnd ('\n' :: Text.unlines (k :: later)) := Or.inr ⟨_, rfl⟩
          rw [List.nil_append, unlines_cons_cons, find?_of_holdsOnly hm hl hrest]
          rfl
  | cons k before ih =>
      have hkfeed := hfeed k (List.mem_cons_self ..)
      have hk := hbefore k (List.mem_cons_self ..)
      have hrec := ih (fun d hd => hfeed d (List.mem_cons_of_mem _ hd))
        (fun d hd => hbefore d (List.mem_cons_of_mem _ hd))
      have hsplit : Text.unlines (k :: before ++ l :: later) =
          k ++ '\n' :: Text.unlines (before ++ l :: later) := by
        cases before <;> exact unlines_cons_cons ..
      rw [hsplit, find?_append hm hkfeed hk, hrec]
      simp [bodyOf]

/-- A heredoc without a line that holds its marker alone has no end. -/
theorem find?_unlines_eq_none (hm : Lexeme.IsMarker marker) {ls : List Text} (hne : ls ≠ [])
    (hfeed : ∀ k ∈ ls, '\n' ∉ k) (hls : ∀ k ∈ ls, ¬HoldsOnly marker k) :
    find? marker (Text.unlines ls) = none := by
  induction ls with
  | nil => contradiction
  | cons k ls ih =>
      have hk := hls k (List.mem_cons_self ..)
      have hkfeed := hfeed k (List.mem_cons_self ..)
      cases ls with
      | nil =>
          rw [unlines_singleton]
          exact find?_eq_none hm hkfeed hk
      | cons l ls =>
          have hrec := ih (by simp) (fun d hd => hfeed d (List.mem_cons_of_mem _ hd))
            (fun d hd => hls d (List.mem_cons_of_mem _ hd))
          rw [unlines_cons_cons, find?_append hm hkfeed hk, hrec]
          rfl

/-- Some line is the first that holds the marker alone, or none does. -/
theorem exists_first_or_none (marker : Text) (ls : List Text) :
    (∃ before l later, ls = before ++ l :: later ∧ (∀ k ∈ before, ¬HoldsOnly marker k) ∧
      HoldsOnly marker l) ∨ ∀ k ∈ ls, ¬HoldsOnly marker k := by
  induction ls with
  | nil =>
      right
      simp
  | cons k ls ih =>
      by_cases hk : HoldsOnly marker k
      · left
        exact ⟨[], k, ls, rfl, by simp, hk⟩
      · rcases ih with ⟨before, l, later, rfl, hbefore, hl⟩ | hnone
        · left
          exact ⟨k :: before, l, later, rfl, by simpa [hk] using hbefore, hl⟩
        · right
          simpa [hk] using hnone

/-- No line of a text holds a line feed. -/
theorem line_feed_not_mem_of_mem_lines {t : Text} : ∀ l ∈ Text.lines t, '\n' ∉ l :=
  fun _ hl => Text.separator_not_mem_of_mem_splitAt hl

/-- A text has a first line that holds the marker alone, where the heredoc ends, or the
heredoc has no end. -/
theorem find?_cases (hm : Lexeme.IsMarker marker) (t : Text) :
    (∃ before l later, Text.lines t = before ++ l :: later ∧
      (∀ k ∈ before, ¬HoldsOnly marker k) ∧ HoldsOnly marker l ∧
      find? marker t = some ⟨bodyOf before, l⟩) ∨
    ((∀ k ∈ Text.lines t, ¬HoldsOnly marker k) ∧ find? marker t = none) := by
  have hfeed := line_feed_not_mem_of_mem_lines (t := t)
  rcases exists_first_or_none marker (Text.lines t) with
    ⟨before, l, later, hls, hbefore, hl⟩ | hnone
  · rw [hls] at hfeed
    left
    refine ⟨before, l, later, hls, hbefore, hl, ?_⟩
    rw [← Text.unlines_lines t, hls]
    exact find?_unlines hm hfeed hbefore hl
  · right
    refine ⟨hnone, ?_⟩
    rw [← Text.unlines_lines t]
    exact find?_unlines_eq_none hm (Text.splitAt_ne_nil _ _) hfeed hnone

/-- A heredoc ends with the first line that holds its marker alone, and the lines in
front are its body. -/
theorem find?_eq_some_iff (hm : Lexeme.IsMarker marker) {t : Text} {p : Parts} :
    find? marker t = some p ↔ ∃ before later, Text.lines t = before ++ p.closer :: later ∧
      (∀ k ∈ before, ¬HoldsOnly marker k) ∧ HoldsOnly marker p.closer ∧
      p.body = bodyOf before := by
  constructor
  · intro h
    rcases find?_cases hm t with ⟨before, l, later, hls, hbefore, hl, hfind⟩ | ⟨-, hfind⟩
    · rw [hfind] at h
      have hsame := Option.some.inj h
      subst hsame
      exact ⟨before, later, hls, hbefore, hl, rfl⟩
    · rw [hfind] at h
      contradiction
  · intro h
    rcases h with ⟨before, later, hls, hbefore, hl, hbody⟩
    have hfeed := line_feed_not_mem_of_mem_lines (t := t)
    rw [hls] at hfeed
    rw [← Text.unlines_lines t, hls, find?_unlines hm hfeed hbefore hl, ← hbody]

/-- A heredoc has no end exactly if no line holds its marker alone. -/
theorem find?_eq_none_iff (hm : Lexeme.IsMarker marker) {t : Text} :
    find? marker t = none ↔ ∀ k ∈ Text.lines t, ¬HoldsOnly marker k := by
  rcases find?_cases hm t with ⟨before, l, later, hls, -, hl, hfind⟩ | ⟨hnone, hfind⟩
  · have hmem : l ∈ Text.lines t := by simp [hls]
    simpa [hfind] using ⟨l, hmem, hl⟩
  · simpa [hfind] using hnone

end Heredoc

end Ocl

end DeployGate
