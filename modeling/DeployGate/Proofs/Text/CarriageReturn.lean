import Mathlib
import DeployGate.Text.Basic

/-!
# Carriage returns in front of line feeds

The lines of a text may end in a carriage return and a line feed instead of a line feed alone.
Without its carriage returns such a text is the one that it was made of.

Main results:

- Definition `Text.withReturns`: a text with a carriage return in front of every line feed.
- Definition `Text.withoutReturns`: a text without its carriage returns.
- Theorem `Text.withoutReturns_withReturns`: what is put in is what is taken out.
- Theorem `Text.trimEnd_withReturns`: line ends at the end of a text are cut off in either form.
-/

namespace DeployGate

namespace Text

variable {t p q : Text} {c : Char}

/-! ## Putting in -/

/-- A text with a carriage return in front of every line feed. -/
def withReturns (t : Text) : Text :=
  t.flatMap fun c => if c = '\n' then ['\r', '\n'] else [c]

@[simp] theorem withReturns_nil : withReturns [] = [] := rfl

@[simp] theorem withReturns_append (s t : Text) :
    (s ++ t).withReturns = s.withReturns ++ t.withReturns :=
  List.flatMap_append

@[simp] theorem withReturns_lineFeed_cons (t : Text) :
    withReturns ('\n' :: t) = '\r' :: '\n' :: t.withReturns := rfl

/-- Other characters stay as they are. -/
theorem withReturns_cons_of_ne (hc : c ≠ '\n') (t : Text) :
    withReturns (c :: t) = c :: t.withReturns := by
  simp [withReturns, hc]

/-- A text without a line feed stays as it is. -/
theorem withReturns_of_not_mem (h : '\n' ∉ t) : t.withReturns = t := by
  induction t with
  | nil => rfl
  | cons c t ih =>
      rcases not_or.mp (mt List.mem_cons.mpr h) with ⟨hc, ht⟩
      rw [withReturns_cons_of_ne (Ne.symm hc), ih ht]

/-- No line feed is put in. -/
@[simp] theorem lineFeeds_withReturns (t : Text) : t.withReturns.lineFeeds = t.lineFeeds := by
  induction t with
  | nil => rfl
  | cons c t ih =>
      by_cases hc : c = '\n'
      · subst hc
        simpa [lineFeeds] using ih
      · rw [withReturns_cons_of_ne hc]
        simpa [lineFeeds, hc] using ih

/-- Behind a carriage return that was put in a line feed is next. -/
theorem eq_lineFeed_of_prefix_withReturns (hreturn : '\r' ∉ t)
    (h : p ++ '\r' :: c :: q <+: t.withReturns) : c = '\n' := by
  induction t generalizing p with
  | nil => simp at h
  | cons d t ih =>
      rcases not_or.mp (mt List.mem_cons.mpr hreturn) with ⟨hd, ht⟩
      by_cases hfeed : d = '\n'
      · subst hfeed
        rw [withReturns_lineFeed_cons] at h
        cases p with
        | nil =>
            have htail := (List.cons_prefix_cons.mp h).2
            exact (List.cons_prefix_cons.mp htail).1
        | cons e p =>
            have htail := (List.cons_prefix_cons.mp h).2
            cases p with
            | nil => exact absurd (List.cons_prefix_cons.mp htail).1 (by decide)
            | cons e p => exact ih ht (List.cons_prefix_cons.mp htail).2
      · rw [withReturns_cons_of_ne hfeed] at h
        cases p with
        | nil => exact absurd (List.cons_prefix_cons.mp h).1 hd
        | cons e p => exact ih ht (List.cons_prefix_cons.mp h).2

/-! ## Taking out -/

/-- A text without its carriage returns. -/
def withoutReturns (t : Text) : Text :=
  t.filter (· != '\r')

@[simp] theorem withoutReturns_append (s t : Text) :
    (s ++ t).withoutReturns = s.withoutReturns ++ t.withoutReturns :=
  List.filter_append ..

/-- A text without carriage returns stays as it is. -/
theorem withoutReturns_of_not_mem (h : '\r' ∉ t) : t.withoutReturns = t := by
  apply List.filter_eq_self.mpr
  intro c hc
  have hne : c ≠ '\r' := by
    rintro rfl
    contradiction
  simpa using hne

/-- What is put in is taken out. -/
theorem withoutReturns_withReturns (h : '\r' ∉ t) : t.withReturns.withoutReturns = t := by
  induction t with
  | nil => rfl
  | cons c t ih =>
      rcases not_or.mp (mt List.mem_cons.mpr h) with ⟨hc, ht⟩
      by_cases hfeed : c = '\n'
      · subst hfeed
        simpa [withoutReturns] using ih ht
      · rw [withReturns_cons_of_ne hfeed]
        simpa [withoutReturns, Ne.symm hc] using ih ht

/-- Texts without carriage returns that are the same with returns are the same. -/
theorem withReturns_inj (hp : '\r' ∉ p) (hq : '\r' ∉ q) (h : p.withReturns = q.withReturns) :
    p = q := by
  rw [← withoutReturns_withReturns hp, h, withoutReturns_withReturns hq]

/-- The start of a text with returns starts the text it was made of. -/
theorem withoutReturns_isPrefix (hreturn : '\r' ∉ t) (h : p <+: t.withReturns) :
    p.withoutReturns <+: t := by
  have hfilter := h.filter (· != '\r')
  rwa [← withoutReturns, ← withoutReturns, withoutReturns_withReturns hreturn] at hfilter

/-- Joined lines lose their carriage returns one by one. -/
theorem withoutReturns_unlines (ls : List Text) :
    (unlines ls).withoutReturns = unlines (ls.map withoutReturns) := by
  induction ls with
  | nil => rfl
  | cons l ls ih =>
      cases ls with
      | nil => rfl
      | cons k ls =>
          have hfeed : withoutReturns ['\n'] = ['\n'] := rfl
          simp only [unlines, List.map_cons, joinWith, withoutReturns_append, hfeed] at ih ⊢
          rw [ih]

/-- The lines of a text lose their carriage returns one by one. -/
theorem lines_withoutReturns (t : Text) :
    lines t.withoutReturns = (lines t).map withoutReturns := by
  have hfeed : ∀ l ∈ (lines t).map withoutReturns, '\n' ∉ l := by
    intro l hl
    rcases List.mem_map.mp hl with ⟨k, hk, rfl⟩
    intro hmem
    exact separator_not_mem_of_mem_splitAt hk (List.mem_of_mem_filter hmem)
  have hne : (lines t).map withoutReturns ≠ [] :=
    mt List.map_eq_nil_iff.mp (splitAt_ne_nil _ _)
  rw [← lines_unlines hne hfeed, ← withoutReturns_unlines, unlines_lines]

/-! ## The end of a text -/

/-- The last character of a text is cut off, or the text stays as it is. -/
theorem trimEnd_concat (r : Char → Bool) (t : Text) (c : Char) :
    trimEnd r (t ++ [c]) = if r c then trimEnd r t else t ++ [c] := by
  by_cases hc : r c = true <;> simp [trimEnd, hc]

/-- Line ends at the end of a text are cut off in either form. -/
theorem trimEnd_withReturns (t : Text) :
    trimEnd (fun c => c == '\r' || c == '\n') t.withReturns =
      (trimEnd (fun c => c == '\r' || c == '\n') t).withReturns := by
  induction t using List.reverseRecOn with
  | nil => rfl
  | append_singleton t c ih =>
      by_cases hfeed : c = '\n'
      · subst hfeed
        have hend : withReturns (t ++ ['\n']) = (withReturns t ++ ['\r']) ++ ['\n'] := by simp
        rw [hend, trimEnd_concat, trimEnd_concat, trimEnd_concat]
        simpa using ih
      · have hsame : withReturns [c] = [c] := withReturns_cons_of_ne hfeed []
        rw [withReturns_append, hsame, trimEnd_concat, trimEnd_concat]
        split
        · exact ih
        · rw [withReturns_append, hsame]

end Text

end DeployGate
