import DeployGate.Ocl.Token
import DeployGate.Proofs.Ocl.HeredocLines

/-!
# The search for a closing line

A heredoc that starts at an offset of a text ends with the first line from there on that holds
its marker alone.  The search goes from character to character; this module says in offsets what
it finds.  An offset in the middle of a line is no start of a line, so the rest of that line
closes nothing.

Main results:

- Definitions `Heredoc.StartsLine`, `Heredoc.lineAt` and `Heredoc.ClosesAt`: where lines start,
  what they hold, and which of them close a heredoc.
- Theorem `Heredoc.search_cases`: the search finds the least offset at which a line closes.
- Theorem `Heredoc.bodyFrom_first_closing_line`: the body and the end of a heredoc from any
  offset of a text.
-/

namespace DeployGate

namespace Ocl

namespace Heredoc

/-! ## Lines and offsets -/

/-- A line starts at the start of a text and behind each of its line feeds. -/
def StartsLine (t : Text) (k : Nat) : Prop :=
  k = 0 ∨ ∃ j, k = j + 1 ∧ t[j]? = some '\n'

/-- What a text holds from an offset up to the next line feed, or up to its end. -/
def lineAt (t : Text) (k : Nat) : Text :=
  (t.drop k).takeWhile (· != '\n')

/-- A line that holds the marker alone starts at an offset. -/
def ClosesAt (marker t : Text) (k : Nat) : Prop :=
  StartsLine t k ∧ HoldsOnly marker (lineAt t k)

/-- A closing line starts at an offset, and none between a given offset and this one. -/
structure FirstClosing (marker t : Text) (start k : Nat) : Prop where
  start_le : start ≤ k
  closes : ClosesAt marker t k
  least : ∀ j, start ≤ j → ClosesAt marker t j → k ≤ j

variable {marker t : Text} {start k : Nat} {atStart : Bool}

/-- Lines start inside a text or at its end. -/
theorem StartsLine.le_length (h : StartsLine t k) : k ≤ t.length := by
  rcases h with rfl | ⟨j, rfl, hfeed⟩
  · exact Nat.zero_le _
  · rcases List.getElem?_eq_some_iff.mp hfeed with ⟨hlt, -⟩
    exact hlt

/-- A text goes on with a line, which is over behind it. -/
theorem exists_drop_eq_lineAt (t : Text) (k : Nat) :
    ∃ rest, t.drop k = lineAt t k ++ rest ∧ AtLineEnd rest := by
  refine ⟨(t.drop k).dropWhile (· != '\n'), (List.takeWhile_append_dropWhile).symm, ?_⟩
  have hnot := List.head?_dropWhile_not (· != '\n') (t.drop k)
  cases hrest : (t.drop k).dropWhile (· != '\n') with
  | nil =>
      left
      rfl
  | cons c rest =>
      rw [hrest] at hnot
      have hfeed : (c != '\n') = false := hnot
      have hc : c = '\n' := by simpa using hfeed
      subst hc
      right
      exact ⟨rest, rfl⟩

/-- A line ends at the end of the text or at a line feed. -/
theorem lineAt_end (h : k ≤ t.length) :
    k + (lineAt t k).length = t.length ∨ t[k + (lineAt t k).length]? = some '\n' := by
  rcases exists_drop_eq_lineAt t k with ⟨rest, hrest, rfl | ⟨u, rfl⟩⟩
  · left
    have hlength := congrArg List.length hrest
    simp only [List.length_drop, List.append_nil] at hlength
    omega
  · right
    rw [← List.getElem?_drop, hrest, List.getElem?_append_right (Nat.le_refl _)]
    simp

/-- At most one offset is the first at which a closing line starts. -/
theorem FirstClosing.unique {j : Nat} (hj : FirstClosing marker t start j)
    (hk : FirstClosing marker t start k) : j = k :=
  Nat.le_antisymm (hj.least k hk.start_le hk.closes) (hk.least j hj.start_le hj.closes)

/-! ## The search in the rest of a text -/

/-- A line starts in the rest of a text: behind a line feed, or at once if the rest starts a
line. -/
def StartsIn (atStart : Bool) (t : Text) (k : Nat) : Prop :=
  (k = 0 ∧ atStart = true) ∨ ∃ j, k = j + 1 ∧ t[j]? = some '\n'

/-- A closing line starts at an offset of the rest of a text. -/
def ClosesIn (marker : Text) (atStart : Bool) (t : Text) (k : Nat) : Prop :=
  StartsIn atStart t k ∧ HoldsOnly marker (lineAt t k)

/-- Behind the first character, lines start where they start in the text behind it. -/
theorem startsIn_cons_succ {c : Char} :
    StartsIn atStart (c :: t) (k + 1) ↔ StartsIn (c == '\n') t k := by
  cases k with
  | zero => simp [StartsIn]
  | succ k => simp [StartsIn]

/-- Behind the first character, lines close what they close in the text behind it. -/
theorem closesIn_cons_succ {c : Char} :
    ClosesIn marker atStart (c :: t) (k + 1) ↔ ClosesIn marker (c == '\n') t k := by
  rw [ClosesIn, ClosesIn, startsIn_cons_succ]
  rfl

/-- In an empty text a line starts only at once. -/
theorem startsIn_nil : StartsIn atStart [] k ↔ k = 0 ∧ atStart = true := by
  simp [StartsIn]

/-- Where a line starts, a closing line is read exactly if the line holds the marker alone. -/
theorem closer?_cases (hm : Lexeme.IsMarker marker) (t : Text) :
    (HoldsOnly marker (lineAt t 0) ∧ closer? marker t = some (lineAt t 0)) ∨
      (¬HoldsOnly marker (lineAt t 0) ∧ closer? marker t = none) := by
  rcases exists_drop_eq_lineAt t 0 with ⟨rest, hrest, hend⟩
  rw [List.drop_zero] at hrest
  have hfeed : '\n' ∉ lineAt t 0 := by
    intro hmem
    simpa using Span.of_mem_takeWhile hmem
  by_cases hline : HoldsOnly marker (lineAt t 0)
  · left
    have hclose := closer?_append hm hline hend
    rw [← hrest] at hclose
    exact ⟨hline, hclose⟩
  · right
    have hnone := closer?_eq_none hm hfeed hline hend
    rw [← hrest] at hnone
    exact ⟨hline, hnone⟩

/-- A line that closes at once ends the search. -/
theorem search_of_closesIn (hm : Lexeme.IsMarker marker) (h : ClosesIn marker atStart t 0) :
    search marker atStart t = some ⟨[], lineAt t 0⟩ := by
  rcases h with ⟨⟨-, rfl⟩ | ⟨j, hj, -⟩, hline⟩
  · rcases closer?_cases hm t with ⟨-, hclose⟩ | ⟨hnone, -⟩
    · unfold search
      simp [hclose]
    · contradiction
  · contradiction

/-- Where no line closes at once, no closing line is read. -/
theorem closer?_of_not_closesIn (hm : Lexeme.IsMarker marker)
    (h : ¬ClosesIn marker atStart t 0) :
    (if atStart then closer? marker t else none) = none := by
  cases atStart with
  | false => rfl
  | true =>
      rcases closer?_cases hm t with ⟨hline, -⟩ | ⟨-, hclose⟩
      · exact absurd ⟨.inl ⟨rfl, rfl⟩, hline⟩ h
      · exact hclose

/-- The search in the rest of a text finds the least offset at which a line closes, or there is
no such offset. -/
theorem search_cases (hm : Lexeme.IsMarker marker) (atStart : Bool) (t : Text) :
    (∃ k, ClosesIn marker atStart t k ∧ (∀ j, ClosesIn marker atStart t j → k ≤ j) ∧
      search marker atStart t = some ⟨t.take k, lineAt t k⟩) ∨
    ((∀ k, ¬ClosesIn marker atStart t k) ∧ search marker atStart t = none) := by
  induction t generalizing atStart with
  | nil =>
      by_cases hfirst : ClosesIn marker atStart [] 0
      · left
        exact ⟨0, hfirst, fun j _ => Nat.zero_le j, search_of_closesIn hm hfirst⟩
      · right
        constructor
        · intro k hk
          rcases startsIn_nil.mp hk.1 with ⟨rfl, -⟩
          contradiction
        · rw [search, closer?_of_not_closesIn hm hfirst]
  | cons c t ih =>
      by_cases hfirst : ClosesIn marker atStart (c :: t) 0
      · left
        exact ⟨0, hfirst, fun j _ => Nat.zero_le j, search_of_closesIn hm hfirst⟩
      · -- Nothing closes here, so the offsets behind the first character decide.
        have hsearch : search marker atStart (c :: t) =
            (search marker (c == '\n') t).map fun p => { p with body := c :: p.body } := by
          rw [search, closer?_of_not_closesIn hm hfirst]
        rcases ih (c == '\n') with ⟨k, hcloses, hleast, hfound⟩ | ⟨hnone, hfound⟩
        · left
          refine ⟨k + 1, closesIn_cons_succ.mpr hcloses, ?_, ?_⟩
          · intro j hj
            cases j with
            | zero => contradiction
            | succ j => exact Nat.succ_le_succ (hleast j (closesIn_cons_succ.mp hj))
          · rw [hsearch, hfound]
            rfl
        · right
          constructor
          · intro k hk
            cases k with
            | zero => contradiction
            | succ k => exact hnone k (closesIn_cons_succ.mp hk)
          · rw [hsearch, hfound]
            rfl

/-! ## The search from an offset -/

/-- Whether a line starts at an offset is what the search asks of the text in front of it. -/
theorem startsLine_iff (h : start ≤ t.length) :
    StartsLine t start ↔
      ((t.take start).isEmpty || (t.take start).getLast? == some '\n') = true := by
  cases start with
  | zero => simp [StartsLine]
  | succ j =>
      have hlast : (t.take (j + 1)).getLast? = t[j]? := by
        rw [List.getLast?_eq_getElem?, List.length_take, Nat.min_eq_left h, Nat.add_sub_cancel,
          List.getElem?_take_of_lt (Nat.lt_succ_self j)]
      have hne : t ≠ [] := List.ne_nil_of_length_pos (by omega)
      rw [hlast]
      simp [StartsLine, hne]

/-- A closing line starts at an offset of the rest of a text exactly if it does so in the
text. -/
theorem closesIn_drop_iff (h : start ≤ t.length) :
    ClosesIn marker ((t.take start).isEmpty || (t.take start).getLast? == some '\n')
      (t.drop start) k ↔ ClosesAt marker t (start + k) := by
  have hline : lineAt (t.drop start) k = lineAt t (start + k) := by
    rw [lineAt, lineAt, List.drop_drop]
  rw [ClosesIn, ClosesAt, hline]
  refine and_congr_left fun _ => ?_
  cases k with
  | zero =>
      rw [Nat.add_zero, startsLine_iff h]
      simp [StartsIn]
  | succ k => simp [StartsIn, StartsLine, ← Nat.add_assoc]

/-- The search from an offset finds the first closing line from there on, or there is none. -/
theorem findAt?_cases (hm : Lexeme.IsMarker marker) (h : start ≤ t.length) :
    (∃ k, FirstClosing marker t start k ∧
      findAt? t start marker = some ⟨(t.take k).drop start, lineAt t k⟩) ∨
    ((∀ k, start ≤ k → ¬ClosesAt marker t k) ∧ findAt? t start marker = none) := by
  rcases search_cases hm ((t.take start).isEmpty || (t.take start).getLast? == some '\n')
    (t.drop start) with ⟨k, hcloses, hleast, hfound⟩ | ⟨hnone, hfound⟩
  · left
    refine ⟨start + k, ⟨Nat.le_add_right start k, (closesIn_drop_iff h).mp hcloses, ?_⟩, ?_⟩
    · intro j hle hj
      rcases Nat.exists_eq_add_of_le hle with ⟨i, rfl⟩
      exact Nat.add_le_add_left (hleast i ((closesIn_drop_iff h).mpr hj)) start
    · rw [findAt?, hfound, lineAt, lineAt, List.drop_drop, List.drop_take, Nat.add_sub_cancel_left]
  · right
    refine ⟨?_, hfound⟩
    intro k hle hk
    rcases Nat.exists_eq_add_of_le hle with ⟨i, rfl⟩
    exact hnone i ((closesIn_drop_iff h).mpr hk)

/-- A heredoc from an offset reaches up to the first closing line from there on, or the line of
its opener is blamed if there is none. -/
theorem bodyFrom_cases (hm : Lexeme.IsMarker marker) (h : start ≤ t.length) (line : Int) :
    (∃ k, FirstClosing marker t start k ∧
      bodyFrom t start marker line = .ok ((t.take k).drop start, k + (lineAt t k).length)) ∨
    ((∀ k, start ≤ k → ¬ClosesAt marker t k) ∧
      bodyFrom t start marker line = .error ⟨line, .unterminatedHeredoc marker⟩) := by
  have hoffset : min (start : Int).toNat t.length = start := by simpa using h
  have hfront : ¬(start : Int) < 0 := Int.not_lt.mpr (Int.natCast_nonneg start)
  rcases findAt?_cases hm h with ⟨k, hk, hfound⟩ | ⟨hnone, hfound⟩
  · left
    refine ⟨k, hk, ?_⟩
    have hclosing : start + ((t.take k).drop start).length = k := by
      have hle := hk.start_le
      have hlength := hk.closes.1.le_length
      rw [List.length_drop, List.length_take, Nat.min_eq_left hlength]
      omega
    simp only [bodyFrom, bodyFrom?, hoffset, hfound, Option.map_some, hclosing, if_neg hfront]
  · right
    refine ⟨hnone, ?_⟩
    simp only [bodyFrom, bodyFrom?, hoffset, hfound, Option.map_none]

/-- A first closing line behind an offset in the middle of a line lies behind a line feed. -/
theorem FirstClosing.line_feed_mem (hk : FirstClosing marker t start k)
    (hstart : ¬StartsLine t start) : start < k ∧ '\n' ∈ (t.take k).drop start := by
  have hlt : start < k := by
    apply Nat.lt_of_le_of_ne hk.start_le
    intro heq
    subst heq
    exact hstart hk.closes.1
  refine ⟨hlt, ?_⟩
  rcases hk.closes.1 with rfl | ⟨j, rfl, hfeed⟩
  · omega
  · have hlast : ((t.take (j + 1)).drop start)[j - start]? = some '\n' := by
      rw [List.getElem?_drop, Nat.add_sub_cancel' (Nat.le_of_lt_succ hlt),
        List.getElem?_take_of_lt (Nat.lt_succ_self j), hfeed]
    exact List.mem_of_getElem? hlast

/-- Behind a line feed the search in the rest of a text finds what it finds from the offset. -/
theorem findAt?_append {before : Text} (h : before.getLast? = some '\n') (rest : Text) :
    findAt? (before ++ rest) before.length marker = find? marker rest := by
  simp [findAt?, find?, h]

/-! ## Bodies and their ends -/

/-- From an offset of a text, the body of a heredoc reaches up to the first line from there on
that holds the marker alone, and the heredoc ends where that line does: at a line feed or at the
end of the text.  If there is no such line, the line of the opener is blamed, and in no other
case.  From the middle of a line a line feed lies between the offset and the closing line, so
the rest of that line is never taken for it.  Behind an opener, the rest of the text alone
decides. -/
theorem bodyFrom_first_closing_line (t : Text) (start : Nat) (marker : Text) (line : Int)
    (hstart : start ≤ t.length) (hm : Lexeme.IsMarker marker) :
    (∀ body stop, bodyFrom t start marker line = .ok (body, stop) ↔
      ∃ k, FirstClosing marker t start k ∧ body = (t.take k).drop start ∧
        stop = k + (lineAt t k).length) ∧
    (∀ e, bodyFrom t start marker line = .error e ↔
      (¬∃ k, start ≤ k ∧ ClosesAt marker t k) ∧ e = ⟨line, .unterminatedHeredoc marker⟩) ∧
    (∀ k, FirstClosing marker t start k →
      (k + (lineAt t k).length = t.length ∨ t[k + (lineAt t k).length]? = some '\n') ∧
      (¬StartsLine t start → start < k ∧ '\n' ∈ (t.take k).drop start)) ∧
    ∀ before rest, before.getLast? = some '\n' →
      findAt? (before ++ rest) before.length marker = find? marker rest := by
  refine ⟨?_, ?_, ?_, ?_⟩
  · intro body stop
    rcases bodyFrom_cases hm hstart line with ⟨k, hk, hfound⟩ | ⟨hnone, hfound⟩
    · rw [hfound]
      constructor
      · intro h
        rcases Prod.mk.inj (Except.ok.inj h) with ⟨rfl, rfl⟩
        exact ⟨k, hk, rfl, rfl⟩
      · intro h
        rcases h with ⟨j, hj, rfl, rfl⟩
        rw [hj.unique hk]
    · rw [hfound]
      constructor
      · intro h
        contradiction
      · intro h
        rcases h with ⟨k, hk, -, -⟩
        exact absurd hk.closes (hnone k hk.start_le)
  · intro e
    rcases bodyFrom_cases hm hstart line with ⟨k, hk, hfound⟩ | ⟨hnone, hfound⟩
    · rw [hfound]
      constructor
      · intro h
        contradiction
      · intro h
        exact absurd ⟨k, hk.start_le, hk.closes⟩ h.1
    · rw [hfound]
      constructor
      · intro h
        exact ⟨fun hk => hnone _ hk.choose_spec.1 hk.choose_spec.2, (Except.error.inj h).symm⟩
      · intro h
        rw [h.2]
  · intro k hk
    exact ⟨lineAt_end hk.closes.1.le_length, hk.line_feed_mem⟩
  · intro before rest hlast
    exact findAt?_append hlast rest

/-- A text with lines that look like closing ones: the rest of a line, a longer word, and an
indented marker with blanks and a carriage return behind it. -/
def lookalikes : Text :=
  "ab E\nE1\n\tE \r\nE".toList

/-- From the middle of the first line the heredoc ends with the third one. -/
theorem bodyFrom_first_closing_line_lookalikes :
    3 ≤ lookalikes.length ∧ Lexeme.IsMarker ['E'] ∧
      bodyFrom lookalikes 3 ['E'] 7 = .ok ("E\nE1\n".toList, 12) ∧
      ∃ k, FirstClosing ['E'] lookalikes 3 k ∧
        "E\nE1\n".toList = (lookalikes.take k).drop 3 ∧
        12 = k + (lineAt lookalikes k).length := by
  have hlength : 3 ≤ lookalikes.length := by decide
  have hm : Lexeme.IsMarker ['E'] := .mk (by decide) (by simp)
  have hread : bodyFrom lookalikes (3 : Nat) ['E'] 7 = .ok ("E\nE1\n".toList, 12) := by rfl
  rcases bodyFrom_first_closing_line lookalikes 3 ['E'] 7 hlength hm with ⟨hok, -, -, -⟩
  exact ⟨hlength, hm, hread, (hok _ _).mp hread⟩

end Heredoc

end Ocl

end DeployGate
