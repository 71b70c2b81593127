import DeployGate.Proofs.Ocl.Relocation
import DeployGate.Proofs.Ocl.ScanAppend

/-!
# Space and comments between lexemes

Space and comments leave no token behind.  Put between two lexemes they change no other lexeme:
what stands in front is over there anyway, or is space or a comment itself and takes them in.

Main results:

- Definition `tokensAt`: the tokens of a text that starts on some line.
- Theorem `Lexeme.Cuts.tokensAt_eq`: the tokens of a text that is cut.
- Theorems `tokensAt_space` and `tokensAt_comment`: space and a comment in front of a text.
- Theorem `tokens_insert`: space and comments between two lexemes of a text.
-/

namespace DeployGate

namespace Ocl

open Lexeme

variable {t u w a b rest : Text} {l : Lexeme} {ls : List Lexeme} {line : Int}

/-! ## Tokens of the rest of a text -/

/-- The tokens of a text that starts on a line, or the place where no lexeme can be read. -/
def tokensAt (line : Int) (t : Text) : Except Error TokenList :=
  let ts := tokensFrom line (Scan.of t).lexemes
  match (Scan.of t).fault with
  | none => .ok ts
  | some f => .error ⟨ts.endLine, f.cause⟩

/-- A whole text starts on the first line. -/
theorem tokens_eq_tokensAt (t : Text) : tokens t = tokensAt 1 t := rfl

/-- A token list with more tokens in front of it. -/
def TokenList.prepend (us : List Token) (ts : TokenList) : TokenList :=
  ⟨us ++ ts.tokens, ts.endLine⟩

/-- Tokens in front of tokens that are in front of others. -/
theorem TokenList.prepend_prepend (us vs : List Token) (ts : TokenList) :
    (ts.prepend vs).prepend us = ts.prepend (us ++ vs) := by
  simp [prepend]

/-- Tokens in front of tokens or a fault, in two steps or in one. -/
theorem map_prepend_prepend (us vs : List Token) (r : Except Error TokenList) :
    (r.map (TokenList.prepend vs)).map (TokenList.prepend us) =
      r.map (TokenList.prepend (us ++ vs)) := by
  cases r with
  | error e => rfl
  | ok ts => exact congrArg Except.ok (ts.prepend_prepend us vs)

/-- A text that starts some lines later has the same tokens or the same fault, as many lines
later. -/
theorem tokensAt_add (line k : Int) (t : Text) :
    tokensAt (line + k) t = match tokensAt line t with
      | .ok ts => .ok (ts.mapLines (· + k))
      | .error e => .error (e.mapLine (· + k)) := by
  simp only [tokensAt, tokensFrom_add line k]
  cases (Scan.of t).fault <;> rfl

namespace Lexeme

/-- The tokens of a text that is cut are those of the lexemes and those of the rest. -/
theorem Cuts.tokensAt_eq (h : Cuts t ls rest) (line : Int) :
    tokensAt line t = (tokensAt (tokensFrom line ls).endLine rest).map
      (TokenList.prepend (tokensFrom line ls).tokens) := by
  simp only [tokensAt, h.scan_goesOn, tokensFrom_append]
  cases (Scan.of rest).fault <;> rfl

/-- In a text that is cut the rest can be put in place of one with the same tokens. -/
theorem Cuts.tokens_congr {t' rest' : Text} (h : Cuts t ls rest) (h' : Cuts t' ls rest')
    (hrest : ∀ line, tokensAt line rest' = tokensAt line rest) : tokens t' = tokens t := by
  rw [tokens_eq_tokensAt, tokens_eq_tokensAt, h.tokensAt_eq, h'.tokensAt_eq, hrest]

/-- A text that is cut into lexemes is cut into the first of them and, behind these, into the
others. -/
theorem Cuts.of_append {ms : List Lexeme} (h : Cuts t (ls ++ ms) rest) :
    ∃ mid, Cuts t ls mid ∧ Cuts mid ms rest := by
  induction ls generalizing t with
  | nil => exact ⟨t, .done t, h⟩
  | cons l ls ih =>
      cases h with
      | next hl ht =>
          rcases ih ht with ⟨mid, hcuts, hbehind⟩
          exact ⟨mid, .next hl hcuts, hbehind⟩

/-- In front of its last lexeme a text is cut as well. -/
theorem Cuts.of_concat (h : Cuts t (ls ++ [l]) rest) :
    Cuts t ls (l.text ++ rest) ∧ IsNext l (l.text ++ rest) := by
  rcases h.of_append with ⟨mid, hcuts, hbehind⟩
  cases hbehind with
  | next hl ht =>
      cases ht
      exact ⟨hcuts, hl⟩

/-- A text is cut where a lexeme of its scan is over. -/
theorem Cuts.of_scan {ms : List Lexeme} (h : (Scan.of (a ++ b)).lexemes = ls ++ ms)
    (ha : ls.flatMap Lexeme.text = a) : Cuts (a ++ b) ls b := by
  have hscan := cuts_scan (a ++ b)
  rw [h] at hscan
  rcases hscan.of_append with ⟨mid, hcuts, -⟩
  have hmid : a ++ mid = a ++ b := by
    rw [← hcuts.append_eq, ha]
  rwa [List.append_cancel_left hmid] at hcuts

/-- A text is over, or it starts with a lexeme, or with a fault. -/
theorem start_cases (t : Text) :
    t = [] ∨ (∃ l rest, t = l.text ++ rest ∧ IsNext l (l.text ++ rest)) ∨ ∃ f, Blocks f t := by
  cases t with
  | nil => exact .inl rfl
  | cons c t =>
      right
      rcases read_cases c t with ⟨l, hread, hl⟩ | ⟨⟨f, hread⟩, -⟩
      · have hsplit := text_append_of_read hread
        left
        exact ⟨l, _, hsplit.symm, by rwa [hsplit]⟩
      · right
        exact ⟨f, blocks_of_read_error hread⟩

/-- Where a text starts with a fault it has no tokens. -/
theorem Blocks.tokensAt_eq {f : Fault} (h : Blocks f t) (line : Int) :
    tokensAt line t = .error ⟨line, f.cause⟩ := by
  cases t with
  | nil => exact absurd h.stuck not_stuck_nil
  | cons c t =>
      rcases read_cases c t with ⟨l, -, hl⟩ | ⟨⟨g, hread⟩, -⟩
      · exact absurd h.stuck hl.not_stuck
      · have hsame : f = g := h.unique (blocks_of_read_error hread)
        rw [tokensAt, Scan.of, hread, hsame]
        rfl

end Lexeme

/-! ## Space, comments and line ends in front of a text -/

/-- The end of a text is on the line where it starts. -/
theorem tokensAt_nil (line : Int) : tokensAt line [] = .ok ⟨[], line⟩ := by
  rw [tokensAt, Scan.of]
  rfl

/-- Behind a lexeme the text goes on with the lines that it passes, and its token comes in
front. -/
theorem tokensAt_of_isNext (h : IsNext l (l.text ++ t)) (line : Int) :
    tokensAt line (l.text ++ t) = (tokensAt (line + l.linesPassed) t).map
      (TokenList.prepend (l.symbol?.map (Token.mk · line)).toList) := by
  have hcuts : Cuts (l.text ++ t) [l] t := .next h (.done t)
  have htokens : tokensFrom line [l] =
      ⟨(l.symbol?.map (Token.mk · line)).toList, line + l.linesPassed⟩ := by
    rw [tokensFrom]
    cases l.symbol? <;> rfl
  rw [hcuts.tokensAt_eq, htokens]

/-- A lexeme without a symbol leaves no token and no line behind. -/
theorem tokensAt_of_isSilent (h : IsNext l (l.text ++ t)) (hl : l.isSilent = true) :
    tokensAt line (l.text ++ t) = tokensAt line t := by
  have hlines : line + l.linesPassed = line := by
    cases l with
    | space => exact Int.add_zero line
    | comment => exact Int.add_zero line
    | _ => contradiction
  rw [tokensAt_of_isNext h, symbol?_of_isSilent hl, hlines]
  cases tokensAt line t <;> rfl

/-- A line end is a token, and the next line starts behind it. -/
theorem tokensAt_lineEnd {e : Text} (he : IsLineEnd e) (line : Int) (t : Text) :
    tokensAt line (e ++ t) =
      (tokensAt (line + 1) t).map (TokenList.prepend [⟨.newline, line⟩]) := by
  have hnext : IsNext (.lineEnd e) (e ++ t) := by
    apply IsNext.plain (by simp [classOf])
    cases he with
    | lineFeed => exact longest_lineFeed t
    | carriageReturn => exact longest_carriageReturn t
  exact tokensAt_of_isNext (l := .lineEnd e) hnext line

/-- A heredoc is a token, and the count of lines goes on behind its opener and its body. -/
theorem tokensAt_heredoc {i : Bool} {o m b c : Text}
    (h : IsNext (.heredoc i o m b c) (o ++ (b ++ (c ++ t)))) (line : Int) :
    tokensAt line (o ++ (b ++ (c ++ t))) =
      (tokensAt (line + (o.lineFeeds + b.lineFeeds : Nat)) t).map
        (TokenList.prepend [⟨.heredoc (Heredoc.value i b), line⟩]) := by
  have htext : (Lexeme.heredoc i o m b c).text ++ t = o ++ (b ++ (c ++ t)) := by simp [text]
  have htokens := tokensAt_of_isNext (l := .heredoc i o m b c) (t := t) (by rwa [htext]) line
  rw [htext] at htokens
  simp only [linesPassed, lineFeeds_content] at htokens
  exact htokens

/-- Space in front of other characters leaves no token behind. -/
theorem tokensAt_space_of_boundary (hw : ∀ c ∈ w, isSpace c = true)
    (ht : ∀ c, t.head? = some c → isSpace c = false) :
    tokensAt line (w ++ t) = tokensAt line t := by
  by_cases hnil : w = []
  · rw [hnil, List.nil_append]
  · have hself : Longest .space w (w ++ ([] ++ [])) := by
      simpa using longest_self (.space hnil hw)
    have hlongest : Longest .space w (w ++ t) :=
      hself.replace fun c hc v hv => hv.not_mem_space (ht c hc)
    exact tokensAt_of_isSilent (l := .space w) (.plain (by simp [classOf]) hlongest) rfl

/-- Space in front of a text leaves no token behind. -/
theorem tokensAt_space (hw : ∀ c ∈ w, isSpace c = true) (line : Int) (t : Text) :
    tokensAt line (w ++ t) = tokensAt line t := by
  have hfront : ∀ c ∈ t.takeWhile isSpace, isSpace c = true := fun _ hc => Span.of_mem_takeWhile hc
  have hbehind : ∀ c, (t.dropWhile isSpace).head? = some c → isSpace c = false :=
    fun _ hc => Span.head?_dropWhile_eq_false hc
  have hall : ∀ c ∈ w ++ t.takeWhile isSpace, isSpace c = true := by
    intro c hc
    rcases List.mem_append.mp hc with hc | hc
    · exact hw c hc
    · exact hfront c hc
  -- The space in front is one lexeme with the space that the text starts with.
  calc tokensAt line (w ++ t)
      = tokensAt line ((w ++ t.takeWhile isSpace) ++ t.dropWhile isSpace) := by
        rw [List.append_assoc, List.takeWhile_append_dropWhile]
    _ = tokensAt line (t.dropWhile isSpace) := tokensAt_space_of_boundary hall hbehind
    _ = tokensAt line (t.takeWhile isSpace ++ t.dropWhile isSpace) :=
        (tokensAt_space_of_boundary hfront hbehind).symm
    _ = tokensAt line t := by rw [List.takeWhile_append_dropWhile]

/-- A comment where the line is over leaves no token behind. -/
theorem tokensAt_comment_of_atLineEnd (hu : InClass .comment u) (ht : Heredoc.AtLineEnd t)
    (line : Int) :
    tokensAt line (u ++ t) = tokensAt line t :=
  tokensAt_of_isSilent (l := .comment u)
    (.plain (by simp [classOf]) (longest_of_atLineEnd hu ht)) rfl

/-- A comment in front of a line end, or at the end of a text, leaves no token behind. -/
theorem tokensAt_comment (hu : InClass .comment u)
    (ht : t = [] ∨ ∃ e r, IsLineEnd e ∧ t = e ++ r) (line : Int) :
    tokensAt line (u ++ t) = tokensAt line t := by
  rcases ht with rfl | ⟨e, r, he, rfl⟩
  · exact tokensAt_comment_of_atLineEnd hu (.inl rfl) line
  · cases he with
    | lineFeed => exact tokensAt_comment_of_atLineEnd hu (.inr ⟨r, rfl⟩) line
    | carriageReturn =>
        -- The comment takes the carriage return in, and the line feed alone is a line end too.
        have hlonger : InClass .comment (u ++ ['\r']) := inClass_comment_append hu (by decide)
        have hover := tokensAt_comment_of_atLineEnd hlonger (.inr ⟨r, rfl⟩) line
        have hfeed := tokensAt_lineEnd .lineFeed line r
        rw [List.append_assoc] at hover
        rw [tokensAt_lineEnd .carriageReturn, ← hfeed]
        exact hover

/-! ## Between two lexemes -/

/-- A lexeme that leaves a token behind is over in front of a character that is none of numbers
and names, unless it is a heredoc. -/
theorem isOver_of_isSilent_eq_false (hl : l.isSilent = false) (hheredoc : l.classOf ≠ .opener)
    {r : Text} (hr : ∀ c, r.head? = some c → isNameChar c = false) : l.IsOver r := by
  cases l with
  | space => contradiction
  | comment => contradiction
  | heredoc => exact absurd rfl hheredoc
  | name => exact hr
  | _ => trivial

/-- Behind space or a comment, space and comments leave no token behind either. -/
theorem tokensAt_append_of_isSilent (hl : l.isSilent = true) (hnext : IsNext l (l.text ++ b))
    (hfeed : '\n' ∉ w) (hw : ∀ line, tokensAt line (w ++ b) = tokensAt line b) (line : Int) :
    tokensAt line (l.text ++ (w ++ b)) = tokensAt line (l.text ++ b) := by
  rw [tokensAt_of_isSilent hnext hl]
  cases hnext with
  | heredoc => contradiction
  | plain _ h =>
      cases l with
      | space u =>
          have hu : ∀ c ∈ u, isSpace c = true := by
            intro c hc
            by_contra hno
            exact h.inClass.not_mem_space (by simpa using hno) hc
          exact (tokensAt_space hu line _).trans (hw line)
      | comment u =>
          have hlonger := inClass_comment_append h.inClass hfeed
          have hover := tokensAt_comment_of_atLineEnd hlonger h.atLineEnd line
          rwa [List.append_assoc] at hover
      | _ => contradiction

/-- A text has the same tokens with space or a comment between two lexemes, but not right behind
a heredoc. -/
theorem tokens_insert (h : Cuts (a ++ b) ls b)
    (hheredoc : ∀ l, ls.getLast? = some l → l.classOf ≠ .opener) (hfeed : '\n' ∉ w)
    (hhead : ∀ c, w.head? = some c → isNumberChar c = false ∧ isNameChar c = false)
    (hw : ∀ line, tokensAt line (w ++ b) = tokensAt line b) :
    tokens (a ++ (w ++ b)) = tokens (a ++ b) := by
  have htext : ls.flatMap Lexeme.text = a := List.append_cancel_right h.append_eq
  cases w with
  | nil => rfl
  | cons c w =>
      have hnumber : ∀ d, (c :: w ++ b).head? = some d → isNumberChar d = false :=
        fun d hd => (hhead d hd).1
      have hname : ∀ d, (c :: w ++ b).head? = some d → isNameChar d = false :=
        fun d hd => (hhead d hd).2
      rcases ls.eq_nil_or_concat' with rfl | ⟨ls, l, rfl⟩
      · rw [← htext]
        exact hw 1
      · cases hl : l.isSilent with
        | false =>
            have hover : ∀ m, (ls ++ [l]).getLast? = some m → m.IsOver (c :: w ++ b) := by
              intro m hm
              rw [List.getLast?_concat] at hm
              rcases Option.some.inj hm with rfl
              exact isOver_of_isSilent_eq_false hl (hheredoc _ List.getLast?_concat) hname
            have hcuts := Cuts.replace (x := []) h (fun _ => hover) hnumber
            rw [htext] at hcuts
            exact h.tokens_congr hcuts hw
        | true =>
            rcases h.of_concat with ⟨hfront, hnext⟩
            have hne := hnext.text_ne_nil
            have hcuts := hfront.replace (fun hnil => absurd hnil hne) hnumber
            rw [← List.append_assoc, ← List.flatMap_singleton Lexeme.text l, ← List.flatMap_append,
              htext, List.flatMap_singleton] at hcuts
            exact hfront.tokens_congr hcuts (tokensAt_append_of_isSilent hl hnext hfeed hw)

end Ocl

end DeployGate
