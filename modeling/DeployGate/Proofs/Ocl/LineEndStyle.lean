import DeployGate.Proofs.Ocl.Insertion
import DeployGate.Proofs.Ocl.Likeness
import DeployGate.Proofs.Text.CarriageReturn

/-!
# Line ends of either style

A document may end its lines with a carriage return and a line feed.  Every lexeme of a text
without carriage returns lies in the text with them as well: a line end, an opener and the
closing line of a heredoc have a return that they allow for, and a comment takes the return of
its line in.  So the tokens are the same on the same lines, and the bodies of heredocs keep their
returns.

Main results:

- Theorem `Lexeme.InClass.withoutReturns`: a lexeme of a text with returns is one without them.
- Theorem `Lexeme.exists_isNext_heredoc_withReturns`: a heredoc of a text with returns.
- Theorem `Lexeme.Blocks.withReturns`: a fault of a text stays one with returns.
- Theorem `tokensAt_withReturns`: the tokens of a text with returns.
- Theorem `read_withReturns`: a document is read in the same way with returns.
-/

namespace DeployGate

namespace Ocl

/-! ## Closing lines -/

namespace Heredoc

variable {marker l : Text}

/-- No marker holds a carriage return. -/
theorem return_not_mem_of_isMarker (hm : Lexeme.IsMarker marker) : '\r' ∉ marker :=
  Span.not_mem_of_all (by decide) hm.all_isMarkerChar

/-- No blanks hold a carriage return. -/
theorem return_not_mem_of_blanks {b : Text} (hb : ∀ c ∈ b, Text.isBlank c = true) : '\r' ∉ b :=
  Span.not_mem_of_all (by decide) hb

/-- A line that holds a marker alone does so without carriage returns. -/
theorem HoldsOnly.withoutReturns (h : HoldsOnly marker l) (hm : Lexeme.IsMarker marker) :
    HoldsOnly marker l.withoutReturns := by
  cases h with
  | @mk a b r ha hb hr =>
      have hnone : Text.withoutReturns r = [] := by rcases hr with rfl | rfl <;> rfl
      have hfront := Text.withoutReturns_of_not_mem (return_not_mem_of_blanks ha)
      have hmarker := Text.withoutReturns_of_not_mem (return_not_mem_of_isMarker hm)
      have hbehind := Text.withoutReturns_of_not_mem (return_not_mem_of_blanks hb)
      simp only [Text.withoutReturns_append, hnone, hfront, hmarker, hbehind]
      exact .mk ha hb (.inl rfl)

/-- A line that holds a marker alone does so with a carriage return at its end. -/
theorem HoldsOnly.concat_return (h : HoldsOnly marker l) (hreturn : '\r' ∉ l) :
    HoldsOnly marker (l ++ ['\r']) := by
  cases h with
  | @mk a b r ha hb hr =>
      have hnone : r = [] := by
        rcases hr with rfl | rfl
        · rfl
        · simp at hreturn
      subst hnone
      have hline : HoldsOnly marker (a ++ (marker ++ (b ++ ['\r']))) := .mk ha hb (.inr rfl)
      simpa using hline

/-- Lines that do not hold a marker alone do not do so with a carriage return either. -/
theorem not_holdsOnly_concat_return (h : ¬HoldsOnly marker l) (hm : Lexeme.IsMarker marker)
    (hreturn : '\r' ∉ l) : ¬HoldsOnly marker (l ++ ['\r']) := by
  intro hline
  have hshort := hline.withoutReturns hm
  have hsame : Text.withoutReturns (l ++ ['\r']) = l := by
    rw [Text.withoutReturns_append, Text.withoutReturns_of_not_mem hreturn]
    exact List.append_nil l
  rw [hsame] at hshort
  exact h hshort

/-- The lines of a body have their returns at their ends. -/
theorem withReturns_bodyOf {ls : List Text} (h : ∀ l ∈ ls, '\n' ∉ l) :
    (bodyOf ls).withReturns = bodyOf (ls.map (· ++ ['\r'])) := by
  induction ls with
  | nil => rfl
  | cons l ls ih =>
      have hl := Text.withReturns_of_not_mem (h l List.mem_cons_self)
      have hrest := ih fun k hk => h k (List.mem_cons_of_mem l hk)
      simp only [bodyOf, List.flatMap_cons, List.map_cons, Text.withReturns_append, hl] at hrest ⊢
      rw [hrest]
      simp

/-- The value of a heredoc that keeps its margin has the returns of its body. -/
theorem value_withReturns (body : Text) :
    value false body.withReturns = (value false body).withReturns :=
  Text.trimEnd_withReturns body

end Heredoc

namespace Lexeme

open Heredoc (AtLineEnd HoldsOnly bodyOf)

variable {i : Bool} {o m b c t u rest : Text} {k : Class} {f : Fault} {l : Lexeme}

/-! ## Openers -/

/-- An opener stays one with a return in front of its line feed. -/
theorem Opens.withReturns (h : Opens i m o) (hreturn : '\r' ∉ o) : Opens i m o.withReturns := by
  cases h with
  | @mk b e hm hb he =>
      cases he with
      | carriageReturn => simp at hreturn
      | lineFeed =>
          have hhyphen : '\n' ∉ hyphenIf i := by cases i <;> decide
          have hfeed : '\n' ∉ '<' :: '<' :: (hyphenIf i ++ (m ++ b)) := by
            simp [hhyphen, Heredoc.line_feed_not_mem_of_isMarker hm,
              Heredoc.line_feed_not_mem_of_blanks hb]
          have hopens : Opens i m
              ('<' :: '<' :: (hyphenIf i ++ (m ++ (b ++ ['\r', '\n'])))) :=
            .mk hm hb .carriageReturn
          have hsplit : '<' :: '<' :: (hyphenIf i ++ (m ++ (b ++ ['\n']))) =
              '<' :: '<' :: (hyphenIf i ++ (m ++ b)) ++ ['\n'] := by simp
          rw [hsplit, Text.withReturns_append, Text.withReturns_of_not_mem hfeed]
          simpa using hopens

/-- An opener stays one without carriage returns. -/
theorem Opens.withoutReturns (h : Opens i m o) : Opens i m o.withoutReturns := by
  cases h with
  | @mk b e hm hb he =>
      have hhyphen : '\r' ∉ hyphenIf i := by cases i <;> decide
      have hfront : '\r' ∉ '<' :: '<' :: (hyphenIf i ++ (m ++ b)) := by
        simp [hhyphen, Heredoc.return_not_mem_of_isMarker hm, Heredoc.return_not_mem_of_blanks hb]
      have hend : Text.withoutReturns e = ['\n'] := by cases he <;> rfl
      have hsplit : '<' :: '<' :: (hyphenIf i ++ (m ++ (b ++ e))) =
          '<' :: '<' :: (hyphenIf i ++ (m ++ b)) ++ e := by simp
      have hopens : Opens i m ('<' :: '<' :: (hyphenIf i ++ (m ++ (b ++ ['\n'])))) :=
        .mk hm hb .lineFeed
      rw [hsplit, Text.withoutReturns_append, Text.withoutReturns_of_not_mem hfront, hend]
      simpa using hopens

/-! ## Lexemes without returns -/

/-- A string with a carriage return has a character other than a line feed behind it. -/
theorem return_not_mem_of_string (hreturn : '\r' ∉ t) (hu : InClass .string u)
    (h : u <+: t.withReturns) : '\r' ∉ u := by
  intro hmem
  have hfeed : '\n' ∉ u := hu.line_feed_not_mem (by simp) (by simp)
  rcases List.append_of_mem hmem with ⟨p, q, rfl⟩
  cases q with
  | nil =>
      generalize hsplit : p ++ ['\r'] = v at hu
      cases hu with
      | @string v _ =>
          have hlast := congrArg List.getLast? hsplit
          rw [← List.cons_append, List.getLast?_concat, List.getLast?_concat] at hlast
          exact absurd hlast (by decide)
  | cons d q =>
      have hd := Text.eq_lineFeed_of_prefix_withReturns hreturn h
      exact hfeed (by simp [hd])

/-- A lexeme that starts a text with returns is one of its class without them. -/
theorem InClass.withoutReturns (hu : InClass k u) (hreturn : '\r' ∉ t)
    (h : u <+: t.withReturns) : InClass k u.withoutReturns := by
  cases hu with
  | lineEnd he => cases he <;> exact .lineEnd .lineFeed
  | hash ht => exact .hash (mt List.mem_of_mem_filter ht)
  | slashes ht => exact .slashes (mt List.mem_of_mem_filter ht)
  | opener ho => exact .opener ho.withoutReturns
  | @string v hv =>
      rw [Text.withoutReturns_of_not_mem (return_not_mem_of_string hreturn (.string hv) h)]
      exact .string hv
  | space hne ht =>
      rw [Text.withoutReturns_of_not_mem ((InClass.space hne ht).not_mem_space (by decide))]
      exact .space hne ht
  | number hs hw hf he =>
      have hnumber : InClass .number _ := .number hs hw hf he
      rw [Text.withoutReturns_of_not_mem (hnumber.not_mem_number (by decide))]
      exact hnumber
  | name hc ht =>
      have hname : InClass .name _ := .name hc ht
      rw [Text.withoutReturns_of_not_mem (Span.not_mem_of_all (by decide) hname.all_isNameChar)]
      exact hname
  | mark j => cases j <;> exact .mark _

/-! ## Lexemes with returns -/

/-- A text goes on up to the end of its first line. -/
theorem exists_atLineEnd (t : Text) : ∃ x b, t = x ++ b ∧ '\n' ∉ x ∧ AtLineEnd b := by
  by_cases hmem : '\n' ∈ t
  · rcases List.eq_append_cons_of_mem hmem with ⟨x, v, rfl, hx⟩
    exact ⟨x, '\n' :: v, rfl, hx, .inr ⟨v, rfl⟩⟩
  · exact ⟨t, [], (List.append_nil t).symm, hmem, .inl rfl⟩

/-- A lexeme that is no comment and no heredoc is next in front of returns too. -/
theorem IsNext.withReturns (h : IsNext l (l.text ++ rest)) (hcomment : l.classOf ≠ .comment)
    (hopener : l.classOf ≠ .opener) : IsNext l (l.text ++ rest.withReturns) := by
  rcases exists_atLineEnd rest with ⟨x, b, rfl, hx, hb⟩
  have hhead : ∀ d, b.withReturns.head? = some d → d = '\r' := by
    intro d hd
    rcases hb with rfl | ⟨v, rfl⟩
    · contradiction
    · exact (Option.some.inj hd).symm
  -- Up to the end of the line nothing changes.
  rw [Text.withReturns_append, Text.withReturns_of_not_mem hx]
  apply h.replace
  · intro _
    cases l with
    | comment => exact absurd rfl hcomment
    | heredoc => exact absurd rfl hopener
    | space =>
        intro d hd
        rw [hhead d hd]
        decide
    | name =>
        intro d hd
        rw [hhead d hd]
        decide
    | _ => trivial
  · intro d hd
    rw [hhead d hd]
    decide

/-- A heredoc is next with returns in front of its line feeds.  Its closing line takes the return
of its line in, and a line feed alone ends that line. -/
theorem exists_isNext_heredoc_withReturns
    (h : IsNext (.heredoc i o m b c) (o ++ (b ++ (c ++ rest))))
    (hreturn : '\r' ∉ o ++ (b ++ (c ++ rest))) :
    ∃ c' rest', c ++ rest.withReturns = c' ++ rest' ∧
      IsNext (.heredoc i o.withReturns m b.withReturns c')
        (o.withReturns ++ (b.withReturns ++ (c' ++ rest'))) ∧
      ∀ line, tokensAt line rest' = tokensAt line rest.withReturns := by
  simp only [List.mem_append, not_or] at hreturn
  rcases hreturn with ⟨ho, hb, hc, -⟩
  rcases isNext_heredoc_iff.mp h with ⟨hopens, ⟨before, rfl, hbefore⟩, hcloser, hend⟩
  have hm := hopens.isMarker
  have hbody : ∃ ls, (bodyOf before).withReturns = bodyOf ls ∧
      ∀ k ∈ ls, '\n' ∉ k ∧ ¬HoldsOnly m k := by
    refine ⟨_, Heredoc.withReturns_bodyOf fun k hk => (hbefore k hk).1, ?_⟩
    intro k' hk'
    rcases List.mem_map.mp hk' with ⟨k, hk, rfl⟩
    have hkreturn : '\r' ∉ k := by
      intro hmem
      exact hb (List.mem_flatMap.mpr ⟨k, hk, List.mem_append_left _ hmem⟩)
    exact ⟨by simp [(hbefore k hk).1],
      Heredoc.not_holdsOnly_concat_return (hbefore k hk).2 hm hkreturn⟩
  rcases hend with rfl | ⟨v, rfl⟩
  · exact ⟨c, [], rfl, isNext_heredoc_iff.mpr
      ⟨hopens.withReturns ho, hbody, hcloser, .inl rfl⟩, fun _ => rfl⟩
  · refine ⟨c ++ ['\r'], '\n' :: Text.withReturns v, by simp, isNext_heredoc_iff.mpr
      ⟨hopens.withReturns ho, hbody, hcloser.concat_return hc, .inr ⟨_, rfl⟩⟩, ?_⟩
    intro line
    exact (tokensAt_lineEnd .lineFeed line _).trans (tokensAt_lineEnd .carriageReturn line _).symm

/-! ## Faults -/

/-- A fault of a text is its fault with returns as well. -/
theorem Blocks.withReturns (h : Blocks f t) (hreturn : '\r' ∉ t) : Blocks f t.withReturns := by
  cases h with
  | @unexpected c t h =>
      have hc : c ≠ '\n' := by
        rintro rfl
        exact h .lineEnd ['\n'] (by simp) (.lineEnd .lineFeed)
      rw [Text.withReturns_cons_of_ne hc]
      apply Blocks.unexpected
      intro k u hprefix hu
      rw [← Text.withReturns_cons_of_ne hc] at hprefix
      exact h k _ (Text.withoutReturns_isPrefix hreturn hprefix) (hu.withoutReturns hreturn hprefix)
  | @unterminated i m o t hopens hlines =>
      simp only [List.mem_append, not_or] at hreturn
      rw [Text.withReturns_append]
      refine .unterminated (hopens.withReturns hreturn.1) ?_
      intro k hk hline
      have hthere : k.withoutReturns ∈ Text.lines t := by
        rw [← Text.withoutReturns_withReturns hreturn.2, Text.lines_withoutReturns]
        exact List.mem_map_of_mem hk
      exact hlines _ hthere (hline.withoutReturns hopens.isMarker)

end Lexeme

/-! ## Tokens -/

open Lexeme

variable {t rest : Text} {l : Lexeme}

/-- Tokens in front of others have their heredocs changed with them. -/
theorem map_prepend_mapHeredocs (g : Text → Text) (us : List Token) (r : Except Error TokenList) :
    (r.map (TokenList.prepend us)).map (TokenList.mapHeredocs g) =
      (r.map (TokenList.mapHeredocs g)).map (TokenList.prepend (us.map (Token.mapHeredoc g))) := by
  cases r with
  | error e => rfl
  | ok ts => simp [Except.map, TokenList.prepend, TokenList.mapHeredocs]

/-- The rest of a text has the same tokens with returns, but for the heredocs. -/
def SameWithReturns (t : Text) : Prop :=
  ∀ line, tokensAt line t.withReturns =
    (tokensAt line t).map (TokenList.mapHeredocs Text.withReturns)

/-- A lexeme that stays next with returns keeps its token. -/
theorem sameWithReturns_of_isNext (hl : IsNext l (l.text ++ rest))
    (hclass : l.classOf ≠ .lineEnd) (hcomment : l.classOf ≠ .comment)
    (hopener : l.classOf ≠ .opener) (ih : SameWithReturns rest) :
    SameWithReturns (l.text ++ rest) := by
  intro line
  have hfeed : '\n' ∉ l.text := (hl.longest hopener).inClass.line_feed_not_mem hclass hopener
  have hsymbol : (l.symbol?.map (Token.mk · line)).toList.map (Token.mapHeredoc Text.withReturns) =
      (l.symbol?.map (Token.mk · line)).toList := by
    cases l with
    | heredoc => exact absurd rfl hopener
    | _ => rfl
  rw [Text.withReturns_append, Text.withReturns_of_not_mem hfeed, tokensAt_of_isNext hl,
    tokensAt_of_isNext (hl.withReturns hcomment hopener), ih, map_prepend_mapHeredocs, hsymbol]

/-- A line end stays one with a return. -/
theorem sameWithReturns_lineFeed (ih : SameWithReturns rest) :
    SameWithReturns ('\n' :: rest) := by
  intro line
  have hlong := tokensAt_lineEnd .carriageReturn line rest.withReturns
  have hshort := tokensAt_lineEnd .lineFeed line rest
  rw [List.cons_append, List.singleton_append] at hlong
  rw [List.singleton_append] at hshort
  rw [Text.withReturns_lineFeed_cons, hlong, hshort, ih, map_prepend_mapHeredocs]
  rfl

/-- A comment leaves no token behind with returns either. -/
theorem sameWithReturns_comment {u : Text} (hl : IsNext (.comment u) (u ++ rest))
    (ih : SameWithReturns rest) : SameWithReturns (u ++ rest) := by
  intro line
  have hlongest : Longest .comment u (u ++ rest) := hl.longest (by simp [classOf])
  have hend : rest.withReturns = [] ∨
      ∃ e r, IsLineEnd e ∧ rest.withReturns = e ++ r := by
    rcases hlongest.atLineEnd with rfl | ⟨v, rfl⟩
    · exact .inl rfl
    · exact .inr ⟨_, Text.withReturns v, .carriageReturn, rfl⟩
  have hfeed : '\n' ∉ u := hlongest.inClass.line_feed_not_mem (by simp) (by simp)
  have hshort := tokensAt_comment_of_atLineEnd hlongest.inClass hlongest.atLineEnd line
  rw [Text.withReturns_append, Text.withReturns_of_not_mem hfeed,
    tokensAt_comment hlongest.inClass hend, hshort, ih]

/-- A heredoc that keeps its margin has the returns of its body in its value. -/
theorem sameWithReturns_heredoc {o m b c : Text}
    (hl : IsNext (.heredoc false o m b c) (o ++ (b ++ (c ++ rest))))
    (hreturn : '\r' ∉ o ++ (b ++ (c ++ rest))) (ih : SameWithReturns rest) :
    SameWithReturns (o ++ (b ++ (c ++ rest))) := by
  intro line
  rcases exists_isNext_heredoc_withReturns hl hreturn with ⟨c', rest', hsplit, hnext, hrest⟩
  have hclosing := (isNext_heredoc_iff.mp hl).2.2.1.line_feed_not_mem
    (isNext_heredoc_iff.mp hl).1.isMarker
  rw [Text.withReturns_append, Text.withReturns_append, Text.withReturns_append,
    Text.withReturns_of_not_mem hclosing, hsplit, tokensAt_heredoc hnext, tokensAt_heredoc hl,
    hrest, ih, map_prepend_mapHeredocs, Text.lineFeeds_withReturns, Text.lineFeeds_withReturns,
    Heredoc.value_withReturns]
  rfl

/-- A text without indented heredocs has the same tokens with returns, on the same lines, or the
same fault, but for the returns in the heredocs. -/
theorem tokensAt_withReturns {t : Text} (hreturn : '\r' ∉ t) (hindent : ¬"<<-".toList <:+: t) :
    SameWithReturns t := by
  rcases start_cases t with rfl | ⟨l, rest, rfl, hl⟩ | ⟨f, hf⟩
  · intro line
    rw [Text.withReturns_nil, tokensAt_nil]
    rfl
  · have hpos := List.length_pos_iff.mpr hl.text_ne_nil
    have hrest : '\r' ∉ rest := fun hmem => hreturn (List.mem_append_right _ hmem)
    have ih : SameWithReturns rest :=
      tokensAt_withReturns hrest fun h => hindent (h.trans (List.suffix_append _ _).isInfix)
    cases l with
    | lineEnd u =>
        have hu : IsLineEnd u := by
          cases hl with
          | plain _ h =>
              cases h.inClass with
              | lineEnd hu => exact hu
        cases hu with
        | lineFeed => exact sameWithReturns_lineFeed ih
        | carriageReturn => exact absurd (by simp [text]) hreturn
    | comment u => exact sameWithReturns_comment hl ih
    | heredoc i o m b c =>
        simp only [text, List.append_assoc] at hl hreturn hindent ⊢
        cases i with
        | false => exact sameWithReturns_heredoc hl hreturn ih
        | true =>
            cases (isNext_heredoc_iff.mp hl).1 with
            | mk =>
                refine absurd ?_ hindent
                exact (List.prefix_append _ _).isInfix
    | _ =>
        exact sameWithReturns_of_isNext hl (by simp [classOf]) (by simp [classOf])
          (by simp [classOf]) ih
  · intro line
    rw [hf.tokensAt_eq, (hf.withReturns hreturn).tokensAt_eq]
    rfl
termination_by t.length
decreasing_by
  subst_vars
  rw [List.length_append]
  omega

/-! ## Documents -/

/-- A text without carriage returns and without indented heredocs is read in the same way with a
return in front of every line feed.  Its tree is the same, lines included, with returns in the
texts of heredocs, or it is refused on the same line. -/
theorem read_withReturns (hreturn : '\r' ∉ t) (hindent : ¬"<<-".toList <:+: t) :
    (∀ d, Document.read t = .ok d →
      Document.read t.withReturns = .ok (d.map (Node.mapHeredocs Text.withReturns))) ∧
    (∀ e, Document.read t = .error e →
      ∃ e', Document.read t.withReturns = .error e' ∧ e'.line = e.line) := by
  have htokens := tokensAt_withReturns hreturn hindent 1
  rw [← tokens_eq_tokensAt, ← tokens_eq_tokensAt] at htokens
  rw [Document.read, Document.read, htokens]
  cases tokens t with
  | error e =>
      constructor
      · intro d hd
        contradiction
      · intro e' he'
        have hsame : e = e' := Except.error.inj he'
        exact ⟨e, rfl, congrArg Error.line hsame⟩
  | ok ts => exact document_result_like rfl rfl

/-- A document with a heredoc that has an empty line in it. -/
def gappedHeredoc : Text :=
  "a=<<E\nx\n\ny\nE\n".toList

/-- The heredoc of that document keeps the returns of its lines, the empty one included. -/
theorem read_withReturns_gappedHeredoc :
    Document.read gappedHeredoc =
        .ok [.attribute ⟨['a'], .literal .heredoc ['x', '\n', '\n', 'y'], 1⟩] ∧
      Document.read gappedHeredoc.withReturns = .ok
        [.attribute ⟨['a'], .literal .heredoc ['x', '\r', '\n', '\r', '\n', 'y'], 1⟩] := by
  have hread : Document.read gappedHeredoc =
      .ok [.attribute ⟨['a'], .literal .heredoc ['x', '\n', '\n', 'y'], 1⟩] := by cbv
  have hreturn : decide ('\r' ∈ gappedHeredoc) = false := by cbv
  have hhyphen : decide ('-' ∈ gappedHeredoc) = false := by cbv
  have hindent : ¬"<<-".toList <:+: gappedHeredoc :=
    fun h => of_decide_eq_false hhyphen (h.subset (by simp))
  exact ⟨hread, (read_withReturns (of_decide_eq_false hreturn) hindent).1 _ hread⟩

end Ocl

end DeployGate
