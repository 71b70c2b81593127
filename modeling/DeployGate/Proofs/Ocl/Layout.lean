import DeployGate.Proofs.Ocl.Insertion
import DeployGate.Proofs.Ocl.Likeness

/-!
# Layout

Documents may be laid out freely.  Space and comments between lexemes change no token.  Blank
lines behind a line end are tokens, but readers pass line ends in a row as they pass one, and
the lines of what follows are the only difference.

Main results:

- Definition `BlankLines`: lines with nothing but space and a comment on them.
- Theorem `tokensAt_blankLines`: blank lines in front of a text are line ends.
- Theorem `document_result_mapLines`: tokens whose lines change are read as before.
- Theorem `layout_unseen`: what space, comments and blank lines change in a document.
-/

namespace DeployGate

namespace Ocl

open Lexeme

variable {a b w : Text} {ls ms : List Lexeme}

/-! ## Blank lines -/

/-- Lines with nothing but space and a comment on them. -/
inductive BlankLines : Text → Prop
  | nil : BlankLines []
  | cons {s c e w : Text} (hs : ∀ d ∈ s, isSpace d = true) (hc : c = [] ∨ InClass .comment c)
      (he : IsLineEnd e) (hw : BlankLines w) : BlankLines (s ++ (c ++ (e ++ w)))

/-- Blank lines in front of a text are line ends in front of its tokens. -/
theorem tokensAt_blankLines (hw : BlankLines w) (line : Int) (b : Text) :
    ∃ ns, LineEnds ns ∧ tokensAt line (w ++ b) =
      (tokensAt (line + ns.length) b).map (TokenList.prepend ns) := by
  induction hw generalizing line with
  | nil =>
      refine ⟨[], by simp [LineEnds], ?_⟩
      simp only [List.nil_append, List.length_nil, Nat.cast_zero, Int.add_zero]
      cases tokensAt line b <;> rfl
  | @cons s c e w hs hc he _ ih =>
      rcases ih (line + 1) with ⟨ns, hns, hrest⟩
      have hcomment : tokensAt line (c ++ (e ++ (w ++ b))) = tokensAt line (e ++ (w ++ b)) := by
        rcases hc with rfl | hc
        · rfl
        · exact tokensAt_comment hc (.inr ⟨e, w ++ b, he, rfl⟩) line
      have hlater : line + 1 + (ns.length : Int) =
          line + ((⟨.newline, line⟩ :: ns : List Token).length : Int) := by
        rw [List.length_cons]
        omega
      refine ⟨⟨.newline, line⟩ :: ns, ?_, ?_⟩
      · intro t ht
        rcases List.mem_cons.mp ht with rfl | ht
        · rfl
        · exact hns t ht
      · calc tokensAt line (s ++ (c ++ (e ++ w)) ++ b)
            = tokensAt line (s ++ (c ++ (e ++ (w ++ b)))) := by simp only [List.append_assoc]
          _ = tokensAt line (e ++ (w ++ b)) := (tokensAt_space hs line _).trans hcomment
          _ = (tokensAt (line + 1) (w ++ b)).map (TokenList.prepend [⟨.newline, line⟩]) :=
            tokensAt_lineEnd he line _
          _ = _ := by rw [hrest, map_prepend_prepend, hlater, List.singleton_append]

/-- Space is neither part of a number nor of a name. -/
theorem isNumberChar_eq_false_of_isSpace {c : Char} (hc : isSpace c = true) :
    isNumberChar c = false ∧ isNameChar c = false := by
  simp only [isSpace, Bool.or_eq_true, beq_iff_eq] at hc
  rcases hc with (rfl | rfl) | rfl <;> decide

/-- A comment starts with a character that is neither part of a number nor of a name. -/
theorem isNumberChar_eq_false_of_comment {u : Text} {c : Char} (hu : InClass .comment u)
    (hc : u.head? = some c) : isNumberChar c = false ∧ isNameChar c = false := by
  cases hu with
  | hash =>
      rcases Option.some.inj hc with rfl
      decide
  | slashes =>
      rcases Option.some.inj hc with rfl
      decide

/-- Blank lines start with no character of numbers. -/
theorem BlankLines.isNumberChar_eq_false (hw : BlankLines w) {c : Char}
    (hc : w.head? = some c) : isNumberChar c = false := by
  cases hw with
  | nil => contradiction
  | @cons s u e w hs hu he _ =>
      cases s with
      | cons d s =>
          rcases Option.some.inj hc with rfl
          exact (isNumberChar_eq_false_of_isSpace (hs _ List.mem_cons_self)).1
      | nil =>
          rcases hu with rfl | hu
          · cases he <;> rcases Option.some.inj hc with rfl <;> decide
          · cases u with
            | nil => cases hu
            | cons d u => exact (isNumberChar_eq_false_of_comment hu hc).1

/-! ## Tokens behind blank lines -/

/-- Behind a line end of a text, blank lines put line ends into its tokens. -/
theorem exists_tokens_blankLines (h : Cuts (a ++ b) ls b) {u : Text}
    (hlast : ls.getLast? = some (Lexeme.lineEnd u)) (hw : BlankLines w) :
    ∃ ts l ns, LineEnds ns ∧
      tokens (a ++ b) = (tokensAt (l + 1) b).map (TokenList.prepend (ts ++ [⟨.newline, l⟩])) ∧
      tokens (a ++ (w ++ b)) = (tokensAt (l + 1 + ns.length) b).map
        (TokenList.prepend (ts ++ ⟨.newline, l⟩ :: ns)) := by
  have htext : ls.flatMap Lexeme.text = a := List.append_cancel_right h.append_eq
  rcases List.getLast?_eq_some_iff.mp hlast with ⟨front, rfl⟩
  have hfront : tokensFrom 1 (front ++ [Lexeme.lineEnd u]) =
      ⟨(tokensFrom 1 front).tokens ++ [⟨.newline, (tokensFrom 1 front).endLine⟩],
        (tokensFrom 1 front).endLine + 1⟩ := by
    rw [tokensFrom_append]
    rfl
  have hshort := h.tokensAt_eq 1
  rw [hfront, ← tokens_eq_tokensAt] at hshort
  by_cases hnil : w = []
  · refine ⟨_, _, [], by simp [LineEnds], hshort, ?_⟩
    simpa [hnil] using hshort
  · rcases tokensAt_blankLines hw ((tokensFrom 1 front).endLine + 1) b with ⟨ns, hns, hrest⟩
    refine ⟨_, _, ns, hns, hshort, ?_⟩
    have hhead : ∀ c, (w ++ b).head? = some c → isNumberChar c = false := by
      intro c hc
      rw [List.head?_append_of_ne_nil _ hnil] at hc
      exact hw.isNumberChar_eq_false hc
    have hover : ∀ l, (front ++ [Lexeme.lineEnd u]).getLast? = some l → l.IsOver (w ++ b) := by
      intro l hl
      rw [List.getLast?_concat] at hl
      rcases Option.some.inj hl with rfl
      trivial
    have hcuts := Cuts.replace (x := []) h (fun _ => hover) hhead
    rw [htext] at hcuts
    have hlong := hcuts.tokensAt_eq 1
    rw [hfront, List.nil_append, hrest, map_prepend_prepend, List.append_assoc] at hlong
    exact hlong

/-! ## Documents -/

/-- Tokens whose lines change are read as before, with the same lines changed. -/
theorem document_result_mapLines (f : Int → Int) (ts : TokenList) :
    (ts.mapLines f).document.result = match ts.document.result with
      | .ok d => .ok (d.map (Node.mapLines f))
      | .error e => .error (e.mapLine f) := by
  have hread := (relocates f 0 ts.start).body .block false
  have hthere : ((ts.start.relocate f 0).body .block false).reading =
      ((ts.mapLines f).document.result, (ts.mapLines f).document.cursor) := rfl
  have hhere : (ts.start.body .block false).reading =
      (ts.document.result, ts.document.cursor) := rfl
  rw [hthere, hhere] at hread
  cases hresult : ts.document.result <;> rw [hresult] at hread <;> exact congrArg Prod.fst hread

/-- Token lists that differ in lines and in line ends in a row only give the same tree, lines
apart, or give none. -/
theorem document_withoutLines_eq {ts us : TokenList}
    (h : squeeze (ts.mapLines fun _ => 0).tokens = squeeze (us.mapLines fun _ => 0).tokens) :
    ts.document.result.toOption.map Document.withoutLines =
      us.document.result.toOption.map Document.withoutLines := by
  have hid : Token.mapHeredoc id = id := by
    funext t
    rcases t with ⟨s, l⟩
    cases s <;> rfl
  have hsame : squeeze ((ts.mapLines fun _ => 0).tokens.map (Token.mapHeredoc id)) =
      squeeze (us.mapLines fun _ => 0).tokens := by
    rw [hid, List.map_id, h]
  have hnode : (Node.mapHeredocs id) = id := funext Node.mapHeredocs_id
  rcases document_result_like hsame rfl with ⟨hok, herror⟩
  rw [document_result_mapLines, document_result_mapLines] at hok herror
  cases hts : ts.document.result with
  | ok d =>
      rw [hts] at hok
      have hus := hok _ rfl
      rw [hnode, List.map_id] at hus
      cases hread : us.document.result with
      | ok d' =>
          rw [hread] at hus
          exact congrArg some (Except.ok.inj hus).symm
      | error e => rw [hread] at hus; contradiction
  | error e =>
      rw [hts] at herror
      rcases herror _ rfl with ⟨e', hus, -⟩
      cases hread : us.document.result with
      | ok d' => rw [hread] at hus; contradiction
      | error e => rfl

/-- Blank lines behind a line end leave the tree of a text as it is, lines apart. -/
theorem read_blankLines (h : Cuts (a ++ b) ls b) {u : Text}
    (hlast : ls.getLast? = some (Lexeme.lineEnd u)) (hw : BlankLines w) :
    (Document.read (a ++ (w ++ b))).toOption.map Document.withoutLines =
      (Document.read (a ++ b)).toOption.map Document.withoutLines := by
  rcases exists_tokens_blankLines h hlast hw with ⟨ts, l, ns, hns, hshort, hlong⟩
  rw [tokensAt_add] at hlong
  rw [Document.read, Document.read, hshort, hlong]
  cases tokensAt (l + 1) b with
  | error e => rfl
  | ok us =>
      apply document_withoutLines_eq
      have hsqueeze := squeeze_lineEnds (hns.map fun _ => 0) (ts.map (Token.mapLine fun _ => 0))
        (us.tokens.map (Token.mapLine fun _ => 0)) 0
      have hforget : (us.tokens.map (Token.mapLine (· + (ns.length : Int)))).map
          (Token.mapLine fun _ => 0) = us.tokens.map (Token.mapLine fun _ => 0) := by
        rw [List.map_map]
        rfl
      simpa [TokenList.mapLines, TokenList.prepend, hforget] using hsqueeze

/-- Layout is not seen.  Where a lexeme of a text is over, unless it is a heredoc, space changes
no token, and a comment in front of a line end or at the end of the text changes none either.
Behind a line end blank lines change nothing but lines: the text spells a tree with them if it
spells one without, and the same one. -/
theorem layout_unseen (h : (Scan.of (a ++ b)).lexemes = ls ++ ms)
    (ha : ls.flatMap Lexeme.text = a) :
    ((∀ l, ls.getLast? = some l → l.classOf ≠ .opener) →
      (∀ w, (∀ c ∈ w, isSpace c = true) → tokens (a ++ (w ++ b)) = tokens (a ++ b)) ∧
      (∀ w, InClass .comment w → (b = [] ∨ ∃ e r, IsLineEnd e ∧ b = e ++ r) →
        tokens (a ++ (w ++ b)) = tokens (a ++ b))) ∧
    ((∃ u, ls.getLast? = some (Lexeme.lineEnd u)) → ∀ w, BlankLines w →
      (Document.read (a ++ (w ++ b))).toOption.map Document.withoutLines =
        (Document.read (a ++ b)).toOption.map Document.withoutLines) := by
  have hcuts : Cuts (a ++ b) ls b := .of_scan h ha
  refine ⟨fun hheredoc => ⟨?_, ?_⟩, ?_⟩
  · intro w hw
    have hfeed : '\n' ∉ w := fun hmem => absurd (hw _ hmem) (by decide)
    refine tokens_insert hcuts hheredoc hfeed ?_ fun line => tokensAt_space hw line b
    intro c hc
    exact isNumberChar_eq_false_of_isSpace (hw c (List.mem_of_head? hc))
  · intro w hw hb
    have hfeed : '\n' ∉ w := hw.line_feed_not_mem (by simp) (by simp)
    exact tokens_insert hcuts hheredoc hfeed (fun c => isNumberChar_eq_false_of_comment hw)
      fun line => tokensAt_comment hw hb line
  · intro hlast w hw
    rcases hlast with ⟨u, hu⟩
    exact read_blankLines hcuts hu hw

/-- The front of a list, up to a line end in it. -/
def listFront : Text :=
  "l = [1,\n".toList

/-- A line with a comment on it and an empty line. -/
def remarkLines : Text :=
  [' ', '#', '2', '\r', '\n', '\n']

/-- The list goes on in the same way behind space, and behind blank lines. -/
theorem layout_unseen_list :
    (∀ w, (∀ c ∈ w, isSpace c = true) →
      tokens (listFront ++ (w ++ "2]".toList)) = tokens (listFront ++ "2]".toList)) ∧
    (Document.read (listFront ++ (remarkLines ++ "2]".toList))).toOption.map
        Document.withoutLines =
      some [.attribute ⟨['l'], .list [.literal .number ['1'], .literal .number ['2']], 0⟩] := by
  have hscan : (Scan.of (listFront ++ "2]".toList)).lexemes =
      [.name ['l'], .space [' '], .mark .equals, .space [' '], .mark .bracketOpen, .number ['1'],
        .mark .comma, Lexeme.lineEnd ['\n']] ++ [.number ['2'], .mark .bracketClose] := by cbv
  have hblank : BlankLines remarkLines :=
    .cons (s := [' ']) (c := ['#', '2']) (by simp [isSpace]) (.inr (.hash (by decide)))
      .carriageReturn (.cons (s := []) (c := []) (by simp) (.inl rfl) .lineFeed .nil)
  have hread : Document.read (listFront ++ "2]".toList) = .ok
      [.attribute ⟨['l'], .list [.literal .number ['1'], .literal .number ['2']], 1⟩] := by cbv
  rcases layout_unseen hscan rfl with ⟨hspace, hlines⟩
  refine ⟨(hspace (by simp [classOf])).1, ?_⟩
  rw [hlines ⟨_, rfl⟩ _ hblank, hread]
  rfl

end Ocl

end DeployGate
