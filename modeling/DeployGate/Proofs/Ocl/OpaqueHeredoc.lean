import DeployGate.Proofs.Ocl.ScanAppend
import DeployGate.Proofs.Ocl.TreeHole

/-!
# Bodies of heredocs

Nothing in the body of a heredoc is seen by what surrounds it.  Whatever lines stand between an
opener and its closing line, the text behind is scanned from the same place, and the heredoc is
one token.  So the body decides neither whether the text is a document nor what is around the
heredoc; it moves what lies behind by its lines.

Main results:

- Definition `Heredoc.Encloses`: the texts that can stand between an opener and its closing line.
- Theorem `exists_tokens_heredoc`: the tokens of a text around the body of a heredoc.
- Theorem `heredoc_opaque`: what a text around the body of a heredoc is read as.
-/

namespace DeployGate

namespace Ocl

namespace Heredoc

variable {marker : Text}

/-- A text can stand in front of the closing line of a heredoc: it is empty or ends with a line
feed, and no line of it holds the marker alone. -/
structure Encloses (marker body : Text) : Prop where
  ends : body = [] ∨ ∃ t, body = t ++ ['\n']
  free : ∀ k ∈ Text.lines body, ¬HoldsOnly marker k

/-- What can stand in front of a closing line is lines that do not hold the marker alone. -/
theorem Encloses.exists_lines {body : Text} (h : Encloses marker body) :
    ∃ before, body = bodyOf before ∧ ∀ k ∈ before, '\n' ∉ k ∧ ¬HoldsOnly marker k := by
  rcases h.ends with rfl | ⟨t, rfl⟩
  · exact ⟨[], rfl, by simp⟩
  · refine ⟨Text.lines t, (bodyOf_lines t).symm, fun k hk => ?_⟩
    have hlines : Text.lines (t ++ ['\n']) = Text.lines t ++ Text.lines [] :=
      Text.splitAt_append_append t []
    refine ⟨line_feed_not_mem_of_mem_lines k hk, h.free k ?_⟩
    rw [hlines]
    exact List.mem_append_left _ hk

/-- A marker and the line end behind it are a closing line, and then the line is over. -/
theorem exists_closer (marker : Text) {v : Text}
    (hv : v = [] ∨ ∃ e rest, Lexeme.IsLineEnd e ∧ v = e ++ rest) :
    ∃ r rest, v = r ++ rest ∧ HoldsOnly marker (marker ++ r) ∧ AtLineEnd rest := by
  have hcloser : ∀ {r : Text}, r = [] ∨ r = ['\r'] → HoldsOnly marker (marker ++ r) := by
    intro r hr
    exact .mk (a := []) (b := []) (by simp) (by simp) hr
  rcases hv with rfl | ⟨e, rest, he, rfl⟩
  · exact ⟨[], [], rfl, hcloser (.inl rfl), .inl rfl⟩
  · cases he with
    | lineFeed => exact ⟨[], '\n' :: rest, rfl, hcloser (.inl rfl), .inr ⟨rest, rfl⟩⟩
    | carriageReturn => exact ⟨['\r'], '\n' :: rest, rfl, hcloser (.inr rfl), .inr ⟨rest, rfl⟩⟩

end Heredoc

open Heredoc (Encloses)

variable {u marker opener v : Text} {indented : Bool} {ts : TokenList}

/-! ## Tokens -/

/-- A text that an opener follows has a heredoc behind its lexemes, and goes on behind it. -/
theorem scan_heredoc (hu : (Scan.of u).fault = none)
    (hlast : ∀ l, (Scan.of u).lexemes.getLast? = some l →
      l.classOf ≠ .comment ∧ l.classOf ≠ .opener)
    {body closer rest : Text}
    (hnext : Lexeme.IsNext (.heredoc indented opener marker body closer)
      (opener ++ (body ++ (closer ++ rest))))
    (hopens : Lexeme.Opens indented marker opener) :
    Scan.of (u ++ (opener ++ (body ++ (closer ++ rest)))) =
      ⟨(Scan.of u).lexemes ++ .heredoc indented opener marker body closer ::
        (Scan.of rest).lexemes, (Scan.of rest).fault⟩ := by
  have hcuts := cuts_scan u
  rw [(Scan.remainder_eq_nil_iff u).mpr hu] at hcuts
  have hsplit : opener ++ (body ++ (closer ++ rest)) =
      (Lexeme.heredoc indented opener marker body closer).text ++ rest := by simp [Lexeme.text]
  rw [hsplit] at hnext
  have hscan := hnext.scan_eq
  rw [← hsplit] at hscan
  cases hopens with
  | mk hm hb he =>
      rw [List.cons_append, hcuts.scan_append (.inr rfl) (fun l hl => .inr ⟨rfl, hlast l hl⟩),
        ← List.cons_append, hscan]

/-- A text around the body of a heredoc has no tokens for any body, or it has the same tokens
for every body, but for the text of the heredoc and the lines behind it. -/
theorem exists_tokens_heredoc (hu : tokens u = .ok ts)
    (hlast : ∀ l, (Scan.of u).lexemes.getLast? = some l →
      l.classOf ≠ .comment ∧ l.classOf ≠ .opener)
    (hopens : Lexeme.Opens indented marker opener)
    (hv : v = [] ∨ ∃ e rest, Lexeme.IsLineEnd e ∧ v = e ++ rest) :
    (∀ b, Encloses marker b → ∃ e, tokens (u ++ (opener ++ (b ++ (marker ++ v)))) = .error e) ∨
    ∃ later : TokenList, ∀ b, Encloses marker b →
      tokens (u ++ (opener ++ (b ++ (marker ++ v)))) =
        .ok ⟨around ts.tokens later.tokens ts.endLine (Heredoc.value indented b) b.lineFeeds,
          later.endLine + b.lineFeeds⟩ := by
  rcases tokens_eq_ok_iff.mp hu with ⟨hfault, rfl⟩
  rcases Heredoc.exists_closer marker hv with ⟨r, rest, rfl, hcloser, hend⟩
  have hscan : ∀ b, Encloses marker b → Scan.of (u ++ (opener ++ (b ++ (marker ++ (r ++ rest))))) =
      ⟨(Scan.of u).lexemes ++ .heredoc indented opener marker b (marker ++ r) ::
        (Scan.of rest).lexemes, (Scan.of rest).fault⟩ := by
    intro b hb
    have hnext := Lexeme.isNext_heredoc_iff.mpr ⟨hopens, hb.exists_lines, hcloser, hend⟩
    have hscan := scan_heredoc hfault hlast hnext hopens
    rwa [List.append_assoc] at hscan
  cases hrest : (Scan.of rest).fault with
  | some f =>
      left
      intro b hb
      rw [tokens, hscan b hb, hrest]
      exact ⟨_, rfl⟩
  | none =>
      right
      refine ⟨tokensFrom ((tokensFrom 1 (Scan.of u).lexemes).endLine + opener.lineFeeds)
        (Scan.of rest).lexemes, fun b hb => ?_⟩
      have hlater := tokensFrom_add
        ((tokensFrom 1 (Scan.of u).lexemes).endLine + opener.lineFeeds) b.lineFeeds
        (Scan.of rest).lexemes
      rw [tokens, hscan b hb, hrest, tokensFrom_append]
      simp only [tokensFrom, Lexeme.symbol?, Lexeme.linesPassed, Lexeme.lineFeeds_content,
        Nat.cast_add, ← Int.add_assoc, hlater]
      rfl

/-! ## Documents -/

/-- The body of a heredoc is opaque.  Behind a text that ends with neither a comment nor a
heredoc stand an opener, a body, the marker, and nothing or a line end and more.  Either this is
no document whatever the body is, or there is one tree with a hole that every body fills: the
body decides the text of the one heredoc in it and, by its line feeds, the lines of what lies
behind, and nothing else. -/
theorem heredoc_opaque (hu : tokens u = .ok ts)
    (hlast : ∀ l, (Scan.of u).lexemes.getLast? = some l →
      l.classOf ≠ .comment ∧ l.classOf ≠ .opener)
    (hopens : Lexeme.Opens indented marker opener)
    (hv : v = [] ∨ ∃ e rest, Lexeme.IsLineEnd e ∧ v = e ++ rest) :
    (∀ b, Encloses marker b →
      ∃ e, Document.read (u ++ (opener ++ (b ++ (marker ++ v)))) = .error e) ∨
    ∃ h : Document.Hole, ∀ b, Encloses marker b →
      Document.read (u ++ (opener ++ (b ++ (marker ++ v)))) =
        .ok (h.fill (Heredoc.value indented b) b.lineFeeds) := by
  rcases exists_tokens_heredoc hu hlast hopens hv with htokens | ⟨later, htokens⟩
  · left
    intro b hb
    rcases htokens b hb with ⟨e, he⟩
    exact ⟨e, by rw [Document.read, he]; rfl⟩
  by_cases hhole : (Nonterminal.body .block).HasHole ts.tokens later.tokens ts.endLine
  · right
    rcases hhole with ⟨h, hh⟩
    exact ⟨h, fun b hb => document_read_iff.mpr ⟨_, htokens b hb, hh _ _⟩⟩
  · left
    intro b hb
    cases hread : Document.read (u ++ (opener ++ (b ++ (marker ++ v)))) with
    | error e => exact ⟨e, rfl⟩
    | ok d =>
        rcases document_read_iff.mp hread with ⟨us, hus, hd⟩
        rw [htokens b hb] at hus
        rcases Except.ok.inj hus with rfl
        exact absurd hd.hasHole hhole

/-- No script behind this opener changes that the text is a document, or the attribute that
follows. -/
theorem heredoc_opaque_script :
    ∃ h : Document.Hole, ∀ b, Encloses ['E'] b →
      Document.read ("a = ".toList ++ ("<<E\n".toList ++ (b ++ (['E'] ++ "\nb = 1".toList)))) =
        .ok (h.fill (Heredoc.value false b) b.lineFeeds) := by
  have htokens : tokens "a = ".toList = .ok ⟨[⟨.name ['a'], 1⟩, ⟨.mark .equals, 1⟩], 1⟩ := by cbv
  have hlexemes : (Scan.of "a = ".toList).lexemes =
      [.name ['a'], .space [' '], .mark .equals, .space [' ']] := by cbv
  have hlast : ∀ l, (Scan.of "a = ".toList).lexemes.getLast? = some l →
      l.classOf ≠ .comment ∧ l.classOf ≠ .opener := by
    rw [hlexemes]
    intro l hl
    rcases Option.some.inj hl with rfl
    decide
  have hopens : Lexeme.Opens false ['E'] "<<E\n".toList :=
    .mk (b := []) (e := ['\n']) (.mk rfl (by simp)) (by simp) .lineFeed
  have hempty : Encloses ['E'] [] := by
    refine ⟨.inl rfl, fun k hk hmarker => ?_⟩
    rw [List.mem_singleton.mp hk] at hmarker
    exact absurd hmarker.length_le (by decide)
  have hbehind : "\nb = 1".toList = [] ∨
      ∃ e rest, Lexeme.IsLineEnd e ∧ "\nb = 1".toList = e ++ rest :=
    .inr ⟨['\n'], "b = 1".toList, .lineFeed, rfl⟩
  rcases heredoc_opaque htokens hlast hopens hbehind with hnever | halways
  · rcases hnever [] hempty with ⟨e, he⟩
    have hread : Document.read ("a = ".toList ++ ("<<E\n".toList ++ ([] ++ (['E'] ++
        "\nb = 1".toList)))) = .ok [.attribute ⟨['a'], .literal .heredoc [], 1⟩,
          .attribute ⟨['b'], .literal .number ['1'], 3⟩] := by cbv
    rw [hread] at he
    contradiction
  · exact halways

end Ocl

end DeployGate
