import DeployGate.Proofs.Ocl.EarliestError
import DeployGate.Proofs.Ocl.Relocation
import DeployGate.Proofs.Ocl.ScanAppend

/-!
# Documents one behind another

A document goes on behind a line feed as if the rest stood alone.  The line feed ends whatever
lexeme comes last, also a comment and the closing line of a heredoc, and it ends the last
statement, so that the rest is scanned and read from the start.  Only its lines are counted on.

Main results:

- Theorem `tokens_append_lineFeed`: the tokens of a text that goes on behind a line feed.
- Theorem `Derives.goesOn`: behind statements and a line end a body is read as one of its own.
- Theorem `read_append_eq`: a document that goes on behind a line feed.
- Theorem `read_append_lineFeed`: the two ways in which it goes on.
-/

namespace DeployGate

namespace Ocl

/-! ## Tokens -/

/-- Token lists one behind the other, with a line end between them.  The lines of the second
are counted on from the end of the first. -/
def TokenList.append (ts us : TokenList) : TokenList :=
  ⟨ts.tokens ++ ⟨.newline, ts.endLine⟩ :: (us.mapLines (· + ts.endLine)).tokens,
    (us.mapLines (· + ts.endLine)).endLine⟩

/-- Behind a line feed a text has the tokens, or the fault, that the rest has alone, on later
lines. -/
theorem tokens_append_lineFeed {a : Text} {ts : TokenList} (ha : tokens a = .ok ts) (b : Text) :
    tokens (a ++ '\n' :: b) = match tokens b with
      | .ok us => .ok (ts.append us)
      | .error e => .error (e.mapLine (· + ts.endLine)) := by
  rcases tokens_eq_ok_iff.mp ha with ⟨hfault, rfl⟩
  have hcuts := cuts_scan a
  rw [(Scan.remainder_eq_nil_iff a).mpr hfault] at hcuts
  have hfeed : Scan.of ('\n' :: b) = ⟨.lineEnd ['\n'] :: (Scan.of b).lexemes, (Scan.of b).fault⟩ :=
    (Lexeme.isNext_lineFeed b).scan_eq
  have hscan := hcuts.scan_append (.inl rfl) (fun _ _ => .inl rfl) b
  have hlater := tokensFrom_add 1 (tokensFrom 1 (Scan.of a).lexemes).endLine (Scan.of b).lexemes
  rw [Int.add_comm] at hlater
  rw [tokens, tokens, hscan, hfeed, tokensFrom_append]
  simp only [tokensFrom, Lexeme.symbol?, Lexeme.linesPassed, Nat.cast_one, hlater]
  cases (Scan.of b).fault <;> rfl

/-! ## Statements -/

variable {c : Cursor} {m : Mode} {nested : Bool}

/-- A reading that is put behind nothing is the same. -/
theorem Reading.map_nil_append {α : Type} (r : Reading (List α)) :
    (r.map fun ss => [] ++ ss) = r := by
  rcases r with ⟨e | ss, c⟩ <;> rfl

/-- A body does not see line ends in front of it. -/
theorem body_reading_of_lineEnds {ns : List Token} (hns : LineEnds ns) (h : ns <+: c.ahead) :
    (c.body m nested).reading = ((c.skip ns.length).body m nested).reading := by
  induction ns generalizing c with
  | nil => rfl
  | cons t ns ih =>
      rcases h with ⟨rest, hrest⟩
      have hnext : c.symbol? = some .newline := by
        rw [Cursor.symbol?_of_ahead hrest.symm, hns t List.mem_cons_self]
      have hlater := ih (c := c.advance) (fun u hu => hns u (List.mem_cons_of_mem t hu))
        ⟨rest, by simp [← hrest]⟩
      rw [Cursor.body_reading_of_newline hnext, hlater, Cursor.skip_length_cons]

/-- Behind a statement a line end is passed in front of a body. -/
theorem afterStatement_of_newline (h : c.symbol? = some .newline) :
    c.afterStatement m nested = (c.advance.body m nested).reading := by
  have hcomma : ¬(m = .dictionary ∧ c.atMark .comma = true) := by simp [Cursor.atMark_iff, h]
  have hend : c.atStatementEnd = true := by simp [Cursor.atStatementEnd, h]
  rw [Cursor.afterStatement, if_neg hcomma, if_pos hend, Cursor.body_reading_of_newline h]

/-- Where the tokens of a body and a line end are ahead, reading goes on behind them as with a
body of its own, and what the tokens denote comes first.  The same holds of what follows a
statement; the other nonterminals say nothing. -/
def Nonterminal.GoesOn : (X : Nonterminal) → List Token → X.Meaning → Prop
  | .body m, us, ss => ∀ nested (c : Cursor) l rest, c.ahead = us ++ ⟨.newline, l⟩ :: rest →
      (c.body m nested).reading =
        ((c.skip us.length).advance.body m nested).reading.map (ss ++ ·)
  | .rest m, us, ss => ∀ nested (c : Cursor) l rest, c.ahead = us ++ ⟨.newline, l⟩ :: rest →
      c.afterStatement m nested =
        ((c.skip us.length).advance.body m nested).reading.map (ss ++ ·)
  | _, _, _ => True

/-- Line ends alone add nothing to what lies behind them. -/
theorem goesOn_noStatement {ns : List Token} (hns : LineEnds ns) :
    Nonterminal.GoesOn (.body m) ns [] := by
  intro nested c l rest h
  have hnext := Cursor.symbol?_of_ahead (Cursor.ahead_skip_of_ahead h)
  rw [body_reading_of_lineEnds hns ⟨_, h.symm⟩, Cursor.body_reading_of_newline hnext,
    Reading.map_nil_append]

/-- A statement comes in front of what follows it. -/
theorem goesOn_statements {ns us ws : List Token} {s : m.Item} {ss : List m.Item}
    (hns : LineEnds ns) (hus : Derives (.statement m) us s)
    (ih : Nonterminal.GoesOn (.rest m) ws ss) :
    Nonterminal.GoesOn (.body m) (ns ++ us ++ ws) (s :: ss) := by
  intro nested c l rest h
  rw [List.append_assoc] at h
  have hlater := ih nested (c.skip (ns ++ us).length) l rest (Cursor.ahead_skip_of_ahead h)
  rw [body_reading_of_statement hns hus ⟨_, h.symm⟩, hlater, ← Cursor.skip_length_append]
  generalize (Cursor.body m nested _).reading = r
  rcases r with ⟨e | ts, d⟩ <;> rfl

/-- Behind statements and a line end a body is read as one of its own. -/
theorem Derives.goesOn {X : Nonterminal} {us : List Token} {a : X.Meaning}
    (h : Derives X us a) : X.GoesOn us a := by
  induction h with
  | noStatement hns => exact goesOn_noStatement hns
  | statements hns hus _ _ ih => exact goesOn_statements hns hus ih
  | noRest =>
      intro nested c l rest h
      rw [afterStatement_of_newline (Cursor.symbol?_of_ahead h), Reading.map_nil_append]
      rfl
  | lineEnd _ ih =>
      intro nested c l rest h
      have hnext := Cursor.symbol?_of_ahead h
      rw [afterStatement_of_newline hnext, ih nested c.advance l rest (by simp [h]),
        Cursor.skip_length_cons]
  | comma _ ih =>
      intro nested c l rest h
      have hnext := Cursor.symbol?_of_ahead h
      rw [afterStatement_of_comma hnext, ih nested c.advance l rest (by simp [h]),
        Cursor.skip_length_cons]
  | _ => trivial

/-! ## Documents -/

/-- Behind the tokens of a document and a line end, the tokens of another text are read as
alone, with their lines counted on, and come behind the document. -/
theorem document_reading_append {ts : TokenList} {d : Document}
    (hd : Derives (.body .block) ts.tokens d) (us : TokenList) :
    (ts.append us).document.reading =
      (us.document.reading.relocate (· + ts.endLine) (ts.tokens.length + 1)
        (List.map (Node.mapLines (· + ts.endLine)))).map (d ++ ·) := by
  have hbehind : ((ts.append us).start.skip ts.tokens.length).advance =
      us.start.relocate (· + ts.endLine) (ts.tokens.length + 1) := by
    simp [TokenList.start, TokenList.append, TokenList.mapLines, Cursor.skip, Cursor.advance,
      Cursor.relocate]
  have hread := hd.goesOn false (ts.append us).start ts.endLine _ rfl
  rw [hbehind, (relocates _ _ _).body] at hread
  exact hread

/-- Behind a document and a line feed a text is read as alone, with its lines counted on, and its
parts come behind those of the document. -/
theorem read_append_eq {a : Text} {d : Document} (ha : Document.read a = .ok d) (b : Text) :
    Document.read (a ++ '\n' :: b) = match Document.read b with
      | .ok e => .ok (d ++ e.map (Node.mapLines (· + (1 + a.lineFeeds))))
      | .error e => .error (e.mapLine (· + (1 + a.lineFeeds))) := by
  rcases document_read_iff.mp ha with ⟨ts, hts, hd⟩
  rcases (token_lines a).1 ts hts with ⟨-, -, -, hend⟩
  rw [← hend, Document.read, Document.read, tokens_append_lineFeed hts b]
  cases tokens b with
  | error e => rfl
  | ok us =>
      have hread := congrArg Prod.fst (document_reading_append hd us)
      have hpair : us.document.reading = (us.document.result, us.document.cursor) := rfl
      rw [hpair] at hread
      change (ts.append us).document.result = match us.document.result with
        | .ok e => .ok (d ++ e.map (Node.mapLines (· + ts.endLine)))
        | .error e => .error (e.mapLine (· + ts.endLine))
      cases hresult : us.document.result with
      | ok e =>
          rw [hresult] at hread
          exact hread
      | error e =>
          rw [hresult] at hread
          exact hread

/-- Documents one behind another are read one behind the other.  Where a text goes on behind a
document and a line feed, its parts follow those of the document, and its error is the one it
has alone.  Their lines are counted on by the lines of the document. -/
theorem read_append_lineFeed {a : Text} {d : Document} (ha : Document.read a = .ok d)
    (b : Text) :
    (∀ e, Document.read b = .ok e →
      Document.read (a ++ '\n' :: b) =
        .ok (d ++ e.map (Node.mapLines (· + (1 + a.lineFeeds))))) ∧
    (∀ e, Document.read b = .error e →
      Document.read (a ++ '\n' :: b) = .error ⟨e.line + (1 + a.lineFeeds), e.cause⟩) := by
  rw [read_append_eq ha b]
  constructor
  · intro e he
    rw [he]
  · intro e he
    rw [he]
    rfl

/-- A document that ends with the closing line of a heredoc. -/
def endingHeredoc : Text :=
  "a = <<E\n#\nE".toList

/-- The part of that document. -/
def endingHeredocPart : Node :=
  .attribute ⟨['a'], .literal .heredoc ['#'], 1⟩

/-- Neither the heredoc nor its closing line takes anything of what that document goes on
with. -/
theorem read_append_lineFeed_endingHeredoc :
    Document.read endingHeredoc = .ok [endingHeredocPart] ∧
      Document.read (endingHeredoc ++ '\n' :: "b = 1".toList) =
        .ok [endingHeredocPart, .attribute ⟨['b'], .literal .number ['1'], 4⟩] ∧
      Document.read (endingHeredoc ++ '\n' :: ['\n', ']']) = .error ⟨5, .nameExpected [']']⟩ := by
  have hread : Document.read endingHeredoc = .ok [endingHeredocPart] := by cbv
  have hgood : Document.read "b = 1".toList =
      .ok [.attribute ⟨['b'], .literal .number ['1'], 1⟩] := by cbv
  have hbad : Document.read ['\n', ']'] = .error ⟨2, .nameExpected [']']⟩ := by cbv
  exact ⟨hread, (read_append_lineFeed hread _).1 _ hgood, (read_append_lineFeed hread _).2 _ hbad⟩

end Ocl

end DeployGate
