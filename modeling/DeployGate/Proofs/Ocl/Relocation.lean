import DeployGate.Proofs.Ocl.TreeForm

/-!
# Lines that change

The readers of documents carry lines along and never look at them.  Tokens whose lines change
are read as before, with the same lines changed in what is read and in the error.

Main results:

- Definitions `Cursor.relocate` and `Reading.relocate`: a cursor and a reading elsewhere.
- Theorem `relocates`: every reader does elsewhere what it does here.
- Theorem `Derives.mapLines`: tokens derive what they derived, with its lines changed.
- Theorem `tokensFrom_add`: lexemes that start some lines later have their tokens there.
-/

namespace DeployGate

namespace Ocl

/-! ## Tokens and errors -/

/-- A token with its line changed. -/
def Token.mapLine (f : Int → Int) (t : Token) : Token :=
  ⟨t.symbol, f t.line⟩

@[simp] theorem Token.symbol_mapLine (f : Int → Int) (t : Token) :
    (t.mapLine f).symbol = t.symbol := rfl

@[simp] theorem Token.mapLine_mk (f : Int → Int) (s : Symbol) (l : Int) :
    Token.mapLine f ⟨s, l⟩ = ⟨s, f l⟩ := rfl

@[simp] theorem Token.mapLine_stringToken (f : Int → Int) (p : Text × Int) :
    Token.mapLine f (Cursor.stringToken p) = Cursor.stringToken (p.1, f p.2) := rfl

/-- A token list with its lines changed. -/
def TokenList.mapLines (f : Int → Int) (ts : TokenList) : TokenList :=
  ⟨ts.tokens.map (Token.mapLine f), f ts.endLine⟩

/-- An error with its line changed. -/
def Error.mapLine (f : Int → Int) (e : Error) : Error :=
  ⟨f e.line, e.cause⟩

/-- A statement of a body with its lines changed. -/
def Mode.mapLines (f : Int → Int) : (m : Mode) → m.Item → m.Item
  | .block, n => n.mapLines f
  | .dictionary, a => Attribute.mapLines f a

@[simp] theorem Mode.mapLines_block (f : Int → Int) :
    Mode.mapLines f .block = Node.mapLines f := rfl

@[simp] theorem Mode.mapLines_dictionary (f : Int → Int) :
    Mode.mapLines f .dictionary = Attribute.mapLines f := rfl

/-- The line of an attribute and the lines in its value change. -/
theorem Mode.mapLines_ofAttribute (f : Int → Int) (m : Mode) (a : Attribute) :
    m.mapLines f (m.ofAttribute a) = m.ofAttribute (Attribute.mapLines f a) := by
  cases m with
  | block => simp [ofAttribute, Node.mapLines]
  | dictionary => rfl

/-- A scalar has no lines. -/
theorem Scalar.mapLines_eq {s : Symbol} {v : Value} (h : Scalar s v) (f : Int → Int) :
    v.mapLines f = v := by
  cases h <;> rfl

/-- Lexemes that start some lines later have the same tokens, as many lines later. -/
theorem tokensFrom_add (line k : Int) (ls : List Lexeme) :
    tokensFrom (line + k) ls = (tokensFrom line ls).mapLines (· + k) := by
  induction ls generalizing line with
  | nil => rfl
  | cons l ls ih =>
      have hrest := ih (line + l.linesPassed)
      rw [Int.add_right_comm] at hrest
      rw [tokensFrom, tokensFrom, hrest]
      cases l.symbol? <;> rfl

/-- Behind lexemes the tokens of others start where the first ones end. -/
theorem tokensFrom_append (line : Int) (ls ms : List Lexeme) :
    tokensFrom line (ls ++ ms) =
      ⟨(tokensFrom line ls).tokens ++ (tokensFrom (tokensFrom line ls).endLine ms).tokens,
        (tokensFrom (tokensFrom line ls).endLine ms).endLine⟩ := by
  induction ls generalizing line with
  | nil => rfl
  | cons l ls ih =>
      have hrest := ih (line + l.linesPassed)
      rw [List.cons_append, tokensFrom, tokensFrom, hrest]
      cases l.symbol? <;> rfl

/-! ## Cursors and readings -/

namespace Cursor

/-- A cursor with its lines changed, some tokens further on. -/
def relocate (f : Int → Int) (n : Nat) (c : Cursor) : Cursor :=
  ⟨c.ahead.map (Token.mapLine f), f c.endLine, c.position + n⟩

variable (f : Int → Int) (n : Nat) (c : Cursor)

@[simp] theorem ahead_relocate : (c.relocate f n).ahead = c.ahead.map (Token.mapLine f) := rfl

@[simp] theorem symbol?_relocate : (c.relocate f n).symbol? = c.symbol? := by
  cases hc : c.ahead <;> simp [symbol?, hc]

@[simp] theorem line_relocate : (c.relocate f n).line = f c.line := by
  cases hc : c.ahead <;> simp [line, relocate, hc, Token.mapLine]

@[simp] theorem found_relocate : (c.relocate f n).found = c.found := by
  simp [found]

@[simp] theorem atMark_relocate (k : Mark) : (c.relocate f n).atMark k = c.atMark k := by
  simp [atMark]

@[simp] theorem atSeparator_relocate (m : Mode) :
    (c.relocate f n).atSeparator m = c.atSeparator m := by
  simp [atSeparator]

@[simp] theorem atStatementEnd_relocate :
    (c.relocate f n).atStatementEnd = c.atStatementEnd := by
  simp [atStatementEnd]

/-- Tokens are passed elsewhere as here. -/
@[simp] theorem skip_relocate (k : Nat) : (c.relocate f n).skip k = (c.skip k).relocate f n := by
  simp [skip, relocate, Nat.add_right_comm]

@[simp] theorem advance_relocate : (c.relocate f n).advance = c.advance.relocate f n := by
  rw [advance_eq_skip, advance_eq_skip, skip_relocate]

/-- Line ends are passed elsewhere as here. -/
@[simp] theorem pastNewlines_relocate :
    (c.relocate f n).pastNewlines = c.pastNewlines.relocate f n := by
  have hcount : (c.relocate f n).newlines = c.newlines := by
    simp [newlines, List.takeWhile_map, Function.comp_def]
  rw [pastNewlines_eq_skip, pastNewlines_eq_skip, hcount, skip_relocate]

@[simp] theorem strings_relocate : (c.relocate f n).strings = c.strings := by
  rw [strings, strings, ahead_relocate]
  generalize c.ahead = ts
  induction ts with
  | nil => rfl
  | cons t ts ih =>
      rcases t with ⟨s, l⟩
      cases s with
      | string t => exact congrArg (t :: ·) ih
      | _ => rfl

/-- Strings are passed elsewhere as here. -/
@[simp] theorem pastStrings_relocate :
    (c.relocate f n).pastStrings = c.pastStrings.relocate f n := by
  rw [pastStrings_eq_skip, pastStrings_eq_skip, strings_relocate, skip_relocate]

end Cursor

namespace Reading

variable {α β : Type} (f : Int → Int) (n : Nat) (g : α → α)

/-- A reading elsewhere: its result, its error and the cursor behind it with their lines
changed. -/
def relocate : Reading α → Reading α
  | (.ok a, c) => (.ok (g a), c.relocate f n)
  | (.error e, c) => (.error (e.mapLine f), c.relocate f n)

@[simp] theorem relocate_ok (a : α) (c : Cursor) :
    relocate f n g (.ok a, c) = (.ok (g a), c.relocate f n) := rfl

@[simp] theorem relocate_error (e : Error) (c : Cursor) :
    relocate f n g (.error e, c) = (.error (e.mapLine f), c.relocate f n) := rfl

/-- What is made of a reading here is elsewhere what is made of the reading elsewhere. -/
theorem relocate_map {g : α → α} {h : β → β} {k l : α → β} (hk : ∀ a, h (k a) = l (g a))
    (r : Reading α) : (r.map k).relocate f n h = (r.relocate f n g).map l := by
  rcases r with ⟨e | a, c⟩
  · rfl
  · simp [hk]

end Reading

/-! ## Readers -/

variable {f : Int → Int} {n : Nat} {c : Cursor} {m : Mode} {nested : Bool}

/-- Every reader does elsewhere what it does here. -/
structure Relocates (f : Int → Int) (n : Nat) (c : Cursor) : Prop where
  value : (c.relocate f n).value.reading = c.value.reading.relocate f n (Value.mapLines f)
  items : (c.relocate f n).items.reading =
    c.items.reading.relocate f n (List.map (Value.mapLines f))
  statement : ∀ m, ((c.relocate f n).statement m).reading =
    (c.statement m).reading.relocate f n (m.mapLines f)
  body : ∀ m nested, ((c.relocate f n).body m nested).reading =
    (c.body m nested).reading.relocate f n (List.map (m.mapLines f))

/-- The readers do so from every cursor with fewer tokens ahead. -/
def RelocatesBelow (f : Int → Int) (n : Nat) (c : Cursor) : Prop :=
  ∀ d : Cursor, d.ahead.length < c.ahead.length → Relocates f n d

/-- Behind line ends no more tokens are ahead. -/
theorem RelocatesBelow.pastNewlines (h : RelocatesBelow f n c) :
    RelocatesBelow f n c.pastNewlines :=
  fun d hd => h d (hd.trans_le (Cursor.length_ahead_pastNewlines_le c))

/-- A value is read elsewhere as here, where lists and dictionaries are. -/
theorem value_reading_relocate (ih : RelocatesBelow f n c) :
    (c.relocate f n).value.reading = c.value.reading.relocate f n (Value.mapLines f) := by
  rw [Cursor.value_reading, Cursor.value_reading, Cursor.symbol?_relocate]
  cases hs : c.symbol? with
  | none => simp [Error.mapLine]
  | some s =>
      have hpos := Cursor.length_ahead_pos hs
      have hbehind : Relocates f n c.advance := ih c.advance (by simp; omega)
      dsimp only
      cases hl : s.literal? with
      | some v =>
          have hscalar := scalar_iff.mpr hl
          simp [hscalar.mapLines_eq]
      | none =>
          dsimp only
          split
          · rw [Cursor.advance_relocate, hbehind.items]
            exact (Reading.relocate_map f n (by simp [Value.mapLines]) _).symm
          · split
            · rw [Cursor.advance_relocate, hbehind.body]
              exact (Reading.relocate_map f n (by simp [Value.mapLines]) _).symm
            · simp [Error.mapLine]

/-- The inside of a list is read elsewhere as here, where its values are. -/
theorem items_reading_relocate (ih : RelocatesBelow f n c) :
    (c.relocate f n).items.reading =
      c.items.reading.relocate f n (List.map (Value.mapLines f)) := by
  have hle := Cursor.length_ahead_pastNewlines_le c
  rw [Cursor.items_reading, Cursor.items_reading, Cursor.pastNewlines_relocate,
    Cursor.atMark_relocate, value_reading_relocate ih.pastNewlines]
  split
  · simp
  · cases hread : c.pastNewlines.value.reading with
    | mk result next =>
        cases result with
        | error e => rfl
        | ok v =>
            have hshort := Outcome.length_lt_of_reading hread
            have hnext := Cursor.length_ahead_pastNewlines_le next
            have hrest : Relocates f n next.pastNewlines.advance := ih _ (by simp; omega)
            simp only [Reading.relocate_ok, Cursor.pastNewlines_relocate, Cursor.atMark_relocate]
            split
            · rw [Cursor.pastNewlines_relocate, Cursor.advance_relocate, hrest.items]
              exact (Reading.relocate_map f n (by simp) _).symm
            · split <;> simp [Error.mapLine]

/-- A statement is read elsewhere as here, where its value or its body is. -/
theorem statement_reading_relocate (ih : RelocatesBelow f n c) :
    ((c.relocate f n).statement m).reading =
      (c.statement m).reading.relocate f n (m.mapLines f) := by
  rw [Cursor.statement_reading, Cursor.statement_reading, Cursor.symbol?_relocate]
  cases hname : c.symbol?.bind Symbol.name? with
  | none => simp [Error.mapLine]
  | some name =>
      rcases Option.bind_eq_some_iff.mp hname with ⟨s, hs, -⟩
      have hpos := Cursor.length_ahead_pos hs
      simp only [Cursor.advance_relocate, Cursor.atSeparator_relocate, Cursor.line_relocate]
      split
      · have hvalue : Relocates f n c.advance.advance := ih _ (by simp; omega)
        rw [Cursor.advance_relocate, Cursor.advance_relocate, hvalue.value]
        refine (Reading.relocate_map f n ?_ _).symm
        intro v
        exact m.mapLines_ofAttribute f ⟨name, v, c.line⟩
      · cases m with
        | dictionary => simp [Error.mapLine]
        | block =>
            have hstrings := Cursor.length_ahead_pastStrings_le c.advance
            have hbody : Relocates f n c.advance.pastStrings.advance :=
              ih _ (by simp at hstrings ⊢; omega)
            simp only [Cursor.pastStrings_relocate, Cursor.atMark_relocate,
              Cursor.strings_relocate, Cursor.advance_relocate]
            split
            · rw [Cursor.advance_relocate, Cursor.pastStrings_relocate, Cursor.advance_relocate,
                hbody.body]
              exact (Reading.relocate_map f n (by simp [Node.mapLines]) _).symm
            · simp [Error.mapLine]

/-- What follows a statement is read elsewhere as here, where bodies are. -/
theorem afterStatement_relocate (hbehind : Relocates f n c.advance) (hhere : Relocates f n c) :
    (c.relocate f n).afterStatement m nested =
      (c.afterStatement m nested).relocate f n (List.map (m.mapLines f)) := by
  simp only [Cursor.afterStatement, Cursor.atMark_relocate, Cursor.atStatementEnd_relocate,
    Cursor.symbol?_relocate, Cursor.line_relocate]
  split
  · rw [Cursor.advance_relocate, hbehind.body]
  · split
    · exact hhere.body m nested
    · rfl

/-- A body is read elsewhere as here, where its statements are. -/
theorem body_reading_relocate (ih : RelocatesBelow f n c) :
    ((c.relocate f n).body m nested).reading =
      (c.body m nested).reading.relocate f n (List.map (m.mapLines f)) := by
  have hle := Cursor.length_ahead_pastNewlines_le c
  rw [Cursor.body_reading, Cursor.body_reading, Cursor.pastNewlines_relocate,
    Cursor.symbol?_relocate, Cursor.atMark_relocate, statement_reading_relocate ih.pastNewlines]
  split
  · split <;> simp [Error.mapLine]
  · split
    · split <;> simp [Error.mapLine]
    · cases hread : (c.pastNewlines.statement m).reading with
      | mk result next =>
          cases result with
          | error e => rfl
          | ok s =>
              have hshort := Outcome.length_lt_of_reading hread
              have hbehind : Relocates f n next.advance := ih _ (by simp; omega)
              have hhere : Relocates f n next := ih _ (by omega)
              simp only [Reading.relocate_ok]
              rw [afterStatement_relocate hbehind hhere]
              exact (Reading.relocate_map f n (by simp) _).symm

/-- Every reader does elsewhere what it does here, from every cursor. -/
theorem relocates (f : Int → Int) (n : Nat) (c : Cursor) : Relocates f n c := by
  -- Every reader calls others only where fewer tokens are ahead, or moves on first.
  have hbelow : RelocatesBelow f n c := fun d _ => relocates f n d
  exact {
    value := value_reading_relocate hbelow
    items := items_reading_relocate hbelow
    statement := fun m => statement_reading_relocate hbelow
    body := fun m nested => body_reading_relocate hbelow }
termination_by c.ahead.length

/-! ## Derivations -/

/-- What is built from the tokens of a nonterminal, with its lines changed. -/
def Nonterminal.mapLines (f : Int → Int) : (X : Nonterminal) → X.Meaning → X.Meaning
  | .value, v => v.mapLines f
  | .items, vs => vs.map (Value.mapLines f)
  | .body m, ss => ss.map (m.mapLines f)
  | .rest m, ss => ss.map (m.mapLines f)
  | .statement m, s => m.mapLines f s

/-- Line ends are line ends on other lines. -/
theorem LineEnds.map {ns : List Token} (h : LineEnds ns) (f : Int → Int) :
    LineEnds (ns.map (Token.mapLine f)) := by
  intro t ht
  rcases List.mem_map.mp ht with ⟨u, hu, rfl⟩
  exact h u hu

/-- Tokens whose lines change derive what they derived, with its lines changed. -/
theorem Derives.mapLines {X : Nonterminal} {us : List Token} {a : X.Meaning}
    (h : Derives X us a) (f : Int → Int) :
    Derives X (us.map (Token.mapLine f)) (X.mapLines f a) := by
  induction h with
  | scalar hs =>
      rw [Nonterminal.mapLines, hs.mapLines_eq]
      exact .scalar hs
  | list hus ih => simpa [Nonterminal.mapLines, Value.mapLines] using Derives.list ih
  | dictionary hus ih =>
      simpa [Nonterminal.mapLines, Value.mapLines] using Derives.dictionary ih
  | noItem hns => exact .noItem (hns.map f)
  | lastItem hns hus hms ihus =>
      simpa [Nonterminal.mapLines] using Derives.lastItem (hns.map f) ihus (hms.map f)
  | item hns hus hms hws ihus ihws =>
      simpa [Nonterminal.mapLines] using Derives.item (hns.map f) ihus (hms.map f) ihws
  | noStatement hns => exact .noStatement (hns.map f)
  | statements hns hus hws ihus ihws =>
      simpa [Nonterminal.mapLines] using Derives.statements (hns.map f) ihus ihws
  | noRest => exact .noRest
  | lineEnd hus ih => exact .lineEnd ih
  | comma hus ih => exact .comma ih
  | assignment hs hus ih => exact .assignment hs ih
  | @block s name labels us ns k l e hs hus ih =>
      have hblock : Derives (.statement .block)
          (⟨s, f k⟩ :: (labels.map fun p => (p.1, f p.2)).map Cursor.stringToken ++
            ⟨.mark .braceOpen, f l⟩ :: us.map (Token.mapLine f) ++ [⟨.mark .braceClose, f e⟩])
          (.block ⟨name, ((labels.map fun p => (p.1, f p.2)).map Prod.fst).map Text.inner,
            ns.map (Node.mapLines f), f k⟩) :=
        .block hs ih
      simpa [Nonterminal.mapLines, Node.mapLines, Function.comp_def] using hblock
  | entry hs hq hus ih => exact .entry hs hq ih

end Ocl

end DeployGate
