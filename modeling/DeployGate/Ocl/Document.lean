import DeployGate.Ocl.Cursor

/-!
# Reading documents

Statements stand on lines of their own; in a dictionary a comma may stand between
two of them as well.  A value is a scalar, a list or a dictionary.  Line ends inside
a list have no meaning.

Main results:

- `Cursor.value`, `Cursor.items`, `Cursor.statement` and `Cursor.body` read from any
  position, also behind an earlier failure, and always end.
- `Document.read` reads a whole text.
-/

namespace DeployGate

namespace Ocl

/-! ## Modes -/

/-- What a body holds: the attributes and blocks of a document or a block, or the
attributes of a dictionary. -/
inductive Mode where
  | block
  | dictionary
  deriving DecidableEq, Repr

namespace Mode

/-- What a statement of a body is. -/
abbrev Item : Mode → Type
  | .block => Node
  | .dictionary => Attribute

/-- An attribute as a statement of either kind of body. -/
def ofAttribute : (m : Mode) → Attribute → m.Item
  | .block, a => .attribute a
  | .dictionary, a => a

/-- The marks that may stand between a name and its value. -/
def isSeparator : Mode → Mark → Bool
  | _, .equals => true
  | .dictionary, .colon => true
  | _, _ => false

end Mode

/-! ## Leaves -/

/-- The scalar that a symbol spells, if it spells one. -/
def Symbol.literal? : Symbol → Option Value
  | .string t => some (.literal .string t)
  | .heredoc t => some (.literal .heredoc t)
  | .number t => some (.literal .number t)
  | .name t =>
    if t = "true".toList ∨ t = "false".toList then some (.literal .boolean t)
    else some (.literal .identifier t)
  | _ => none

/-- The name that a symbol spells, if it spells one: a string names what stands
between its marks. -/
def Symbol.name? : Symbol → Option Text
  | .string t => some t.inner
  | .name t => some t
  | _ => none

namespace Cursor

/-- Pass one token of the given kind. -/
def expect (kind : Text) (c : Cursor) : Except Error (Option Token) × Cursor :=
  if c.kind = kind then (.ok c.ahead.head?, c.advance)
  else (.error ⟨c.line, .kindExpected kind c.found⟩, c.advance)

/-- Whether the next token is a mark that separates a name from its value. -/
def atSeparator (m : Mode) (c : Cursor) : Bool :=
  match c.symbol? with
  | some (.mark k) => m.isSeparator k
  | _ => false

/-- Whether the next token is the given mark. -/
def atMark (k : Mark) (c : Cursor) : Bool :=
  c.symbol? == some (.mark k)

/-- Whether a statement may be over here: at a line end, at a closing brace, or at the
end of the document. -/
def atStatementEnd (c : Cursor) : Bool :=
  match c.symbol? with
  | none => true
  | some .newline => true
  | some (.mark .braceClose) => true
  | _ => false

/-! ## Readers -/

mutual

/-- Read a value. -/
def value (c : Cursor) : Outcome c.ahead.length Value :=
  match h : c.symbol? with
  | some s =>
    have hc := length_ahead_pos h
    match s.literal? with
    | some v => .parsed v c.advance (length_ahead_advance_lt hc)
    | none =>
      if s = .mark .bracketOpen then
        (items c.advance).map .list (length_ahead_advance_lt hc)
      else if s = .mark .braceOpen then
        (body .dictionary true c.advance).map .dictionary (length_ahead_advance_lt hc)
      else .failed ⟨c.line, .valueExpected c.found⟩ c.advance
  | none => .failed ⟨c.line, .valueExpected c.found⟩ c.advance
  termination_by (c.ahead.length, 0)
  decreasing_by all_goals exact Prod.Lex.left _ _ (length_ahead_advance_lt hc)

/-- Read the values of a list and its closing bracket, behind the opening one. -/
def items (c : Cursor) : Outcome (c.ahead.length + 1) (List Value) :=
  have hc := length_ahead_pastNewlines_le c
  if c.pastNewlines.atMark .bracketClose then
    .parsed [] c.pastNewlines.advance (by simp; omega)
  else
    match value c.pastNewlines with
    | .failed e stop => .failed e stop
    | .parsed v next shorter =>
      have hn := length_ahead_pastNewlines_le next
      if next.pastNewlines.atMark .comma then
        (items next.pastNewlines.advance).map (v :: ·) (by simp; omega)
      else if next.pastNewlines.atMark .bracketClose then
        .parsed [v] next.pastNewlines.advance (by simp; omega)
      else .failed ⟨next.pastNewlines.line, .commaExpected next.pastNewlines.found⟩
        next.pastNewlines
  termination_by (c.ahead.length, 1)
  decreasing_by
    · rcases Nat.lt_or_eq_of_le hc with h | h
      · exact Prod.Lex.left _ _ h
      · rw [h]; exact Prod.Lex.right _ Nat.zero_lt_one
    · exact Prod.Lex.left _ _ (by simp; omega)

/-- Read one statement: a name with a value, or, outside dictionaries, a name with
labels and a body in braces. -/
def statement (m : Mode) (c : Cursor) : Outcome c.ahead.length m.Item :=
  match h : c.symbol? with
  | none => .failed ⟨c.line, .nameExpected c.found⟩ c.advance
  | some s =>
    have hc := length_ahead_pos h
    match s.name? with
    | none => .failed ⟨c.line, .nameExpected c.found⟩ c.advance
    | some name =>
      if c.advance.atSeparator m then
        (value c.advance.advance).map (fun v => m.ofAttribute ⟨name, v, c.line⟩)
          (by simp; omega)
      else match m with
        | .dictionary => .failed ⟨c.line, .separatorExpected name⟩ c.advance
        | .block =>
          have hs := length_ahead_pastStrings_le c.advance
          if c.advance.pastStrings.atMark .braceOpen then
            (body .block true c.advance.pastStrings.advance).map
              (fun children =>
                .block ⟨name, c.advance.strings.map Text.inner, children, c.line⟩)
              (by simp at hs ⊢; omega)
          else
            .failed ⟨c.advance.pastStrings.line,
                .kindExpected [Mark.braceOpen.char] c.advance.pastStrings.found⟩
              c.advance.pastStrings.advance
  termination_by (c.ahead.length, 0)
  decreasing_by
    · exact Prod.Lex.left _ _ (by simp; omega)
    · exact Prod.Lex.left _ _ (by simp at hs ⊢; omega)

/-- Read statements up to a closing brace if the body is nested, and up to the end of
the document if it is not. -/
def body (m : Mode) (nested : Bool) (c : Cursor) :
    Outcome (c.ahead.length + 1) (List m.Item) :=
  have hc := length_ahead_pastNewlines_le c
  match c.pastNewlines.symbol? with
  | none =>
    if nested then .failed ⟨c.pastNewlines.line, .unexpectedEnd⟩ c.pastNewlines
    else .parsed [] c.pastNewlines (by omega)
  | some (.mark .braceClose) =>
    if nested then .parsed [] c.pastNewlines.advance (by simp; omega)
    else .failed ⟨c.pastNewlines.line, .unexpectedClose⟩ c.pastNewlines
  | some _ =>
    match statement m c.pastNewlines with
    | .failed e stop => .failed e stop
    | .parsed s next shorter =>
      if m = .dictionary ∧ next.atMark .comma then
        (body m nested next.advance).map (s :: ·) (by simp; omega)
      else if next.atStatementEnd then
        (body m nested next).map (s :: ·) (by omega)
      else .failed ⟨next.line, .lineEndExpected ((next.symbol?.map Symbol.text).getD [])⟩ next
  termination_by (c.ahead.length, 1)
  decreasing_by
    · rcases Nat.lt_or_eq_of_le hc with h | h
      · exact Prod.Lex.left _ _ h
      · rw [h]; exact Prod.Lex.right _ Nat.zero_lt_one
    · exact Prod.Lex.left _ _ (by simp; omega)
    · exact Prod.Lex.left _ _ (by omega)

end

end Cursor

/-! ## Whole texts -/

/-- Read all statements of a token list. -/
def TokenList.document (ts : TokenList) : Outcome (ts.tokens.length + 1) Document :=
  ts.start.body .block false

/-- The document that a text spells. -/
def Document.read (t : Text) : Except Error Document := do
  (← tokens t).document.result

end Ocl

end DeployGate
