import DeployGate.Ocl.Token
import DeployGate.Ocl.Tree

/-!
# Positions in a token list

A cursor is the tokens still ahead together with the number of tokens passed.
Behind the last token lies the end of the document, which can be passed any number
of times.

Main results:

- `Outcome` carries the progress of every reader: what is ahead after a success is
  shorter than a stated bound.
- `Cursor.length_ahead_pastNewlines_le` bounds what is ahead behind line ends.
-/

namespace DeployGate

namespace Ocl

/-! ## Cursors -/

/-- The tokens ahead, the line of the end behind them, and the number of tokens
passed. -/
structure Cursor where
  ahead : List Token
  endLine : Int
  position : Nat
  deriving DecidableEq, Repr

/-- The cursor before the first token. -/
def TokenList.start (ts : TokenList) : Cursor :=
  ⟨ts.tokens, ts.endLine, 0⟩

namespace Cursor

/-- Pass one token, or the end once more. -/
def advance (c : Cursor) : Cursor :=
  { c with ahead := c.ahead.tail, position := c.position + 1 }

/-- The symbol of the next token; none at the end. -/
def symbol? (c : Cursor) : Option Symbol :=
  c.ahead.head?.map Token.symbol

/-- The line of the next token, or of the end. -/
def line (c : Cursor) : Int :=
  (c.ahead.head?.map Token.line).getD c.endLine

/-- How messages call the next token. -/
def found (c : Cursor) : Text :=
  (c.symbol?.map Symbol.description).getD Symbol.endKind

/-- The kind of the next token. -/
def kind (c : Cursor) : Text :=
  (c.symbol?.map Symbol.kind).getD Symbol.endKind

/-- The number of line ends ahead. -/
def newlines (c : Cursor) : Nat :=
  (c.ahead.takeWhile fun t => t.symbol == .newline).length

/-- Pass the line ends ahead. -/
def pastNewlines (c : Cursor) : Cursor :=
  { c with ahead := c.ahead.drop c.newlines, position := c.position + c.newlines }

/-- The strings ahead. -/
def strings (c : Cursor) : List Text :=
  go c.ahead
where
  /-- The strings that some tokens start with. -/
  go : List Token → List Text
    | ⟨.string t, _⟩ :: ts => t :: go ts
    | _ => []

/-- Pass the strings ahead. -/
def pastStrings (c : Cursor) : Cursor :=
  { c with
    ahead := c.ahead.drop c.strings.length
    position := c.position + c.strings.length }

@[simp] theorem ahead_advance (c : Cursor) : c.advance.ahead = c.ahead.tail := rfl

/-- Passing a token takes it from what is ahead. -/
theorem length_ahead_advance (c : Cursor) : c.advance.ahead.length = c.ahead.length - 1 := by
  simp

/-- Passing a token makes what is ahead shorter when it is not empty. -/
theorem length_ahead_advance_lt {c : Cursor} (h : 0 < c.ahead.length) :
    c.advance.ahead.length < c.ahead.length := by
  rw [length_ahead_advance]
  exact Nat.sub_lt h Nat.zero_lt_one

/-- Passing line ends makes nothing ahead longer. -/
theorem length_ahead_pastNewlines_le (c : Cursor) :
    c.pastNewlines.ahead.length ≤ c.ahead.length := by
  simp [pastNewlines]

/-- Passing strings makes nothing ahead longer. -/
theorem length_ahead_pastStrings_le (c : Cursor) :
    c.pastStrings.ahead.length ≤ c.ahead.length := by
  simp [pastStrings]

/-- Some symbol is next only if some token is ahead. -/
theorem length_ahead_pos {c : Cursor} {s : Symbol} (h : c.symbol? = some s) :
    0 < c.ahead.length := by
  cases ha : c.ahead with
  | nil => simp [symbol?, ha] at h
  | cons t ts => simp

end Cursor

/-! ## Outcomes -/

/-- What reading gives: a result with the cursor behind it, fewer than `bound` tokens
being ahead there, or an error with the cursor where reading stopped. -/
inductive Outcome (bound : Nat) (α : Type) where
  | parsed (result : α) (next : Cursor) (shorter : next.ahead.length < bound)
  | failed (error : Error) (stop : Cursor)

namespace Outcome

/-- Change the result and weaken the bound. -/
def map {α β : Type} {m n : Nat} (f : α → β) (h : m ≤ n) : Outcome m α → Outcome n β
  | .parsed a next shorter => .parsed (f a) next (Nat.lt_of_lt_of_le shorter h)
  | .failed e stop => .failed e stop

/-- The cursor behind an outcome. -/
def cursor {α : Type} {n : Nat} : Outcome n α → Cursor
  | .parsed _ next _ => next
  | .failed _ stop => stop

/-- The result or the error of an outcome. -/
def result {α : Type} {n : Nat} : Outcome n α → Except Error α
  | .parsed a _ _ => .ok a
  | .failed e _ => .error e

end Outcome

end Ocl

end DeployGate
