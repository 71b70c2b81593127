import DeployGate.Ocl.Document

/-!
# Sessions

A session reads the tokens of one text by any calls in any order.  It goes on from where the
last call stopped, also behind a failed one and behind the end, and it can start over and read
the whole document.

Main results:

- `Session.tokens_call` says that no call changes the tokens.
-/

namespace DeployGate

namespace Ocl

/-! ## Calls -/

/-- What is asked of a cursor. -/
inductive Call where
  /-- What is next? -/
  | peek
  /-- Pass what is next. -/
  | next
  /-- Pass one token of the given kind. -/
  | expect (kind : Text)
  /-- Pass the line ends ahead. -/
  | pastNewlines
  | value
  /-- Read the values of a list and its closing bracket. -/
  | items
  | statement (m : Mode)
  | body (m : Mode) (nested : Bool)
  deriving DecidableEq, Repr

/-- What a call gives. -/
inductive Answer where
  | token (t : Token)
  /-- The end of the document, with its line. -/
  | ending (line : Int)
  | nothing
  | value (v : Value)
  | items (vs : List Value)
  | statement (m : Mode) (s : m.Item)
  | body (m : Mode) (ss : List m.Item)

/-- The next token, or the end. -/
def Cursor.next (c : Cursor) : Answer :=
  match c.ahead.head? with
  | some t => .token t
  | none => .ending c.endLine

/-- What a reader gives, as an answer, and the cursor behind it. -/
def Outcome.answer {α : Type} {n : Nat} (f : α → Answer) (o : Outcome n α) :
    Except Error Answer × Cursor :=
  (o.result.map f, o.cursor)

/-- Make a call at a cursor. -/
def Call.run : Call → Cursor → Except Error Answer × Cursor
  | .peek, c => (.ok c.next, c)
  | .next, c => (.ok c.next, c.advance)
  | .expect kind, c => ((c.expect kind).1.map fun _ => c.next, (c.expect kind).2)
  | .pastNewlines, c => (.ok .nothing, c.pastNewlines)
  | .value, c => c.value.answer .value
  | .items, c => c.items.answer .items
  | .statement m, c => (c.statement m).answer (.statement m)
  | .body m nested, c => (c.body m nested).answer (.body m)

/-! ## Sessions -/

/-- The tokens of a text and a cursor among them. -/
structure Session where
  tokens : TokenList
  cursor : Cursor
  deriving DecidableEq, Repr

namespace Session

/-- The session at the start of a text, if the text has tokens. -/
def ofText (t : Text) : Except Error Session :=
  (Ocl.tokens t).map fun ts => ⟨ts, ts.start⟩

/-- Make a call where the session is. -/
def call (s : Session) (k : Call) : Except Error Answer × Session :=
  ((k.run s.cursor).1, { s with cursor := (k.run s.cursor).2 })

/-- Make calls one after the other, whether they fail or not. -/
def calls (s : Session) : List Call → List (Except Error Answer) × Session
  | [] => ([], s)
  | k :: ks => ((s.call k).1 :: ((s.call k).2.calls ks).1, ((s.call k).2.calls ks).2)

/-- Start over and read the whole document. -/
def document (s : Session) : Except Error Document × Session :=
  (s.tokens.document.result, { s with cursor := s.tokens.document.cursor })

/-- No call changes the tokens. -/
@[simp] theorem tokens_call (s : Session) (k : Call) : (s.call k).2.tokens = s.tokens := rfl

/-- No calls change the tokens. -/
@[simp] theorem tokens_calls (s : Session) (ks : List Call) :
    (s.calls ks).2.tokens = s.tokens := by
  induction ks generalizing s with
  | nil => rfl
  | cons k ks ih => rw [calls, ih, tokens_call]

end Session

end Ocl

end DeployGate
