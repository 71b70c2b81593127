import DeployGate.Text.Basic

/-!
# Documents

A document is a list of attributes and blocks.  An attribute gives a name a value;
a block has labels and holds further attributes and blocks.  A dictionary holds
attributes only, which its type says.
-/

namespace DeployGate

namespace Ocl

/-- What a scalar was written as. -/
inductive LiteralKind where
  | string
  | heredoc
  | number
  | boolean
  | identifier
  deriving DecidableEq, Repr

/-- A name with a value of some kind, and the line of the name. -/
structure Binding (α : Type) where
  name : Text
  value : α
  line : Int
  deriving DecidableEq, Repr

/-- A value: a scalar with its text as written, a list, or a dictionary. -/
inductive Value where
  | literal (kind : LiteralKind) (text : Text)
  | list (items : List Value)
  | dictionary (entries : List (Binding Value))
  deriving Repr

/-- A name with a value. -/
abbrev Attribute := Binding Value

/-- A name with labels and children of some kind, and the line of the name. -/
structure Section (α : Type) where
  name : Text
  labels : List Text
  children : List α
  line : Int
  deriving DecidableEq, Repr

/-- A part of a document: an attribute, or a block with parts of its own. -/
inductive Node where
  | attribute (a : Attribute)
  | block (b : Section Node)
  deriving Repr

/-- A name with labels and further parts of a document. -/
abbrev Block := Section Node

/-- The parts of a document in the order of the text. -/
abbrev Document := List Node

/-! ## Equality -/

mutual

/-- Decide whether two values are equal. -/
def decideValue : (v w : Value) → Decidable (v = w)
  | .literal k s, .literal l t =>
    if h : k = l ∧ s = t then isTrue (by rw [h.1, h.2]) else isFalse fun e => h (by simpa using e)
  | .list vs, .list ws =>
    match decideValues vs ws with
    | isTrue h => isTrue (by rw [h])
    | isFalse h => isFalse fun e => h (by simpa using e)
  | .dictionary es, .dictionary fs =>
    match decideEntries es fs with
    | isTrue h => isTrue (by rw [h])
    | isFalse h => isFalse fun e => h (by simpa using e)
  | .literal .., .list _ => isFalse Value.noConfusion
  | .literal .., .dictionary _ => isFalse Value.noConfusion
  | .list _, .literal .. => isFalse Value.noConfusion
  | .list _, .dictionary _ => isFalse Value.noConfusion
  | .dictionary _, .literal .. => isFalse Value.noConfusion
  | .dictionary _, .list _ => isFalse Value.noConfusion

/-- Decide whether two lists of values are equal. -/
def decideValues : (vs ws : List Value) → Decidable (vs = ws)
  | [], [] => isTrue rfl
  | [], _ :: _ => isFalse (by simp)
  | _ :: _, [] => isFalse (by simp)
  | v :: vs, w :: ws =>
    match decideValue v w, decideValues vs ws with
    | isTrue h, isTrue i => isTrue (by rw [h, i])
    | isFalse h, _ => isFalse fun e => h (by simpa using And.left (by simpa using e))
    | _, isFalse i => isFalse fun e => i (by simpa using And.right (by simpa using e))

/-- Decide whether two lists of dictionary entries are equal. -/
def decideEntries : (es fs : List (Binding Value)) → Decidable (es = fs)
  | [], [] => isTrue rfl
  | [], _ :: _ => isFalse (by simp)
  | _ :: _, [] => isFalse (by simp)
  | ⟨n, v, k⟩ :: es, ⟨m, w, l⟩ :: fs =>
    if h : n = m ∧ k = l then
      match decideValue v w, decideEntries es fs with
      | isTrue i, isTrue j => isTrue (by rw [h.1, h.2, i, j])
      | isFalse i, _ => isFalse fun e => i (by simp at e; exact e.1.2.1)
      | _, isFalse j => isFalse fun e => j (by simp at e; exact e.2)
    else isFalse fun e => h (by simp at e; exact ⟨e.1.1, e.1.2.2⟩)

end

instance : DecidableEq Value := decideValue

mutual

/-- Decide whether two parts of a document are equal. -/
def decideNode : (m n : Node) → Decidable (m = n)
  | .attribute a, .attribute b =>
    if h : a = b then isTrue (by rw [h]) else isFalse fun e => h (by simpa using e)
  | .block ⟨n, ls, cs, k⟩, .block ⟨m, ms, ds, l⟩ =>
    if h : n = m ∧ ls = ms ∧ k = l then
      match decideNodes cs ds with
      | isTrue i => isTrue (by rw [h.1, h.2.1, h.2.2, i])
      | isFalse i => isFalse fun e => i (by simp at e; exact e.2.2.1)
    else isFalse fun e => h (by simp at e; exact ⟨e.1, e.2.1, e.2.2.2⟩)
  | .attribute _, .block _ => isFalse Node.noConfusion
  | .block _, .attribute _ => isFalse Node.noConfusion

/-- Decide whether two lists of parts are equal. -/
def decideNodes : (ms ns : List Node) → Decidable (ms = ns)
  | [], [] => isTrue rfl
  | [], _ :: _ => isFalse (by simp)
  | _ :: _, [] => isFalse (by simp)
  | m :: ms, n :: ns =>
    match decideNode m n, decideNodes ms ns with
    | isTrue h, isTrue i => isTrue (by rw [h, i])
    | isFalse h, _ => isFalse fun e => h (by simp at e; exact e.1)
    | _, isFalse i => isFalse fun e => i (by simp at e; exact e.2)

end

instance : DecidableEq Node := decideNode

end Ocl

end DeployGate
