import DeployGate.Ocl.Tree
import DeployGate.Text.Basic

/-!
# Steps of a deployment process

The blocks at the top level of a document are the steps of the process.  Of several
children with one name the last one counts.

Main results:

- `Text.unquoted_quote` says that a text between quotation marks loses them.
-/

namespace DeployGate

/-! ## Quotation marks -/

namespace Text

/-- A text without one pair of double quotation marks around it, if it has one. -/
def unquoted (t : Text) : Text :=
  if 2 ≤ t.length ∧ t.head? = some '"' ∧ t.getLast? = some '"' then t.inner else t

/-- A text between quotation marks loses them. -/
theorem unquoted_quote (t : Text) : unquoted ('"' :: t ++ ['"']) = t := by
  have h : ('"' :: (t ++ ['"'])).getLast? = some '"' := by
    rw [← List.cons_append, List.getLast?_append]
    rfl
  simp [unquoted, inner, h]

end Text

namespace Ocl

/-! ## Looking into a document -/

/-- The attribute that a part of a document is. -/
def Node.attribute? : Node → Option Attribute
  | .attribute a => some a
  | .block _ => none

/-- The block that a part of a document is. -/
def Node.block? : Node → Option Block
  | .attribute _ => none
  | .block b => some b

/-- The text of a scalar, without its quotation marks. -/
def Value.scalar? : Value → Option Text
  | .literal _ t => some t.unquoted
  | _ => none

/-- The last attribute of a block with the given name. -/
def Section.attribute? (b : Block) (name : Text) : Option Attribute :=
  ((b.children.filterMap Node.attribute?).filter fun a => a.name == name).getLast?

/-- The last block inside a block with the given name. -/
def Section.block? (b : Block) (name : Text) : Option Block :=
  ((b.children.filterMap Node.block?).filter fun c => c.name == name).getLast?

/-- The scalar that a block gives a name. -/
def Section.scalar? (b : Block) (name : Text) : Option Text :=
  (b.attribute? name).bind fun a => a.value.scalar?

end Ocl

/-! ## Steps -/

/-- A step of a deployment process. -/
abbrev Step := Ocl.Block

/-- The steps of a document: its blocks, in their order. -/
def Ocl.Document.steps (d : Ocl.Document) : List Step :=
  d.filterMap Ocl.Node.block?

namespace Step

/-- The step with the given index; negative indices count from the end. -/
def at? (steps : List Step) (index : Int) : Option Step :=
  match index with
  | .ofNat n => steps[n]?
  | .negSucc n => if n < steps.length then steps[steps.length - 1 - n]? else none

/-- The name that a step gives itself. -/
def name? (s : Step) : Option Text :=
  s.scalar? "name".toList

/-- The type of the action of a step. -/
def actionType? (s : Step) : Option Text :=
  (s.block? "action".toList).bind fun a => a.scalar? "action_type".toList

/-- The name of the step with the given index. -/
def nameAt? (steps : List Step) (index : Int) : Option Text :=
  (at? steps index).bind name?

/-- The action type of the step with the given index. -/
def actionTypeAt? (steps : List Step) (index : Int) : Option Text :=
  (at? steps index).bind actionType?

end Step

end DeployGate
