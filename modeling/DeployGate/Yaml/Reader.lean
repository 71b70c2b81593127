import DeployGate.Yaml.Node
import DeployGate.Yaml.Plain

/-!
# Reading YAML

The value of a document is built from its nodes level by level: all nodes of a
level are looked at before those below them, each of them once, and the first fault
met in this order is the one reported.  A mapping turns the marks for default values
among its keys into texts when its turn comes, wherever else these nodes stand, so
what is built later depends on what was built before.

Main results:

- `Yaml.read` gives the value of a text that holds one document or none.
-/

namespace DeployGate

namespace Yaml

/-! ## Nodes by number -/

namespace Document

/-- The node with a given number. -/
def node (d : Document) (n : Ref) : Node :=
  d.nodes.getD n .foreign

/-- Whether a node as a key marks the default value of a mapping. -/
def isDefaultMark (d : Document) (n : Ref) : Bool :=
  match d.node n with
  | .plain t => isDefaultSign t
  | _ => false

/-- Whether a node as a key asks for the entries of another mapping. -/
def isMergeMark (d : Document) (n : Ref) : Bool :=
  match d.node n with
  | .plain t => isMergeSign t
  | _ => false

/-- Whether a node is a collection, which is no key. -/
def isCollection (d : Document) (n : Ref) : Bool :=
  match d.node n with
  | .sequence _ => true
  | .mapping _ => true
  | _ => false

end Document

/-! ## State -/

/-- The state of the building: the nodes that were looked at, the marks that are texts
by now, the texts that mappings stand for, and the collections whose parts are still
to be looked at, latest first. -/
structure Building where
  seen : Array Bool
  texts : Array Bool
  defaults : List (Ref × Text)
  pending : List Ref

/-- A step of the building. -/
abbrev Builder := StateT Building (Except Fault)

namespace Building

/-- The state before the first node of a document. -/
def start (d : Document) : Building :=
  let empty := Array.replicate d.nodes.size false
  ⟨empty, empty, [], []⟩

/-- Whether a node is in a set of nodes. -/
def holds (nodes : Array Bool) (n : Ref) : Bool :=
  nodes.getD n false

end Building

open Building

/-! ## Default values -/

/-- The text of a node that is wanted as a scalar, given the marks that are texts by
now.  That of a mapping is the one behind the first mark among its keys. -/
def scalarText? (d : Document) (texts : Array Bool) : Nat → Ref → Option Text
  | 0, _ => none
  | fuel + 1, n =>
    let behindMark (pairs : List (Ref × Ref)) : Option Text := do
      let (_, v) ← pairs.find? fun (k, _) => d.isDefaultMark k && !holds texts k
      scalarText? d texts fuel v
    match d.node n with
    | .plain t => some t
    | .text t => some t
    | .sequence _ => none
    | .mapping pairs => behindMark pairs
    | .defaulted pairs => behindMark pairs
    | .foreign => none

/-! ## Levels -/

/-- Look at a node by itself, its parts left aside. -/
def visitNew (d : Document) (n : Ref) : Builder Unit := do
  let b ← get
  match d.node n with
  | .plain t =>
    if d.isDefaultMark n then
      if !holds b.texts n then throw .malformed
    else
      let _ ← plainDatum t
  | .text _ => return
  | .sequence _ => set { b with pending := n :: b.pending }
  | .mapping _ => set { b with pending := n :: b.pending }
  | .defaulted _ =>
    match scalarText? d b.texts d.nodes.size n with
    | some t => set { b with defaults := (n, t) :: b.defaults }
    | none => throw .malformed
  | .foreign => throw .malformed

/-- Look at a node unless that has happened before. -/
def visit (d : Document) (n : Ref) : Builder Unit := do
  if !holds (← get).seen n then
    visitNew d n
    modify fun b => { b with seen := b.seen.setIfInBounds n true }

/-- Look at the parts of a collection. -/
def visitParts (d : Document) (n : Ref) : Builder Unit :=
  match d.node n with
  | .sequence items => items.forM (visit d)
  | .mapping pairs => do
    for (k, _) in pairs do
      if d.isMergeMark k then throw .malformed
      if d.isDefaultMark k then
        modify fun b => { b with texts := b.texts.setIfInBounds k true }
    for (k, v) in pairs do
      if d.isCollection k then throw .malformed
      visit d k
      visit d v
  | _ => return

/-- Look at the parts of the pending collections, and at the given number of levels
below them. -/
def visitLevels (d : Document) : Nat → Builder Unit
  | 0 => return
  | levels + 1 => do
    let b ← get
    if !b.pending.isEmpty then
      set { b with pending := [] }
      b.pending.reverse.forM (visitParts d)
      visitLevels d levels

/-- Look at all nodes of a document that its value is built from. -/
def visitAll (d : Document) : Builder Unit := do
  visit d d.root
  visitLevels d d.nodes.size

/-! ## Values -/

/-- The value of a node, given those of its parts and the texts that mappings stand
for. -/
def Node.toDatum (parts : Array Datum) (defaultText : Text) : Node → Datum
  | .plain t => match plainDatum t with
    | .ok d => d
    | .error _ => .text t
  | .text t => .text t
  | .sequence items => .list (items.map part)
  | .mapping pairs => .map (Datum.ofPairs (pairs.map fun (k, v) => (part k, part v)))
  | .defaulted _ => .text defaultText
  | .foreign => .null
where
  /-- The value of a part. -/
  part (n : Ref) : Datum := parts.getD n .null

namespace Document

/-- The values of all nodes of a document, each from those before it. -/
def datums (d : Document) (defaults : List (Ref × Text)) : Array Datum :=
  d.nodes.foldl (fun parts n =>
    parts.push (n.toDatum parts ((defaults.lookup parts.size).getD []))) #[]

/-- The value of a document, or the first fault in it. -/
def build (d : Document) : Except Fault Datum := do
  let ((), b) ← (visitAll d).run (Building.start d)
  pure ((d.datums b.defaults).getD d.root .null)

end Document

/-- The value of a text that holds one document; nothing where it holds none. -/
def read (t : Text) : Except Fault Datum := do
  match ← (tokens t).document with
  | none => pure .null
  | some d => d.build

end Yaml

end DeployGate
