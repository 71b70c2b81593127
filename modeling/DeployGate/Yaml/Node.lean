import DeployGate.Yaml.Token
import DeployGate.Yaml.Plain

/-!
# Nodes of a YAML document

The nodes of a document stand in a table, each behind its parts, and refer to their
parts by number.  An alias stands for the node that was anchored before it, so a node
may be a part of several others, and none is a part of itself.  Tokens are read only
as far as needed, so a fault behind them counts only where reading gets that far.

Main results:

- `TokenRun.document` is total: two nested calls consume at least one token, so twice
  the number of tokens, with a few to spare, is fuel enough.
-/

namespace DeployGate

namespace Yaml

/-- The number of a node in the table of its document. -/
abbrev Ref := Nat

/-- A node of a document. -/
inductive Node where
  /-- A scalar whose form says what it means. -/
  | plain (text : Text)
  /-- A scalar that is its own text. -/
  | text (text : Text)
  | sequence (items : List Ref)
  | mapping (pairs : List (Ref × Ref))
  /-- A mapping that stands for its default value. -/
  | defaulted (pairs : List (Ref × Ref))
  /-- A node with a tag that is not loaded. -/
  | foreign
  deriving DecidableEq, Repr

/-! ## State -/

/-- The state of the reading: the tokens ahead and the fault behind them, if there is
one, the nodes so far, the anchors with their nodes (none while the node is being
read), and the tag handles. -/
structure Reading where
  ahead : List Token
  fault : Option Fault
  nodes : Array Node
  anchors : List (Text × Option Ref)
  handles : List (Text × Text)

/-- A step that reads tokens. -/
abbrev Reader := StateT Reading (Except Fault)

namespace Reader

/-- The next token; none at the end of the text. -/
def peek : Reader (Option Token) := do
  let r ← get
  match r.ahead, r.fault with
  | t :: _, _ => return some t
  | [], none => return none
  | [], some fault => throw fault

/-- Pass a token. -/
def skip : Reader Unit :=
  modify fun r => { r with ahead := r.ahead.tail }

/-- Put a node into the table. -/
def add (n : Node) : Reader Ref :=
  modifyGet fun r => (r.nodes.size, { r with nodes := r.nodes.push n })

/-- Refuse what is ahead. -/
def refuse {α : Type} : Reader α :=
  throw .malformed

/-- Pass the given token and say so, or leave another one. -/
def passIf (t : Token) : Reader Bool := do
  if (← peek) == some t then
    skip
    return true
  else return false

/-- Whether one of the given tokens is next. -/
def atAny (ts : List Token) : Reader Bool := do
  return (← peek).any ts.contains

end Reader

open Reader

/-! ## Properties -/

/-- What begins the tags of the format itself. -/
def coreTagStart : Text :=
  "tag:yaml.org,2002:".toList

/-- The handles that every document has. -/
def defaultHandles : List (Text × Text) :=
  [("!".toList, "!".toList), ("!!".toList, coreTagStart)]

/-- A tag in full. -/
def fullTag (t : Tag) : Reader Text := do
  match t.handle with
  | none => return t.suffix
  | some handle =>
    match (← get).handles.lookup handle with
    | some start => return start ++ t.suffix
    | none => refuse

/-- The anchor and the tag in front of a node, in either order. -/
def properties : Reader (Option Text × Option Text) := do
  match ← peek with
  | some (.anchor name) =>
    skip
    match ← peek with
    | some (.tag t) =>
      skip
      return (some name, some (← fullTag t))
    | _ => return (some name, none)
  | some (.tag t) =>
    skip
    match ← peek with
    | some (.anchor name) =>
      skip
      return (some name, some (← fullTag t))
    | _ => return (none, some (← fullTag t))
  | _ => return (none, none)

/-- Take an anchor, which must be new. -/
def takeAnchor (name : Text) : Reader Unit := do
  let r ← get
  if (r.anchors.lookup name).isSome then refuse
  set { r with anchors := (name, none) :: r.anchors }

/-- Give an anchor its node. -/
def setAnchor (name : Text) (n : Ref) : Reader Unit :=
  modify fun r => { r with anchors := (name, some n) :: r.anchors }

/-- The tag of texts. -/
def textTag : Text :=
  coreTagStart ++ "str".toList

/-- The scalar with a given tag. -/
def taggedScalar (tag : Option Text) (text : Text) (plain : Bool) : Node :=
  match tag with
  | none => if plain then .plain text else .text text
  | some t =>
    if t = "!".toList then .plain text
    else if t = textTag then .text text
    else .foreign

/-- The sequence with a given tag. -/
def taggedSequence (tag : Option Text) (items : List Ref) : Node :=
  if tag.all fun t => t = "!".toList ∨ t = coreTagStart ++ "seq".toList then .sequence items
  else .foreign

/-- The mapping with a given tag.  Tagged as a text it stands for its default value. -/
def taggedMapping (tag : Option Text) (pairs : List (Ref × Ref)) : Node :=
  if tag.all fun t => t = "!".toList ∨ t = coreTagStart ++ "map".toList then .mapping pairs
  else if tag = some textTag then .defaulted pairs
  else .foreign

/-! ## Nodes -/

mutual

/-- Read a node.  Block collections start only where `block` says so, and a
sequence without indentation of its own only where `indentless` does. -/
def node : Nat → Bool → Bool → Reader Ref
  | 0, _, _ => refuse
  | fuel + 1, block, indentless => do
    if let some (.aliasOf name) ← peek then
      skip
      match (← get).anchors.lookup name with
      | some (some n) => return n
      | _ => refuse
    else
      let (anchor, tag) ← properties
      let _ ← peek
      if let some name := anchor then takeAnchor name
      let n ← content fuel block indentless (anchor.isSome || tag.isSome) tag
      if let some name := anchor then setAnchor name n
      return n

/-- Read what stands behind the properties of a node. -/
def content : Nat → Bool → Bool → Bool → Option Text → Reader Ref
  | 0, _, _, _, _ => refuse
  | fuel + 1, block, indentless, decorated, tag => do
    match ← peek with
    | some (.scalar text plain) =>
      skip
      add (taggedScalar tag text plain)
    | some .flowSequenceStart =>
      skip
      add (taggedSequence tag (← flowItems fuel true))
    | some .flowMappingStart =>
      skip
      add (taggedMapping tag (← flowPairs fuel true))
    | some .blockEntry =>
      if indentless then add (taggedSequence tag (← indentlessItems fuel))
      else absent decorated tag
    | some .blockSequenceStart =>
      if block then
        skip
        add (taggedSequence tag (← blockItems fuel))
      else absent decorated tag
    | some .blockMappingStart =>
      if block then
        skip
        add (taggedMapping tag (← blockPairs fuel))
      else absent decorated tag
    | _ => absent decorated tag
where
  /-- An empty scalar, which is a node only behind a property. -/
  absent (decorated : Bool) (tag : Option Text) : Reader Ref :=
    if decorated then add (taggedScalar tag [] true) else refuse

/-- Read a node unless one of the given tokens is next, which leaves an empty one. -/
def nodeUnless : Nat → List Token → Bool → Bool → Reader Ref
  | 0, _, _, _ => refuse
  | fuel + 1, ends, block, indentless => do
    if ← atAny ends then add (.plain []) else node fuel block indentless

/-- Read the entries of a block sequence and its end. -/
def blockItems : Nat → Reader (List Ref)
  | 0 => refuse
  | fuel + 1 => do
    if ← passIf .blockEntry then
      let item ← nodeUnless fuel [.blockEntry, .blockEnd] true false
      return item :: (← blockItems fuel)
    else if ← passIf .blockEnd then return []
    else refuse

/-- Read the entries of a sequence that has no indentation of its own. -/
def indentlessItems : Nat → Reader (List Ref)
  | 0 => refuse
  | fuel + 1 => do
    if ← passIf .blockEntry then
      let item ← nodeUnless fuel [.blockEntry, .key, .value, .blockEnd] true false
      return item :: (← indentlessItems fuel)
    else return []

/-- Read the pairs of a block mapping and its end. -/
def blockPairs : Nat → Reader (List (Ref × Ref))
  | 0 => refuse
  | fuel + 1 => do
    if ← passIf .key then
      let ends := [Token.key, .value, .blockEnd]
      let k ← nodeUnless fuel ends true true
      let v ← if ← passIf .value then nodeUnless fuel ends true true else add (.plain [])
      return (k, v) :: (← blockPairs fuel)
    else if ← passIf .blockEnd then return []
    else refuse

/-- Read the entries of a flow sequence and its end. -/
def flowItems : Nat → Bool → Reader (List Ref)
  | 0, _ => refuse
  | fuel + 1, first => do
    if ← passIf .flowSequenceEnd then return []
    else
      if !first then
        if !(← passIf .flowEntry) then refuse
      if ← passIf .key then
        let k ← nodeUnless fuel [.value, .flowEntry, .flowSequenceEnd] false false
        let v ← if ← passIf .value then
            nodeUnless fuel [.flowEntry, .flowSequenceEnd] false false
          else add (.plain [])
        let item ← add (.mapping [(k, v)])
        return item :: (← flowItems fuel false)
      else if ← passIf .flowSequenceEnd then return []
      else
        let item ← node fuel false false
        return item :: (← flowItems fuel false)

/-- Read the pairs of a flow mapping and its end. -/
def flowPairs : Nat → Bool → Reader (List (Ref × Ref))
  | 0, _ => refuse
  | fuel + 1, first => do
    if ← passIf .flowMappingEnd then return []
    else
      if !first then
        if !(← passIf .flowEntry) then refuse
      if ← passIf .key then
        let k ← nodeUnless fuel [.value, .flowEntry, .flowMappingEnd] false false
        let v ← if ← passIf .value then
            nodeUnless fuel [.flowEntry, .flowMappingEnd] false false
          else add (.plain [])
        return (k, v) :: (← flowPairs fuel false)
      else if ← passIf .flowMappingEnd then return []
      else
        let k ← node fuel false false
        let v ← add (.plain [])
        return (k, v) :: (← flowPairs fuel false)

end

/-! ## Documents -/

/-- Read the directives of a document into its tag handles. -/
def directiveHandles : List Token → Bool → List (Text × Text) →
    Except Fault (List (Text × Text) × List Token)
  | .directive (.version major _) :: ts, versioned, handles =>
    if versioned || major != 1 then .error .malformed else directiveHandles ts true handles
  | .directive (.tagHandle handle start) :: ts, versioned, handles =>
    if (handles.lookup handle).isSome then .error .malformed
    else directiveHandles ts versioned ((handle, start) :: handles)
  | .directive (.other _) :: ts, versioned, handles => directiveHandles ts versioned handles
  | ts, _, handles => .ok (handles ++ defaultHandles, ts)

/-- Read the directives of a document and the mark behind them. -/
def documentStart : Reader Unit := do
  let r ← get
  let (handles, ahead) ← directiveHandles r.ahead false []
  set { r with ahead, handles }
  if !(← passIf .documentStart) then refuse

/-- Pass document ends. -/
def documentEnds : Reader Unit :=
  modify fun r => { r with ahead := r.ahead.dropWhile (· == .documentEnd) }

/-- Whether a document with its own start has no node. -/
def atDocumentBoundary : Reader Bool := do
  match ← peek with
  | none => return true
  | some (.directive _) => return true
  | some .documentStart => return true
  | some .documentEnd => return true
  | _ => return false

/-- A document: its nodes, and the number of the one that holds the others. -/
structure Document where
  nodes : Array Node
  root : Ref
  deriving DecidableEq, Repr

/-- Read the root of the only document, if there is one.  A second document is
refused. -/
def root (fuel : Nat) : Reader (Option Ref) := do
  match ← peek with
  | none => return none
  | some (.directive _) =>
    documentStart
    finish (← explicit)
  | some .documentStart =>
    documentStart
    finish (← explicit)
  | _ => finish (← node fuel true false)
where
  /-- The node behind the start of a document. -/
  explicit : Reader Ref := do
    if ← atDocumentBoundary then add (.plain []) else node fuel true false
  /-- A document ends at the end of the text, document ends apart. -/
  finish (n : Ref) : Reader (Option Ref) := do
    documentEnds
    match ← peek with
    | none => return some n
    | some _ =>
      documentStart
      refuse

/-- The only document of some tokens, if they hold one. -/
def TokenRun.document (ts : TokenRun) : Except Fault (Option Document) := do
  let start : Reading := ⟨ts.tokens, ts.fault, #[], [], defaultHandles⟩
  let (found, r) ← (root (4 * ts.tokens.length + 4)).run start
  pure (found.map fun n => ⟨r.nodes, n⟩)

end Yaml

end DeployGate
