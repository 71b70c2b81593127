import DeployGate.Yaml.Cursor
import DeployGate.Text.Utf8

/-!
# Properties and directives of a YAML text

Anchors and tags decorate a node; directives stand before a document.
-/

namespace DeployGate

namespace Yaml

/-! ## Anchors -/

/-- Read the name of an anchor or an alias, behind its mark. -/
def anchorName (c : Cursor) : Except Fault (Text × Cursor) :=
  let (name, c) := c.takeWhile isNameChar
  let closed := endsItem c.peek || (c.peek.map ("?:,]\x7d%@`".contains ·)).getD false
  if name.isEmpty || !closed then .error .malformed else .ok (name, c)

/-! ## Tags -/

/-- A tag as it is written: a handle, if it has one, and what follows it. -/
structure Tag where
  handle : Option Text
  suffix : Text
  deriving DecidableEq, Repr

/-- Read a tag handle: a mark, or a name between two marks. -/
def tagHandle (c : Cursor) : Except Fault (Text × Cursor) :=
  if !c.at? '!' then .error .malformed
  else
    let next := c.advance
    if next.at? ' ' then .ok (['!'], next)
    else
      let (name, after) := next.takeWhile isNameChar
      if after.at? '!' then .ok ('!' :: name ++ ['!'], after.advance) else .error .malformed

/-- A character of a tag that stands for itself. -/
def isUriChar (c : Char) : Bool :=
  c.isAlphanum || "-;/?:@&=+$,_.!~*'()[]".contains c

/-- Read the bytes of percent escapes. -/
def uriBytes : Nat → Cursor → Except Fault (List UInt8 × Cursor)
  | 0, c => .ok ([], c)
  | fuel + 1, c =>
    if !c.at? '%' then .ok ([], c)
    else
      let digits := (c.rest.drop 1).take 2
      if digits.length < 2 || !digits.all Text.isHexDigit then .error .malformed
      else do
        let (bytes, c) ← uriBytes fuel (c.skip 3)
        pure (UInt8.ofNat (Text.toNat 16 digits) :: bytes, c)

/-- Read characters and escapes of a tag. -/
def uriParts : Nat → Cursor → Except Fault (Text × Cursor)
  | 0, c => .ok ([], c)
  | fuel + 1, c => do
    let (plain, c) := c.takeWhile isUriChar
    if !c.at? '%' then pure (plain, c)
    else
      let (bytes, c) ← uriBytes (c.rest.length + 1) c
      let decoded ← (Utf8.decode bytes).mapError fun _ => Fault.malformed
      let (more, c) ← uriParts fuel c
      pure (plain ++ decoded ++ more, c)

/-- Read the part of a tag behind its handle, which is not empty. -/
def tagUri (c : Cursor) : Except Fault (Text × Cursor) := do
  let (t, after) ← uriParts (c.rest.length + 1) c
  if after.offset == c.offset then .error .malformed else pure (t, after)

/-- Read a tag from its mark. -/
def tag (c : Cursor) : Except Fault (Tag × Cursor) := do
  let (found, c) ← read
  if endsWord c.peek then pure (found, c) else .error .malformed
where
  /-- Read a tag without looking at what follows it. -/
  read : Except Fault (Tag × Cursor) :=
    let next := c.advance
    if next.at? '<' then do
      let (suffix, c) ← tagUri next.advance
      if c.at? '>' then pure (⟨none, suffix⟩, c.advance) else .error .malformed
    else if endsItem next.peek then .ok (⟨none, ['!']⟩, next)
    else
      let word := next.rest.takeWhile fun ch => !(ch == ' ' || isBreak ch)
      do
        let (handle, c) ← if word.contains '!' then tagHandle c else .ok (['!'], next)
        let (suffix, c) ← tagUri c
        pure (⟨some handle, suffix⟩, c)

/-! ## Directives -/

/-- A directive; those of unknown name are passed over. -/
inductive Directive where
  | version (major minor : Nat)
  | tagHandle (handle start : Text)
  | other (name : Text)
  deriving DecidableEq, Repr

/-- Read a number of a version. -/
def versionNumber (c : Cursor) : Except Fault (Nat × Cursor) :=
  let (digits, c) := c.takeWhile Char.isDigit
  if digits.isEmpty then .error .malformed
  else match readDigits digits with
    | .ok n => .ok (n, c)
    | .error fault => .error (.numeral fault)

/-- Read what a directive of the given name says. -/
def directiveValue (name : Text) (c : Cursor) : Except Fault (Directive × Cursor) :=
  if name = "YAML".toList then do
    let (major, c) ← versionNumber c.skipSpaces
    if !c.at? '.' then .error .malformed
    let (minor, c) ← versionNumber c.advance
    if endsWord c.peek then pure (.version major minor, c) else .error .malformed
  else if name = "TAG".toList then do
    let (handle, c) ← tagHandle c.skipSpaces
    if !c.at? ' ' then .error .malformed
    let (start, c) ← tagUri c.skipSpaces
    if endsWord c.peek then pure (.tagHandle handle start, c) else .error .malformed
  else .ok (.other name, c.skipWhile fun ch => !isBreak ch)

/-- Read a directive from its mark to the end of its line. -/
def directive (c : Cursor) : Except Fault (Directive × Cursor) := do
  let (name, c) := c.advance.takeWhile isNameChar
  if name.isEmpty || !endsWord c.peek then .error .malformed
  let (found, c) ← directiveValue name c
  let c ← c.skipCommentLine
  pure (found, c)

end Yaml

end DeployGate
