import DeployGate.Yaml.Property
import DeployGate.Yaml.Scalar

/-!
# Tokens of a YAML text

Indentation is turned into tokens of its own: a block collection starts where a
line goes deeper and ends where a later line comes back.  Whether something is a
key shows only at the colon behind it, so the places where a key could have
started are remembered, and its token is put there afterwards.

Main results:

- `Yaml.tokens` is total: each round passes at least one character, so the length
  of the text is fuel enough.
- What `Yaml.tokens` gives in front of a fault is settled: nothing that could have
  followed would have changed it.
-/

namespace DeployGate

namespace Yaml

/-- A token of a YAML text. -/
inductive Token where
  | directive (d : Directive)
  | documentStart
  | documentEnd
  | blockSequenceStart
  | blockMappingStart
  | blockEnd
  | flowSequenceStart
  | flowSequenceEnd
  | flowMappingStart
  | flowMappingEnd
  | blockEntry
  | flowEntry
  | key
  | value
  | aliasOf (name : Text)
  | anchor (name : Text)
  | tag (t : Tag)
  | scalar (text : Text) (plain : Bool)
  deriving DecidableEq, Repr

/-! ## State -/

/-- A place where a key may have started: the number of tokens before it, its
offset, line and column, and whether there has to be a key. -/
structure KeyStart where
  tokensBefore : Nat
  offset : Nat
  line : Nat
  column : Nat
  required : Bool

/-- The state of a scan: the place, the tokens so far (latest first) with their
number, the flow depth, the indentation with those around it, whether a key may
start, and the key starts of each flow depth. -/
structure Scan where
  cursor : Cursor
  latest : List Token
  count : Nat
  depth : Nat
  indent : Int
  outer : List Int
  keyAllowed : Bool
  keyStarts : List (Nat × KeyStart)

namespace Scan

/-- The start of a scan. -/
def start (t : Text) : Scan :=
  ⟨Cursor.start t, [], 0, 0, -1, [], true, []⟩

/-- Whether the scan is inside a flow collection. -/
def inFlow (s : Scan) : Bool :=
  s.depth != 0

/-- Add a token. -/
def push (s : Scan) (t : Token) : Scan :=
  { s with latest := t :: s.latest, count := s.count + 1 }

/-- Add a token and pass the given number of characters. -/
def pushPast (s : Scan) (t : Token) (width : Nat) : Scan :=
  { s.push t with cursor := s.cursor.skip width }

/-- Put a token behind the first `n` tokens. -/
def insertAt (s : Scan) (n : Nat) (t : Token) : Scan :=
  let later := s.count - n
  { s with latest := s.latest.take later ++ t :: s.latest.drop later, count := s.count + 1 }

/-- The key start of the present flow depth. -/
def keyStart? (s : Scan) : Option KeyStart :=
  s.keyStarts.lookup s.depth

/-- Forget the key start of the present flow depth. -/
def forgetKey (s : Scan) : Scan :=
  { s with keyStarts := s.keyStarts.filter fun (depth, _) => depth != s.depth }

/-- Give up the key start of the present flow depth, which must not be required. -/
def dropKey (s : Scan) : Except Fault Scan :=
  match s.keyStart? with
  | some k => if k.required then .error .malformed else .ok s.forgetKey
  | none => .ok s

/-- Remember that a key may start here. -/
def saveKey (s : Scan) : Except Fault Scan := do
  if s.keyAllowed then
    let s ← s.dropKey
    let k : KeyStart := ⟨s.count, s.cursor.offset, s.cursor.line, s.cursor.column,
      !s.inFlow && s.indent == s.cursor.column⟩
    pure { s with keyStarts := s.keyStarts ++ [(s.depth, k)] }
  else pure s

/-- Whether a key start is on another line or too far back. -/
def isStale (s : Scan) (k : KeyStart) : Bool :=
  k.line != s.cursor.line || 1024 < s.cursor.offset - k.offset

/-- Forget the stale key starts, none of which may be required. -/
def dropStaleKeys (s : Scan) : Except Fault Scan :=
  if s.keyStarts.any fun (_, k) => s.isStale k && k.required then .error .malformed
  else .ok { s with keyStarts := s.keyStarts.filter fun (_, k) => !s.isStale k }

/-- The tokens that will stay the first ones, whatever follows: those in front of every
place where a key may turn out to have started. -/
def settled (s : Scan) : List Token :=
  let places := (s.keyStarts.filter fun (_, k) => !s.isStale k).map fun (_, k) => k.tokensBefore
  s.latest.reverse.take (places.foldl min s.count)

/-- End the block collections that are indented more than the given column. -/
def unwind (column : Int) : List Int → Scan → Scan
  | [], s => s
  | indent :: outer, s =>
    if column < s.indent then unwind column outer { s.push .blockEnd with indent, outer }
    else s

/-- End the block collections that a token at the given column closes. -/
def unwindTo (s : Scan) (column : Int) : Scan :=
  if s.inFlow then s else unwind column s.outer s

/-- Whether a collection starts at the given column, and the state inside it. -/
def deepen? (s : Scan) (column : Int) : Option Scan :=
  if s.indent < column then some { s with indent := column, outer := s.indent :: s.outer }
  else none

/-- Start a block collection at the present column unless one is open there. -/
def openBlock (s : Scan) (t : Token) : Scan :=
  match s.deepen? s.cursor.column with
  | some s => s.push t
  | none => s

/-! ## Space between tokens -/

/-- Pass space, comments and line ends.  A line end outside flow collections allows
a key to start. -/
def skipLayout : Nat → Scan → Scan
  | 0, s => s
  | fuel + 1, s =>
    let c := s.cursor.skipSpaces
    let c := if c.at? '#' then c.skipWhile (fun ch => !isBreak ch) else c
    match c.lineBreak? with
    | some (_, c) =>
      skipLayout fuel { s with cursor := c, keyAllowed := s.keyAllowed || !s.inFlow }
    | none => { s with cursor := c }

/-- Pass a byte order mark at the start of the text, then space. -/
def toNextToken (s : Scan) : Scan :=
  let s := if s.cursor.offset == 0 && s.cursor.at? '\ufeff' then
    { s with cursor := s.cursor.advance } else s
  skipLayout (s.cursor.rest.length + 1) s

/-! ## Tokens -/

/-- A document mark or a directive ends everything that is open. -/
def closeAll (s : Scan) : Except Fault Scan := do
  let s ← (s.unwindTo (-1)).dropKey
  pure { s with keyAllowed := false }

/-- The start of a flow collection, which may itself be a key. -/
def openFlow (s : Scan) (t : Token) : Except Fault Scan := do
  let s ← s.saveKey
  pure (({ s with depth := s.depth + 1, keyAllowed := true } : Scan).pushPast t 1)

/-- The end of a flow collection. -/
def closeFlow (s : Scan) (t : Token) : Except Fault Scan := do
  let s ← s.dropKey
  pure (({ s with depth := s.depth - 1, keyAllowed := false } : Scan).pushPast t 1)

/-- A comma between entries of a flow collection. -/
def flowEntry (s : Scan) : Except Fault Scan := do
  let s ← ({ s with keyAllowed := true } : Scan).dropKey
  pure (s.pushPast .flowEntry 1)

/-- A hyphen before an entry of a block sequence. -/
def blockEntry (s : Scan) : Except Fault Scan := do
  if !s.inFlow && !s.keyAllowed then throw .malformed
  let s := if s.inFlow then s else s.openBlock .blockSequenceStart
  let s ← ({ s with keyAllowed := true } : Scan).dropKey
  pure (s.pushPast .blockEntry 1)

/-- A question mark before a key. -/
def explicitKey (s : Scan) : Except Fault Scan := do
  if !s.inFlow && !s.keyAllowed then throw .malformed
  let s := if s.inFlow then s else s.openBlock .blockMappingStart
  let s ← ({ s with keyAllowed := !s.inFlow } : Scan).dropKey
  pure (s.pushPast .key 1)

/-- A colon before a value.  What stands at the remembered key start becomes a key,
and opens a mapping there if it is indented more than what is open. -/
def valueMark (s : Scan) : Except Fault Scan := do
  match s.keyStart? with
  | some k =>
    let s := s.forgetKey.insertAt k.tokensBefore .key
    let s := if s.inFlow then s else match s.deepen? k.column with
      | some s => s.insertAt k.tokensBefore .blockMappingStart
      | none => s
    pure (({ s with keyAllowed := false } : Scan).pushPast .value 1)
  | none =>
    if !s.inFlow && !s.keyAllowed then throw .malformed
    let s := if s.inFlow then s else s.openBlock .blockMappingStart
    let s ← ({ s with keyAllowed := !s.inFlow } : Scan).dropKey
    pure (s.pushPast .value 1)

/-- A token that may start a key and is read by the given reader. -/
def property (s : Scan) (read : Cursor → Except Fault (Token × Cursor)) : Except Fault Scan := do
  let s ← s.saveKey
  let (t, c) ← read s.cursor
  pure ({ s with cursor := c, keyAllowed := false }.push t)

/-- A block scalar. -/
def blockScalarToken (s : Scan) (folded : Bool) : Except Fault Scan := do
  let s ← ({ s with keyAllowed := true } : Scan).dropKey
  let (t, c) ← blockScalar folded s.indent s.cursor
  pure ({ s with cursor := c }.push (.scalar t false))

/-- A plain scalar. -/
def plainToken (s : Scan) : Except Fault Scan := do
  let s ← s.saveKey
  let p := plainScalar s.inFlow s.indent s.cursor
  pure ({ s with cursor := p.next, keyAllowed := p.keyAllowed }.push (.scalar p.text true))

/-- Whether a plain scalar starts here. -/
def startsPlain (s : Scan) (ch : Char) : Bool :=
  (!endsItem (some ch) && !"-?:,[]\x7b\x7d#&*!|>'\"%@`".contains ch) ||
    (!endsItem (s.cursor.peekAt 1) && (ch == '-' || (!s.inFlow && (ch == '?' || ch == ':'))))

/-- Read the token that starts with the given character. -/
def token (s : Scan) (ch : Char) : Except Fault Scan :=
  let c := s.cursor
  let spaced := endsItem (c.peekAt 1)
  if ch == '%' && c.column == 0 then do
    let s ← s.closeAll
    let (d, c) ← directive s.cursor
    pure ({ s with cursor := c }.push (.directive d))
  else if ch == '-' && c.column == 0 && c.atDocumentMark then do
    pure ((← s.closeAll).pushPast .documentStart 3)
  else if ch == '.' && c.column == 0 && c.atDocumentMark then do
    pure ((← s.closeAll).pushPast .documentEnd 3)
  else if ch == '[' then s.openFlow .flowSequenceStart
  else if ch == '\x7b' then s.openFlow .flowMappingStart
  else if ch == ']' then s.closeFlow .flowSequenceEnd
  else if ch == '\x7d' then s.closeFlow .flowMappingEnd
  else if ch == ',' then s.flowEntry
  else if ch == '-' && spaced then s.blockEntry
  else if ch == '?' && (s.inFlow || spaced) then s.explicitKey
  else if ch == ':' && (s.inFlow || spaced) then s.valueMark
  else if ch == '*' then s.property fun c => do
    let (name, c) ← anchorName c.advance
    pure (.aliasOf name, c)
  else if ch == '&' then s.property fun c => do
    let (name, c) ← anchorName c.advance
    pure (.anchor name, c)
  else if ch == '!' then s.property fun c => do
    let (t, c) ← Yaml.tag c
    pure (.tag t, c)
  else if (ch == '|' || ch == '>') && !s.inFlow then s.blockScalarToken (ch == '>')
  else if ch == '\'' || ch == '"' then s.property fun c => do
    let (t, c) ← quotedScalar (ch == '"') c
    pure (.scalar t false, c)
  else if s.startsPlain ch then s.plainToken
  else .error .malformed

/-- Pass the space before a token, and end the block collections that it closes. -/
def approach (s : Scan) : Except Fault Scan := do
  let s ← s.toNextToken.dropStaleKeys
  pure (s.unwindTo s.cursor.column)

end Scan

/-- The tokens of a text, and the fault behind them that lets none follow, if there is
one. -/
structure TokenRun where
  tokens : List Token
  fault : Option Fault
  deriving DecidableEq, Repr

namespace Scan

/-- The run that a fault ends. -/
def failing (s : Scan) (fault : Fault) : TokenRun :=
  ⟨s.settled, some fault⟩

/-- The run that ends at the end of the text, where all that is open ends. -/
def ending (s : Scan) : Except Fault TokenRun := do
  let s ← (s.unwindTo (-1)).dropKey
  pure ⟨s.latest.reverse, none⟩

/-- Read tokens up to the end of the text or a fault. -/
def run : Nat → Scan → TokenRun
  | 0, s => s.failing .malformed
  | fuel + 1, s =>
    match s.approach with
    | .error fault => s.failing fault
    | .ok ready =>
      match ready.cursor.peek with
      | none => match ready.ending with
        | .ok tokens => tokens
        | .error fault => s.failing fault
      | some ch => match ready.token ch with
        | .ok next => run fuel next
        | .error fault => s.failing fault

end Scan

/-- The tokens of a text.  A text that holds a character that is not allowed has none. -/
def tokens (t : Text) : TokenRun :=
  if t.all isAllowed then Scan.run (t.length + 1) (Scan.start t) else ⟨[], some .malformed⟩

end Yaml

end DeployGate
