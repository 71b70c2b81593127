import DeployGate.Yaml.Cursor

/-!
# Scalars of a YAML text

A scalar is written plainly, between quotation marks, or as an indented block.
Line ends inside a plain or quoted scalar fold into spaces; those of a literal
block stay.  Every loop below consumes a character per round, so the length of
the rest is fuel enough.
-/

namespace DeployGate

namespace Yaml

/-! ## Plain scalars -/

/-- Whether a character ends a plain scalar, given the character after it. -/
def endsPlain (inFlow : Bool) (c : Char) (next : Option Char) : Bool :=
  endsItem (some c) ||
    (c == ':' &&
      (endsItem next || (inFlow && (next.map (",[]\x7b\x7d".contains ·)).getD false))) ||
    (inFlow && ",?[]\x7b\x7d".contains c)

/-- The number of characters up to the end of a piece of a plain scalar. -/
def plainLength (inFlow : Bool) : Text → Nat
  | [] => 0
  | c :: rest => if endsPlain inFlow c rest.head? then 0 else plainLength inFlow rest + 1

/-- Line ends and spaces ahead: the line ends, the place behind them, and whether a
document mark was met there. -/
def foldedBreaks : Nat → Cursor → Text × Cursor × Bool
  | 0, c => ([], c, false)
  | fuel + 1, c =>
    if c.at? ' ' then foldedBreaks fuel c.advance
    else match c.lineBreak? with
      | none => ([], c, false)
      | some (ch, c) =>
        if c.atDocumentMark then ([ch], c, true)
        else
          let (breaks, c, stop) := foldedBreaks fuel c
          (ch :: breaks, c, stop)

/-- What a line end and the line ends after it fold into. -/
def fold (first : Char) (more : Text) : Text :=
  if first != '\n' then first :: more
  else if more.isEmpty then [' '] else more

/-- The space after a piece of a plain scalar: what it folds into, the place behind
it, and whether it holds a line end.  Nothing comes of space before a document
mark. -/
def plainSpace (c : Cursor) : Text × Cursor × Bool :=
  let (blanks, c) := c.takeWhile (· == ' ')
  match c.lineBreak? with
  | none => (blanks, c, false)
  | some (first, c) =>
    if c.atDocumentMark then ([], c, true)
    else
      let (more, c, stop) := foldedBreaks c.rest.length c
      if stop then ([], c, true) else (fold first more, c, true)

/-- A scanned plain scalar: its text, the place behind it, and whether a key may
start there. -/
structure PlainScalar where
  text : Text
  next : Cursor
  keyAllowed : Bool

/-- Read pieces of a plain scalar, each behind the space before it. -/
def plainPieces (inFlow : Bool) (indent : Int) : Nat → Text → Bool → Cursor → PlainScalar
  | 0, _, keyAllowed, c => ⟨[], c, keyAllowed⟩
  | fuel + 1, space, keyAllowed, c =>
    let n := plainLength inFlow c.rest
    if c.at? '#' || n == 0 then ⟨[], c, keyAllowed⟩
    else
      let piece := space ++ c.rest.take n
      let (space, c, broken) := plainSpace (c.skip n)
      if space.isEmpty || c.at? '#' || (!inFlow && (c.column : Int) < indent) then
        ⟨piece, c, broken⟩
      else
        let more := plainPieces inFlow indent fuel space broken c
        { more with text := piece ++ more.text }

/-- Read a plain scalar inside a collection with the given indentation. -/
def plainScalar (inFlow : Bool) (indent : Int) (c : Cursor) : PlainScalar :=
  plainPieces inFlow (indent + 1) c.rest.length [] false c

/-! ## Quoted scalars -/

/-- The character that a one-letter escape stands for. -/
def letterEscape? : Char → Option Char
  | '0' => some '\x00'
  | 'a' => some '\x07'
  | 'b' => some '\x08'
  | 't' => some '\t'
  | '\t' => some '\t'
  | 'n' => some '\n'
  | 'v' => some '\x0b'
  | 'f' => some '\x0c'
  | 'r' => some '\r'
  | 'e' => some '\x1b'
  | ' ' => some ' '
  | '"' => some '"'
  | '\\' => some '\\'
  | '/' => some '/'
  | 'N' => some '\x85'
  | '_' => some '\xa0'
  | 'L' => some '\u2028'
  | 'P' => some '\u2029'
  | _ => none

/-- The number of hexadecimal digits behind the letter of a numeric escape. -/
def codeLength? : Char → Option Nat
  | 'x' => some 2
  | 'u' => some 4
  | 'U' => some 8
  | _ => none

/-- The line ends inside a quoted scalar, with the blanks around them dropped. -/
def quotedBreaks : Nat → Cursor → Except Fault (Text × Cursor)
  | 0, c => .ok ([], c)
  | fuel + 1, c =>
    if c.atDocumentMark then .error .malformed
    else
      let c := c.skipWhile Text.isBlank
      match c.lineBreak? with
      | none => .ok ([], c)
      | some (ch, c) => do
        let (breaks, c) ← quotedBreaks fuel c
        pure (ch :: breaks, c)

/-- One escape of a doubly quoted scalar, behind its backslash. -/
def escape (c : Cursor) : Except Fault (Text × Cursor) :=
  match c.peek with
  | none => .error .malformed
  | some ch =>
    match letterEscape? ch, codeLength? ch with
    | some d, _ => .ok ([d], c.advance)
    | none, some n =>
      let digits := (c.rest.drop 1).take n
      let code := Text.toNat 16 digits
      if digits.length < n || !digits.all Text.isHexDigit then .error .malformed
      else if 0x10FFFF < code ∨ (0xD800 ≤ code ∧ code ≤ 0xDFFF) then .error (.codePoint code)
      else .ok ([Char.ofNat code], c.skip (n + 1))
    | none, none =>
      match c.lineBreak? with
      | some (_, c) => quotedBreaks (c.rest.length + 1) c
      | none => .error .malformed

/-- A character that a quoted scalar does not hold as it stands. -/
def isQuotedSpecial (c : Char) : Bool :=
  c == '\'' || c == '"' || c == '\\' || endsItem (some c)

/-- The part of a quoted scalar up to a blank, a line end or the closing mark. -/
def quotedPiece (double : Bool) : Nat → Cursor → Except Fault (Text × Cursor)
  | 0, c => .ok ([], c)
  | fuel + 1, c =>
    match c.rest with
    | [] => .ok ([], c)
    | ch :: rest =>
      if !isQuotedSpecial ch then goOn fuel [ch] c.advance
      else if ch == '\'' && !double && rest.head? == some '\'' then
        goOn fuel ['\''] (c.skip 2)
      else if (ch == '\'' && double) || ((ch == '"' || ch == '\\') && !double) then
        goOn fuel [ch] c.advance
      else if ch == '\\' then do
        let (t, c) ← escape c.advance
        goOn fuel t c
      else .ok ([], c)
where
  /-- Put characters in front of the rest of the part. -/
  goOn (fuel : Nat) (t : Text) (c : Cursor) : Except Fault (Text × Cursor) := do
    let (more, c) ← quotedPiece double fuel c
    pure (t ++ more, c)

/-- The space between two parts of a quoted scalar and what it folds into. -/
def quotedSpace (c : Cursor) : Except Fault (Text × Cursor) :=
  let (blanks, c) := c.takeWhile Text.isBlank
  if c.rest.isEmpty then .error .malformed
  else match c.lineBreak? with
    | none => .ok (blanks, c)
    | some (first, c) => do
      let (more, c) ← quotedBreaks (c.rest.length + 1) c
      pure (fold first more, c)

/-- The parts of a quoted scalar up to its closing mark. -/
def quotedParts (double : Bool) : Nat → Cursor → Except Fault (Text × Cursor)
  | 0, _ => .error .malformed
  | fuel + 1, c => do
    let (piece, c) ← quotedPiece double (c.rest.length + 1) c
    if c.at? (if double then '"' else '\'') then pure (piece, c.advance)
    else
      let (space, c) ← quotedSpace c
      let (more, c) ← quotedParts double fuel c
      pure (piece ++ space ++ more, c)

/-- Read a quoted scalar from its opening mark. -/
def quotedScalar (double : Bool) (c : Cursor) : Except Fault (Text × Cursor) :=
  quotedParts double (c.rest.length + 1) c.advance

/-! ## Block scalars -/

/-- What becomes of the line ends at the end of a block. -/
inductive Chomping where
  | strip
  | clip
  | keep
  deriving DecidableEq, Repr

/-- The indicators behind the mark of a block: the chomping and the indentation. -/
def blockHeader (c : Cursor) : Except Fault (Chomping × Option Nat × Cursor) :=
  let (chomping, c) := sign .clip c
  let (increment, c) := match c.peek with
    | some d => if d.isDigit then (some (d.toNat - '0'.toNat), c.advance) else (none, c)
    | none => (none, c)
  let (chomping, c) := if chomping == .clip then sign .clip c else (chomping, c)
  if increment == some 0 || !endsWord c.peek then .error .malformed
  else .ok (chomping, increment, c)
where
  /-- The chomping that a plus or minus sign asks for. -/
  sign (default : Chomping) (c : Cursor) : Chomping × Cursor :=
    if c.at? '+' then (.keep, c.advance)
    else if c.at? '-' then (.strip, c.advance)
    else (default, c)

/-- The empty lines before the first line of a block without an indentation
indicator, and the greatest column reached in them. -/
def leadingBreaks : Nat → Nat → Cursor → Text × Nat × Cursor
  | 0, column, c => ([], column, c)
  | fuel + 1, column, c =>
    if c.at? ' ' then
      let c := c.advance
      leadingBreaks fuel (max column c.column) c
    else match c.lineBreak? with
      | none => ([], column, c)
      | some (ch, c) =>
        let (breaks, column, c) := leadingBreaks fuel column c
        (ch :: breaks, column, c)

/-- The empty lines ahead, with up to `column` columns of indentation passed. -/
def indentedBreaks (column : Nat) : Nat → Cursor → Text × Cursor
  | 0, c => ([], c)
  | fuel + 1, c =>
    let c := c.skipIndent column
    match c.lineBreak? with
    | none => ([], c)
    | some (ch, c) =>
      let (breaks, c) := indentedBreaks column fuel c
      (ch :: breaks, c)

/-- The lines of a block from the given empty lines on: the text, the last line end
with the empty lines after it, and the place behind the block. -/
def blockLines (folded : Bool) (column : Nat) :
    Nat → Text → Cursor → Text × Text × Text × Cursor
  | 0, breaks, c => ([], [], breaks, c)
  | fuel + 1, breaks, c =>
    if c.column != column || c.rest.isEmpty then ([], [], breaks, c)
    else
      let flush := !((c.peek.map Text.isBlank).getD false)
      let (line, c) := c.takeWhile fun ch => !isBreak ch
      let (lineEnd, c) : Text × Cursor := match c.lineBreak? with
        | some (ch, c) => ([ch], c)
        | none => ([], c)
      let (after, c) := indentedBreaks column (c.rest.length + 1) c
      if c.column == column && !c.rest.isEmpty then
        let joint : Text :=
          if folded && lineEnd == ['\n'] && flush && !((c.peek.map Text.isBlank).getD false) then
            if after.isEmpty then [' '] else []
          else lineEnd
        let (more, last, tail, c) := blockLines folded column fuel after c
        (breaks ++ line ++ joint ++ more, last, tail, c)
      else (breaks ++ line, lineEnd, after, c)

/-- Read a block scalar from its mark, inside a collection with the given
indentation. -/
def blockScalar (folded : Bool) (indent : Int) (c : Cursor) : Except Fault (Text × Cursor) := do
  let (chomping, increment, c) ← blockHeader c.advance
  let c ← c.skipCommentLine
  let least := (max (indent + 1) 1).toNat
  let (breaks, column, c) : Text × Nat × Cursor := match increment with
    | some n =>
      let column := least + n - 1
      let (breaks, c) := indentedBreaks column (c.rest.length + 1) c
      (breaks, column, c)
    | none =>
      let (breaks, reached, c) := leadingBreaks (c.rest.length + 1) 0 c
      (breaks, max least reached, c)
  let (text, lineEnd, tail, c) := blockLines folded column (c.rest.length + 1) breaks c
  match chomping with
  | .strip => pure (text, c)
  | .clip => pure (text ++ lineEnd, c)
  | .keep => pure (text ++ lineEnd ++ tail, c)

end Yaml

end DeployGate
