import DeployGate.Datum.Basic

/-!
# Places in a YAML text

A cursor is the rest of a text together with its offset, line and column.  Besides
the line feed and the carriage return, three characters of other scripts break
lines.
-/

namespace DeployGate

namespace Yaml

/-! ## Faults -/

/-- Why a text is not loaded. -/
inductive Fault where
  /-- The text is no YAML document, or holds what cannot be loaded. -/
  | malformed
  /-- An escape names a code above the last code point, or half of a surrogate pair. -/
  | codePoint (code : Nat)
  /-- A numeral is refused. -/
  | numeral (fault : NumeralFault)
  /-- A text should be a truth value and is none. -/
  | truthWord (text : Text)
  /-- A date is impossible. -/
  | date (fault : DateFault)
  deriving DecidableEq, Repr

/-! ## Characters -/

/-- A character that ends a line. -/
def isBreak (c : Char) : Bool :=
  c == '\n' || c == '\r' || c == '\x85' || c == '\u2028' || c == '\u2029'

/-- A space, a line end or the end of the text. -/
def endsWord : Option Char → Bool
  | none => true
  | some c => c == ' ' || isBreak c

/-- A blank, a line end or the end of the text. -/
def endsItem : Option Char → Bool
  | none => true
  | some c => Text.isBlank c || isBreak c

/-- A letter, a digit, a hyphen or an underscore. -/
def isNameChar (c : Char) : Bool :=
  c.isAlphanum || c == '-' || c == '_'

/-- A character that a text may hold at all. -/
def isAllowed (c : Char) : Bool :=
  let n := c.toNat
  n == 0x09 || n == 0x0A || n == 0x0D || (0x20 ≤ n && n ≤ 0x7E) || n == 0x85 ||
    (0xA0 ≤ n && n ≤ 0xD7FF) || (0xE000 ≤ n && n ≤ 0xFFFD) || 0x10000 ≤ n

/-! ## Cursors -/

/-- The rest of a text and where it starts. -/
structure Cursor where
  rest : Text
  offset : Nat
  line : Nat
  column : Nat

namespace Cursor

/-- The start of a text. -/
def start (t : Text) : Cursor :=
  ⟨t, 0, 0, 0⟩

/-- The next character. -/
def peek (c : Cursor) : Option Char :=
  c.rest.head?

/-- The character after the given number of characters. -/
def peekAt (c : Cursor) (n : Nat) : Option Char :=
  c.rest[n]?

/-- Whether the next character is the given one. -/
def at? (c : Cursor) (ch : Char) : Bool :=
  c.peek == some ch

/-- Pass one character.  A byte order mark has no width. -/
def advance (c : Cursor) : Cursor :=
  match c.rest with
  | [] => c
  | ch :: rest =>
    if isBreak ch && !(ch == '\r' && rest.head? == some '\n') then
      ⟨rest, c.offset + 1, c.line + 1, 0⟩
    else if ch == '\ufeff' then { c with rest, offset := c.offset + 1 }
    else { c with rest, offset := c.offset + 1, column := c.column + 1 }

/-- Pass several characters. -/
def skip : Nat → Cursor → Cursor
  | 0, c => c
  | n + 1, c => skip n c.advance

/-- The characters ahead that satisfy `p`, and the place behind them. -/
def takeWhile (p : Char → Bool) (c : Cursor) : Text × Cursor :=
  let t := c.rest.takeWhile p
  (t, c.skip t.length)

/-- The place behind the characters ahead that satisfy `p`. -/
def skipWhile (p : Char → Bool) (c : Cursor) : Cursor :=
  (c.takeWhile p).2

/-- Pass spaces. -/
def skipSpaces (c : Cursor) : Cursor :=
  c.skipWhile (· == ' ')

/-- Pass spaces while the column is below the given one. -/
def skipIndent (column : Nat) (c : Cursor) : Cursor :=
  let spaces := (c.rest.takeWhile (· == ' ')).length
  c.skip (min spaces (column - c.column))

/-- The character that one line end reads as, and the place behind it. -/
def lineBreak? (c : Cursor) : Option (Char × Cursor) :=
  match c.rest with
  | '\r' :: '\n' :: _ => some ('\n', c.skip 2)
  | ch :: _ =>
    if ch == '\u2028' || ch == '\u2029' then some (ch, c.advance)
    else if isBreak ch then some ('\n', c.advance)
    else none
  | [] => none

/-- Whether a line with three hyphens or three full stops starts here. -/
def atDocumentMark (c : Cursor) : Bool :=
  (c.rest.take 3 == ['-', '-', '-'] || c.rest.take 3 == ['.', '.', '.']) &&
    endsItem (c.peekAt 3)

/-- The rest of a line that may hold a comment only. -/
def skipCommentLine (c : Cursor) : Except Fault Cursor :=
  let c := c.skipSpaces
  let c := if c.at? '#' then c.skipWhile (fun ch => !isBreak ch) else c
  match c.lineBreak? with
  | some (_, c) => .ok c
  | none => if c.rest.isEmpty then .ok c else .error .malformed

end Cursor

end Yaml

end DeployGate
