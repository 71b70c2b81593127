import DeployGate.Text.Printable

/-!
# Quoted texts

Messages show a text between quotation marks, with an escape for every character
that could not be read back from the page.  Single marks are the rule; a text
that holds a single mark and no double mark stands between double marks.
-/

namespace DeployGate

namespace Text

/-- The mark that a shown text stands between. -/
def quoteMark (t : Text) : Char :=
  if t.contains '\'' && !t.contains '"' then '"' else '\''

/-- One character of a shown text: the mark and the backslash behind a backslash,
the usual letters for tab and line ends, and a hexadecimal code for what is not
printable. -/
def quotedChar (mark c : Char) : Text :=
  if c = mark || c = '\\' then ['\\', c]
  else if c = '\n' then ['\\', 'n']
  else if c = '\r' then ['\\', 'r']
  else if c = '\t' then ['\\', 't']
  else if isPrintable c then [c]
  else if c.toNat < 0x100 then '\\' :: 'x' :: toHex 2 c.toNat
  else if c.toNat < 0x10000 then '\\' :: 'u' :: toHex 4 c.toNat
  else '\\' :: 'U' :: toHex 8 c.toNat

/-- A text as messages show it. -/
def quoted (t : Text) : Text :=
  let mark := quoteMark t
  mark :: t.flatMap (quotedChar mark) ++ [mark]

end Text

end DeployGate
