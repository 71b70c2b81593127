import DeployGate.Json.Fault

/-!
# JSON strings

A string runs from a quotation mark to the next one that is not escaped.  Two
escaped halves of a surrogate pair are one character; a half on its own is none, and
is refused.
-/

namespace DeployGate

namespace Json

/-- A failure at a place that is given by the number of characters left there. -/
inductive Failure where
  | misfit (cause : Cause) (left : Nat)
  | numeral (fault : NumeralFault)
  | loneSurrogate

/-- The character that a one-letter escape stands for. -/
def letterEscape? : Char → Option Char
  | '"' => some '"'
  | '\\' => some '\\'
  | '/' => some '/'
  | 'b' => some '\x08'
  | 'f' => some '\x0c'
  | 'n' => some '\n'
  | 'r' => some '\r'
  | 't' => some '\t'
  | _ => none

/-- The number that four hexadecimal digits denote. -/
def hexCode? (a b c d : Char) : Option Nat :=
  if [a, b, c, d].all Text.isHexDigit then some (Text.toNat 16 [a, b, c, d]) else none

/-- The first half of a surrogate pair. -/
def isHighSurrogate (code : Nat) : Bool :=
  0xD800 ≤ code && code ≤ 0xDBFF

/-- The second half of a surrogate pair. -/
def isLowSurrogate (code : Nat) : Bool :=
  0xDC00 ≤ code && code ≤ 0xDFFF

/-- The code point of a surrogate pair. -/
def joinSurrogates (high low : Nat) : Nat :=
  0x10000 + (high - 0xD800) * 0x400 + (low - 0xDC00)

/-- The character of a code that an escape names, if it is not half of a pair. -/
def charOfCode (code : Nat) : Except Failure Char :=
  if isHighSurrogate code || isLowSurrogate code then .error .loneSurrogate
  else .ok (Char.ofNat code)

/-- Put a character in front of the text of a result. -/
def prepend (c : Char) (result : Except Failure (Text × Text)) :
    Except Failure (Text × Text) :=
  result.map fun (t, rest) => (c :: t, rest)

/-- The second half of a surrogate pair that follows its first half, with at least
one character behind it. -/
def secondHalf? (code : Nat) (t : Text) : Except Failure (Option Nat) :=
  match t with
  | '\\' :: 'u' :: a :: b :: c :: d :: _ :: rest =>
    if isHighSurrogate code then
      match hexCode? a b c d with
      | none => .error (.misfit .unicodeEscape (rest.length + 6))
      | some low => .ok (if isLowSurrogate low then some low else none)
    else .ok none
  | _ => .ok none

mutual

/-- Read a string behind its opening mark, at which the text `opening` was left: the text
it spells and what follows the closing mark. -/
def quotedBody (opening : Text) (t : Text) : Except Failure (Text × Text) :=
  match t with
  | [] => .error (.misfit .unterminatedString opening.length)
  | '"' :: rest => .ok ([], rest)
  | ['\\'] => .error (.misfit .unterminatedString opening.length)
  | '\\' :: 'u' :: a :: b :: c :: d :: e :: rest =>
    match hexCode? a b c d with
    | none => .error (.misfit .unicodeEscape (rest.length + 6))
    | some code => quotedRest opening code (e :: rest)
  | '\\' :: 'u' :: rest => .error (.misfit .unicodeEscape (rest.length + 1))
  | '\\' :: c :: rest =>
    match letterEscape? c with
    | none => .error (.misfit .escape (rest.length + 2))
    | some d => prepend d (quotedBody opening rest)
  | c :: rest =>
    if c.toNat < 0x20 then .error (.misfit .controlCharacter (rest.length + 1))
    else prepend c (quotedBody opening rest)
  termination_by (t.length, 0)

/-- Go on behind an escaped code, which may be the first half of a surrogate pair. -/
def quotedRest (opening : Text) (code : Nat) (t : Text) : Except Failure (Text × Text) :=
  match secondHalf? code t with
  | .error failure => .error failure
  | .ok none => match charOfCode code with
    | .error failure => .error failure
    | .ok c => prepend c (quotedBody opening t)
  | .ok (some low) =>
    prepend (Char.ofNat (joinSurrogates code low)) (quotedBody opening (t.drop 6))
  termination_by (t.length, 1)
  decreasing_by
    all_goals simp_wf
    · exact Prod.Lex.right _ Nat.zero_lt_one
    · rcases Nat.eq_zero_or_pos t.length with h | h
      · have : t = [] := List.length_eq_zero_iff.1 h
        subst this
        exact Prod.Lex.right _ Nat.zero_lt_one
      · exact Prod.Lex.left _ _ (by omega)

end

end Json

end DeployGate
