import DeployGate.Json.Quoted
import DeployGate.Datum.Basic

/-!
# Reading JSON

The reader accepts JSON texts and, beyond them, the three numbers that are not
finite under the names `NaN`, `Infinity` and `-Infinity`.  A name that occurs
twice in an object keeps its first place and takes its last value.

Main results:

- `Json.read` is total: its fuel is twice the length of the text, and every two
  nested calls consume at least one character.
-/

namespace DeployGate

namespace Json

/-! ## Leaves -/

/-- A space, a tab or a line end. -/
def isSpace (c : Char) : Bool :=
  c == ' ' || c == '\t' || c == '\n' || c == '\r'

/-- A text without the space it starts with. -/
def skipSpace (t : Text) : Text :=
  t.dropWhile isSpace

/-- The words that stand for a value. -/
def words : List (Text × Datum) :=
  [("null".toList, .null), ("true".toList, .bool true), ("false".toList, .bool false),
    ("NaN".toList, .number (.double .nan)),
    ("Infinity".toList, .number (.double (.infinite false))),
    ("-Infinity".toList, .number (.double (.infinite true)))]

/-- The value of a word that a text starts with, and what follows it. -/
def word? (t : Text) : Option (Datum × Text) :=
  words.findSome? fun (w, d) => (Text.after? w t).map fun rest => (d, rest)

/-- The digits of a fraction that a text starts with, and what follows them. -/
def fraction (t : Text) : Text × Text :=
  match t with
  | '.' :: rest =>
    let digits := rest.takeWhile Char.isDigit
    if digits.isEmpty then ([], t) else (digits, rest.drop digits.length)
  | _ => ([], t)

/-- The exponent that a text starts with, and what follows it. -/
def exponent? (t : Text) : Option (Int × Text) :=
  match t with
  | e :: rest =>
    if e = 'e' ∨ e = 'E' then
      let (negative, rest) := match rest with
        | '-' :: r => (true, r)
        | '+' :: r => (false, r)
        | r => (false, r)
      let digits := rest.takeWhile Char.isDigit
      let size : Int := Text.toNat 10 digits
      if digits.isEmpty then none
      else some (if negative then -size else size, rest.drop digits.length)
    else none
  | [] => none

/-- The number that a text starts with: an integer unless it has a fraction or an
exponent. -/
def number? (t : Text) : Option (Except NumeralFault (Number × Text)) :=
  let (negative, unsigned) := match t with
    | '-' :: rest => (true, rest)
    | rest => (false, rest)
  let whole : Text := match unsigned with
    | '0' :: _ => ['0']
    | rest => rest.takeWhile Char.isDigit
  if whole.isEmpty then none
  else
    let (places, rest) := fraction (unsigned.drop whole.length)
    match exponent? rest, places.isEmpty with
    | none, true => some do
      let n ← readDigits whole
      pure (.int (if negative then -(n : Int) else n), rest)
    | found, _ =>
      let (power, rest) := found.getD (0, rest)
      let x := Binary64.ofDecimal negative (Text.toNat 10 (whole ++ places))
        (power - places.length)
      some (.ok (.double x, rest))

/-! ## Values -/

mutual

/-- The value that a text starts with, and what follows it. -/
def value : Nat → Text → Except Failure (Datum × Text)
  | 0, t => .error (.misfit .value t.length)
  | fuel + 1, t =>
    match t with
    | '"' :: rest => do
      let (s, rest) ← quotedBody t rest
      pure (.text s, rest)
    | '[' :: rest =>
      match skipSpace rest with
      | ']' :: rest => .ok (.list [], rest)
      | rest => do
        let (ds, rest) ← items fuel rest
        pure (.list ds, rest)
    | '\x7b' :: rest =>
      match skipSpace rest with
      | '\x7d' :: rest => .ok (.map [], rest)
      | rest => do
        let (pairs, rest) ← members fuel rest
        pure (.map (Datum.ofPairs pairs), rest)
    | _ =>
      match word? t, number? t with
      | some (d, rest), _ => .ok (d, rest)
      | none, some (.ok (x, rest)) => .ok (.number x, rest)
      | none, some (.error fault) => .error (.numeral fault)
      | none, none => .error (.misfit .value t.length)

/-- The values up to a closing bracket, with a comma between neighbours. -/
def items : Nat → Text → Except Failure (List Datum × Text)
  | 0, t => .error (.misfit .value t.length)
  | fuel + 1, t => do
    let (d, rest) ← value fuel t
    match skipSpace rest with
    | ']' :: rest => pure ([d], rest)
    | ',' :: rest => do
      let (ds, rest) ← items fuel (skipSpace rest)
      pure (d :: ds, rest)
    | rest => .error (.misfit .comma rest.length)

/-- The named values up to a closing brace, with a comma between neighbours. -/
def members : Nat → Text → Except Failure (List (Datum × Datum) × Text)
  | 0, t => .error (.misfit .memberName t.length)
  | fuel + 1, t =>
    match t with
    | '"' :: rest => do
      let (name, rest) ← quotedBody t rest
      match skipSpace rest with
      | ':' :: rest => do
        let (d, rest) ← value fuel (skipSpace rest)
        match skipSpace rest with
        | '\x7d' :: rest => pure ([(.text name, d)], rest)
        | ',' :: rest => do
          let (pairs, rest) ← members fuel (skipSpace rest)
          pure ((.text name, d) :: pairs, rest)
        | rest => .error (.misfit .comma rest.length)
      | rest => .error (.misfit .colon rest.length)
    | _ => .error (.misfit .memberName t.length)

end

/-- A fault of a text, from a failure inside it. -/
def Failure.toFault (t : Text) : Failure → Fault
  | .misfit cause left => .malformed cause (Text.Place.ofOffset t (t.length - left))
  | .numeral fault => .numeral fault
  | .loneSurrogate => .loneSurrogate

/-- One value with space around it and nothing else. -/
def document (t : Text) : Except Failure Datum := do
  if t.head? = some '\ufeff' then throw (.misfit .byteOrderMark t.length)
  let (d, rest) ← value (2 * t.length + 2) (skipSpace t)
  match skipSpace rest with
  | [] => pure d
  | rest => .error (.misfit .extraData rest.length)

/-- The value of a JSON text. -/
def read (t : Text) : Except Fault Datum :=
  (document t).mapError (Failure.toFault t)

end Json

end DeployGate
