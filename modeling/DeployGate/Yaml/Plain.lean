import DeployGate.Yaml.Cursor

/-!
# What plain scalars mean

A plain scalar that is written like a truth value, a number, a date or nothing at
all is that value; every other one is its own text.  Integers may be binary,
octal, decimal, hexadecimal or counted in sixties, and digits may be grouped with
underscores.  One line feed behind such a form, which only quoted and block scalars
can have, leaves it what it is; but not every form can be read with it.
-/

namespace DeployGate

namespace Yaml

/-! ## Words -/

/-- The spellings of truth values. -/
def truthWords : List (Text × Bool) :=
  ["yes", "Yes", "YES", "true", "True", "TRUE", "on", "On", "ON"].map (·.toList, true) ++
  ["no", "No", "NO", "false", "False", "FALSE", "off", "Off", "OFF"].map (·.toList, false)

/-- The spellings of nothing. -/
def nullWords : List Text :=
  ["", "~", "null", "Null", "NULL"].map (·.toList)

/-! ## Numerals -/

/-- A digit, or an underscore between digits. -/
def isGrouped (c : Char) : Bool :=
  c.isDigit || c == '_'

/-- Digits without the underscores between them. -/
def ungrouped (t : Text) : Text :=
  t.filter (· != '_')

/-- The sign of a numeral and what follows it. -/
def signed (t : Text) : Bool × Text :=
  match t with
  | '-' :: rest => (true, rest)
  | '+' :: rest => (false, rest)
  | _ => (false, t)

/-- One or two digits below sixty. -/
def isSixtieth (t : Text) : Bool :=
  match t with
  | [d] => d.isDigit
  | [t, d] => '0' ≤ t && t ≤ '5' && d.isDigit
  | _ => false

/-- The number of some digits in a base other than ten, of which one has to be there,
in front of the given ending. -/
def basedDigits (base : Nat) (t ending : Text) : Except NumeralFault Nat :=
  let digits := ungrouped t
  if digits.isEmpty then .error (.noDigits base ending) else .ok (Text.toNat base digits)

/-- A number counted in sixties, from its greatest part down. -/
def sixties (parts : List Nat) : Nat :=
  parts.foldl (fun n part => n * 60 + part) 0

/-- The number of an unsigned integer numeral in front of an ending, if the text is
one. -/
def natural? (t ending : Text) : Option (Except NumeralFault Nat) :=
  match t with
  | '0' :: 'b' :: digits =>
    if !digits.isEmpty && digits.all (fun c => c == '0' || c == '1' || c == '_') then
      some (basedDigits 2 digits ending)
    else none
  | '0' :: 'x' :: digits =>
    if !digits.isEmpty && digits.all (fun c => Text.isHexDigit c || c == '_') then
      some (basedDigits 16 digits ending)
    else none
  | '0' :: digits =>
    if digits.all (fun c => ('0' ≤ c && c ≤ '7') || c == '_') then
      some (.ok (Text.toNat 8 (ungrouped digits)))
    else none
  | c :: _ =>
    match Text.splitAt ':' t with
    | first :: parts =>
      if c.isDigit && first.all isGrouped && parts.all isSixtieth then some do
        let first ← readDigits (ungrouped first)
        pure (sixties (first :: parts.map (Text.toNat 10)))
      else none
    | [] => none
  | [] => none

/-- The number of an integer numeral in front of an ending, if the text is one. -/
def integer? (t ending : Text) : Option (Except NumeralFault Int) :=
  let (negative, rest) := signed t
  (natural? rest ending).map fun result =>
    result.map fun n => if negative then -(n : Int) else n

/-- The exponent of a numeral: a letter, a sign and digits, or nothing. -/
def exponentPart? (t : Text) : Option Int :=
  match t with
  | [] => some 0
  | e :: s :: digits =>
    if (e == 'e' || e == 'E') && (s == '+' || s == '-') && !digits.isEmpty &&
        digits.all Char.isDigit then
      let size : Int := Text.toNat 10 digits
      some (if s == '-' then -size else size)
    else none
  | _ => none

/-- The double of digits on both sides of a point, and an exponent. -/
def pointed (whole places : Text) (exponent : Int) : Binary64 :=
  let places := ungrouped places
  Binary64.ofDecimal false (Text.toNat 10 (ungrouped whole ++ places)) (exponent - places.length)

/-- The double that parts counted in sixties denote, added up from the last part.  There
are refused more parts than a double can weigh. -/
def sixtiesDouble (parts : List Binary64) : Except NumeralFault Binary64 := do
  let step (state : Binary64 × Int) (part : Binary64) :
      Except NumeralFault (Binary64 × Int) :=
    let weight := Binary64.ofInt state.2
    if weight = .infinite false then .error .beyondDoubles
    else .ok (state.1.addNonneg (part.mulNonneg weight), state.2 * 60)
  let (sum, _) ← parts.reverse.foldlM step (Binary64.zero false, 1)
  pure sum

/-- The double that a name stands for, which nothing may follow. -/
def namedDouble (name : Text) (x : Binary64) (ending : Text) :
    Except NumeralFault Binary64 :=
  if ending.isEmpty then .ok x else .error (.noDouble (name ++ ending))

/-- The double of an unsigned numeral with a point in front of an ending, if the text is
one. -/
def unsignedDouble? (t ending : Text) : Option (Except NumeralFault Binary64) :=
  if [".inf", ".Inf", ".INF"].any (·.toList == t) then
    some (namedDouble ".inf".toList (.infinite false) ending)
  else
    let whole := t.takeWhile (· != '.')
    match t.drop whole.length with
    | '.' :: rest =>
      let places := rest.takeWhile isGrouped
      let tail := rest.drop places.length
      match Text.splitAt ':' whole with
      | [_] =>
        if whole.all isGrouped && (whole.head?.map Char.isDigit).getD false then
          (exponentPart? tail).map fun exponent => .ok (pointed whole places exponent)
        else none
      | first :: parts =>
        if (first.head?.map Char.isDigit).getD false && first.all isGrouped &&
            parts.all isSixtieth && tail.isEmpty then
          let last := parts.getLast?.getD []
          let doubles := (first :: parts.dropLast).map fun p => pointed p [] 0
          some (sixtiesDouble (doubles ++ [pointed last places 0]))
        else none
      | [] => none
    | _ => none

/-- The double of a numeral that starts with its point and takes no sign, if the text
is one. -/
def leadingPoint? (t : Text) : Option Binary64 :=
  match t with
  | '.' :: d :: rest =>
    let places := d :: rest.takeWhile isGrouped
    if d.isDigit then (exponentPart? (rest.dropWhile isGrouped)).map (pointed [] places)
    else none
  | _ => none

/-- The double of a numeral in front of an ending, if the text is one. -/
def double? (t ending : Text) : Option (Except NumeralFault Binary64) :=
  if [".nan", ".NaN", ".NAN"].any (·.toList == t) then
    some (namedDouble ".nan".toList .nan ending)
  else
    let (negative, rest) := signed t
    match leadingPoint? t, unsignedDouble? rest ending with
    | some x, _ => some (.ok x)
    | none, some result => some (result.map fun x => if negative then x.neg else x)
    | none, none => none

/-! ## Dates -/

/-- The date of four, two and two digits with hyphens between them, if the text has
that form. -/
def date? (t : Text) : Option (Except DateFault Date) :=
  match Text.splitAt '-' t with
  | [year, month, day] =>
    if year.length = 4 ∧ month.length = 2 ∧ day.length = 2 ∧
        (year ++ month ++ day).all Char.isDigit then
      some (Date.ofNumbers (Text.toNat 10 year) (Text.toNat 10 month) (Text.toNat 10 day))
    else none
  | _ => none

/-- What follows the digits that a text starts with, at least and at most so many. -/
def afterDigits? (least most : Nat) (t : Text) : Option Text :=
  let digits := (t.take most).takeWhile Char.isDigit
  if digits.length < least then none else some (t.drop digits.length)

/-- What follows the mark between a date and a time: a letter, or blanks. -/
def afterTimeMark? (t : Text) : Option Text :=
  match t with
  | c :: rest =>
    if c == 'T' || c == 't' then some rest
    else if Text.isBlank c then some (rest.dropWhile Text.isBlank)
    else none
  | [] => none

/-- A difference to the time of the zero meridian, or nothing. -/
def isZone (t : Text) : Bool :=
  t.isEmpty || match t.dropWhile Text.isBlank with
    | ['Z'] => true
    | s :: rest => (s == '+' || s == '-') && match afterDigits? 1 2 rest with
      | some [] => true
      | some (':' :: rest) => afterDigits? 2 2 rest == some []
      | _ => false
    | [] => false

/-- Whether a text is a date with a time of the day. -/
def isMoment (t : Text) : Bool :=
  let rest? : Option Text := do
    let t ← Text.after? ['-'] (← afterDigits? 4 4 t)
    let t ← Text.after? ['-'] (← afterDigits? 1 2 t)
    let t ← afterTimeMark? (← afterDigits? 1 2 t)
    let t ← Text.after? [':'] (← afterDigits? 1 2 t)
    let t ← Text.after? [':'] (← afterDigits? 2 2 t)
    afterDigits? 2 2 t
  match rest? with
  | some ('.' :: rest) => isZone (rest.dropWhile Char.isDigit)
  | some rest => isZone rest
  | none => false

/-! ## All of them -/

/-- A text without the line feed at its end, if it has one behind something else, and
that line feed. -/
def splitEnding (t : Text) : Text × Text :=
  if 1 < t.length ∧ t.getLast? = some '\n' then (t.dropLast, ['\n']) else (t, [])

/-- The truth value of a word, which nothing may follow. -/
def truthDatum (word : Text) (b : Bool) (ending : Text) : Except Fault Datum :=
  if ending.isEmpty then .ok (.bool b)
  else .error (.truthWord (word.map Char.toLower ++ ending))

/-- Whether a text is the sign for a default value. -/
def isDefaultSign (t : Text) : Bool :=
  (splitEnding t).1 == ['=']

/-- Whether a text is the sign for merging. -/
def isMergeSign (t : Text) : Bool :=
  (splitEnding t).1 == ['<', '<']

/-- The value of a plain scalar.  The signs for merging and for a default value
stand for nothing that can be loaded, and moments are not loaded. -/
def plainDatum (t : Text) : Except Fault Datum :=
  let (word, ending) := splitEnding t
  if nullWords.contains word then .ok .null
  else match truthWords.lookup word, double? word ending, integer? word ending, date? word with
    | some b, _, _, _ => truthDatum word b ending
    | none, some result, _, _ =>
      (result.mapError .numeral).map fun x => .number (.double x)
    | none, none, some result, _ =>
      (result.mapError .numeral).map fun n => .number (.int n)
    | none, none, none, some result => (result.mapError .date).map .date
    | none, none, none, none =>
      if isDefaultSign t || isMergeSign t || isMoment word then .error .malformed else .ok (.text t)

end Yaml

end DeployGate
