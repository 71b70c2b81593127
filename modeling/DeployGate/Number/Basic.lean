import DeployGate.Number.Shortest
import DeployGate.Text.Quoted

/-!
# Numbers

A number is an integer of any size or a double.  The two are compared by value,
so `3` and `3.0` are the same number written in two ways; what is shown follows
the way it was written.
-/

namespace DeployGate

/-! ## Numerals -/

/-- Why a numeral is refused. -/
inductive NumeralFault where
  /-- More decimal digits than are read, with their number. -/
  | unreadable (digits : Nat)
  /-- More decimal digits than are shown. -/
  | unshown
  /-- A text without a digit in place of those of a number in the given base. -/
  | noDigits (base : Nat) (text : Text)
  /-- A text that should be a double and is none. -/
  | noDouble (text : Text)
  /-- An integer that no double comes near. -/
  | beyondDoubles
  deriving DecidableEq, Repr

/-- The greatest number of decimal digits of an integer that is read or shown. -/
def digitLimit : Nat := 4300

/-- The wording of a refused numeral. -/
def NumeralFault.message : NumeralFault → Text
  | .unreadable digits => limit ++ ": value has ".toList ++ Text.ofNat digits ++
      " digits".toList ++ advice
  | .unshown => limit ++ advice
  | .noDigits base text => "invalid literal for int() with base ".toList ++
      Text.ofNat base ++ ": ".toList ++ text.quoted
  | .noDouble text => "could not convert string to float: ".toList ++ text.quoted
  | .beyondDoubles => "int too large to convert to float".toList
where
  /-- The common beginning of the two messages about the limit. -/
  limit : Text := "Exceeds the limit (".toList ++ Text.ofNat digitLimit ++
    " digits) for integer string conversion".toList
  /-- The common end of the two messages about the limit. -/
  advice : Text := "; use sys.set_int_max_str_digits() to increase the limit".toList

/-- Read decimal digits, refusing more than the limit. -/
def readDigits (digits : Text) : Except NumeralFault Nat :=
  if digitLimit < digits.length then .error (.unreadable digits.length)
  else .ok (Text.toNat 10 digits)

/-- An integer in decimal, refused beyond the limit. -/
def showInt (n : Int) : Except NumeralFault Text :=
  if digitLimit < (Text.ofNat n.natAbs).length then .error .unshown
  else .ok (Text.ofInt n)

/-! ## Numbers -/

/-- An integer or a double. -/
inductive Number where
  | int (n : Int)
  | double (x : Binary64)
  deriving DecidableEq, Repr

namespace Number

/-- The integer that a number equals, if it equals one. -/
def toInt? : Number → Option Int
  | .int n => some n
  | .double x => x.toInt?

/-- Whether a number equals an integer. -/
def isIntegral (x : Number) : Bool :=
  x.toInt?.isSome

/-- Whether a number is below an integer. -/
def ltInt : Number → Int → Bool
  | .int n, k => n < k
  | .double x, k => x.ltInt k

/-- Whether a number is at most an integer. -/
def leInt : Number → Int → Bool
  | .int n, k => n ≤ k
  | .double x, k => x.leInt k

/-- Whether two numbers are equal by value.  NaN is the same as itself here. -/
def same (x y : Number) : Bool :=
  x == y || match x.toInt?, y.toInt? with
    | some m, some n => m == n
    | _, _ => false

/-- A number as messages show it. -/
def toText : Number → Except NumeralFault Text
  | .int n => showInt n
  | .double x => .ok x.toText

end Number

end DeployGate
