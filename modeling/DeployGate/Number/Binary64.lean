import DeployGate.Text.Basic

/-!
# Binary floating point

A double-precision number is a sign, a mantissa and a binary exponent, or one of
the values that are not finite.  All arithmetic is done exactly on integers and
rounded once, to the nearest double and on a tie to the even mantissa.
-/

namespace DeployGate

/-- A double-precision number.  A finite one has the value `mantissa * 2 ^ exponent`
with its sign; `Binary64.ofRatio` builds those with a mantissa below `2 ^ 53`, at
least `2 ^ 52` unless the exponent is the least one, `-1074`. -/
inductive Binary64 where
  | finite (negative : Bool) (mantissa : Nat) (exponent : Int)
  | infinite (negative : Bool)
  | nan
  deriving DecidableEq, Repr

namespace Binary64

/-! ## Rounding -/

/-- The quotient of two natural numbers rounded to the nearest integer, a tie to
the even one. -/
def roundDiv (num den : Nat) : Nat :=
  let q := num / den
  let twice := 2 * (num % den)
  if twice < den then q
  else if den < twice then q + 1
  else if q % 2 = 0 then q else q + 1

/-- Zero with a sign. -/
def zero (negative : Bool) : Binary64 :=
  .finite negative 0 (-1074)

/-- The quotient `num / (den * 2 ^ exponent)` rounded to an integer. -/
def scaledQuotient (num den : Nat) (exponent : Int) : Nat :=
  match exponent with
  | .ofNat e => roundDiv num (den * Nat.pow 2 e)
  | .negSucc e => roundDiv (num * Nat.pow 2 (e + 1)) den

/-- The greatest integer `e` with `2 ^ e ≤ num / den`, for positive numbers. -/
def binaryOrder (num den : Nat) : Int :=
  let e := (Nat.log2 num : Int) - Nat.log2 den
  let reached : Bool := match e with
    | .ofNat k => den * Nat.pow 2 k ≤ num
    | .negSucc k => den ≤ num * Nat.pow 2 (k + 1)
  if reached then e else e - 1

/-- The double nearest to a ratio of natural numbers with a sign. -/
def ofRatio (negative : Bool) (num den : Nat) : Binary64 :=
  if num = 0 ∨ den = 0 then zero negative
  else
    let exponent := max (binaryOrder num den - 52) (-1074)
    let mantissa := scaledQuotient num den exponent
    let (mantissa, exponent) :=
      if mantissa = Nat.pow 2 53 then (Nat.pow 2 52, exponent + 1) else (mantissa, exponent)
    if 971 < exponent then .infinite negative else .finite negative mantissa exponent

/-- The double nearest to `digits * 10 ^ exponent`.  Exponents far outside the
range are settled without computing the power. -/
def ofDecimal (negative : Bool) (digits : Nat) (exponent : Int) : Binary64 :=
  let order := (Nat.log2 digits / 3 : Int) + exponent
  if digits = 0 then zero negative
  else if 1000 < exponent ∧ 0 < order then .infinite negative
  else if order < -1000 then zero negative
  else match exponent with
    | .ofNat e => ofRatio negative (digits * Nat.pow 10 e) 1
    | .negSucc e => ofRatio negative digits (Nat.pow 10 (e + 1))

/-! ## Values -/

/-- The value of a finite number as a signed numerator over a power of two. -/
def ratio? : Binary64 → Option (Int × Nat)
  | .finite negative m e =>
    let signed : Int := if negative then -(m : Int) else m
    match e with
    | .ofNat k => some (signed * Nat.pow 2 k, 1)
    | .negSucc k => some (signed, Nat.pow 2 (k + 1))
  | _ => none

/-- The integer that a number equals, if it equals one. -/
def toInt? (x : Binary64) : Option Int :=
  match x.ratio? with
  | some (n, d) => if n % d = 0 then some (n / d) else none
  | none => none

/-- Whether an integer is at most the number.  Nothing compares with NaN. -/
def intLe (k : Int) : Binary64 → Bool
  | .nan => false
  | .infinite negative => !negative
  | x => match x.ratio? with
    | some (n, d) => k * d ≤ n
    | none => false

/-- Whether the number is below an integer.  Nothing compares with NaN. -/
def ltInt (x : Binary64) (k : Int) : Bool :=
  match x with
  | .nan => false
  | x => !intLe k x

/-- Whether the number is at most an integer.  Nothing compares with NaN. -/
def leInt (x : Binary64) (k : Int) : Bool :=
  match x with
  | .nan => false
  | .infinite negative => negative
  | x => match x.ratio? with
    | some (n, d) => n ≤ k * d
    | none => false

/-! ## Arithmetic -/

/-- The number with the opposite sign. -/
def neg : Binary64 → Binary64
  | .finite s m e => .finite (!s) m e
  | .infinite s => .infinite (!s)
  | .nan => .nan

/-- The double nearest to an integer. -/
def ofInt (k : Int) : Binary64 :=
  ofRatio (decide (k < 0)) k.natAbs 1

/-- The sum of two numbers that are not negative, rounded. -/
def addNonneg (x y : Binary64) : Binary64 :=
  match x.ratio?, y.ratio? with
  | some (n, d), some (k, c) => ofRatio false (n * c + k * d).natAbs (d * c)
  | _, _ => if x = .nan ∨ y = .nan then .nan else .infinite false

/-- The product of two numbers that are not negative, rounded.  An infinite factor
gives NaN with zero and infinity otherwise. -/
def mulNonneg (x y : Binary64) : Binary64 :=
  match x.ratio?, y.ratio? with
  | some (n, d), some (k, c) => ofRatio false (n * k).natAbs (d * c)
  | some (n, _), none => if n = 0 ∨ y = .nan then .nan else .infinite false
  | none, some (k, _) => if k = 0 ∨ x = .nan then .nan else .infinite false
  | none, none => if x = .nan ∨ y = .nan then .nan else .infinite false

end Binary64

end DeployGate
