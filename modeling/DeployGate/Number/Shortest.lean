import DeployGate.Number.Binary64

/-!
# Shortest decimals

A double is shown with the fewest significant digits that read back as the same
double; of two such decimals the nearer one is taken, and on a tie the even one.
The layout is a separate decision: positional from `0.0001` up to, but not
including, ten to the sixteenth, and with an exponent of at least two digits
elsewhere.
-/

namespace DeployGate

namespace Binary64

/-! ## Which digits -/

/-- A decimal `digits * 10 ^ exponent`. -/
structure Decimal where
  digits : Nat
  exponent : Int
  deriving DecidableEq, Repr

/-- Scale a ratio by a power of ten. -/
def scaleByTen (num den : Nat) (power : Int) : Nat × Nat :=
  match power with
  | .ofNat p => (num * Nat.pow 10 p, den)
  | .negSucc p => (num, den * Nat.pow 10 (p + 1))

/-- The two decimals with the given exponent on either side of a ratio that read
back as `x`, the nearer one first. -/
def candidates (x : Binary64) (num den : Nat) (exponent : Int) : List Decimal :=
  let (n, d) := scaleByTen num den (-exponent)
  let near := roundDiv n d
  let far := if near * d ≤ n then near + 1 else near - 1
  ([near, far].filter fun k => decide (ofDecimal false k exponent = x)).map (⟨·, exponent⟩)

/-- Try the grids from the given exponent downwards, at most `fuel` of them. -/
def firstCandidate (x : Binary64) (num den : Nat) : Nat → Int → Option Decimal
  | 0, _ => none
  | fuel + 1, exponent =>
    match candidates x num den exponent with
    | best :: _ => some best
    | [] => firstCandidate x num den fuel (exponent - 1)

/-- An upper bound of the decimal exponent of the first digit of a ratio. -/
def decimalOrder (num den : Nat) : Int :=
  (Nat.toDigits 10 num).length - (Nat.toDigits 10 den).length + 1

/-- The shortest decimal that reads back as a positive double `num / den`. -/
def shortest (x : Binary64) (num den : Nat) : Decimal :=
  (firstCandidate x num den 25 (decimalOrder num den)).getD ⟨0, 0⟩

/-! ## Layout -/

/-- How a decimal is laid out. -/
structure Layout where
  /-- Positional up to, but not including, this power of ten. -/
  largeFrom : Int
  /-- Positional from this power of ten upwards. -/
  smallFrom : Int
  /-- The least number of digits of a written exponent. -/
  exponentWidth : Nat

/-- The layout of this library's messages: positional from `1e-4` up to `1e16`, and
exponents of at least two digits. -/
def Layout.standard : Layout :=
  ⟨16, -4, 2⟩

/-- The digits of a decimal without the zeros at their end, and the exponent of
the first of them. -/
def Decimal.normalized (d : Decimal) : Text × Int :=
  let digits := Text.ofNat d.digits
  (Text.trimEnd (· == '0') digits, d.exponent + digits.length - 1)

/-- Write a positive decimal. -/
def Layout.write (layout : Layout) (d : Decimal) : Text :=
  let (digits, order) := d.normalized
  if order < layout.smallFrom ∨ layout.largeFrom ≤ order then
    let mark := if order < 0 then ['e', '-'] else ['e', '+']
    let power := Text.ofNat order.natAbs
    let tail := List.replicate (layout.exponentWidth - power.length) '0' ++ power
    match digits with
    | [] => mark ++ tail
    | [c] => c :: mark ++ tail
    | c :: cs => c :: '.' :: cs ++ mark ++ tail
  else match order with
    | .ofNat k =>
      let whole := digits.take (k + 1)
      let rest := digits.drop (k + 1)
      whole ++ List.replicate (k + 1 - digits.length) '0' ++
        '.' :: (if rest.isEmpty then ['0'] else rest)
    | .negSucc k => '0' :: '.' :: List.replicate k '0' ++ digits

/-- A double as messages show it. -/
def toText : Binary64 → Text
  | .nan => "nan".toList
  | .infinite negative => (if negative then ['-'] else []) ++ "inf".toList
  | x@(.finite negative m e) =>
    let sign : Text := if negative then ['-'] else []
    match x.ratio? with
    | some (n, d) =>
      if n = 0 then sign ++ "0.0".toList
      else sign ++ Layout.standard.write (shortest (.finite false m e) n.natAbs d)
    | none => sign

end Binary64

end DeployGate
