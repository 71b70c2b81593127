import Mathlib
import DeployGate.Number.Basic

/-!
# Values of numbers

A number stands for a rational number unless it is one of the two infinities or NaN.  Numbers
are compared on numerators and denominators; this module says what that decides of the values.

Main results:

- Definitions `Number.value?` and `Number.Below`: what a number stands for, and when it is below
  an integer.
- Theorem `Number.toInt?_eq_some_iff`: a number equals an integer exactly if it stands for it.
- Theorem `Number.ltInt_iff`: what the comparison with an integer decides.
-/

namespace DeployGate

/-! ## Doubles -/

namespace Binary64

/-- The rational number that a double stands for: its sign times its mantissa times a power of
two.  The infinities and NaN stand for none. -/
def value? : Binary64 → Option ℚ
  | .finite negative m e => some ((if negative then -1 else 1) * m * 2 ^ e)
  | _ => none

/-- A double is below an integer: it is negative infinity, or its value is below. -/
def Below (x : Binary64) (k : Int) : Prop :=
  x = .infinite true ∨ ∃ q, x.value? = some q ∧ q < k

variable {x : Binary64} {k : Int}

/-- The ratio of a finite double is its value, and the denominator is above zero. -/
theorem exists_ratio? (negative : Bool) (m : Nat) (e : Int) :
    ∃ (n : Int) (d : Nat), (finite negative m e).ratio? = some (n, d) ∧ 0 < d ∧
      (finite negative m e).value? = some (n / d : ℚ) := by
  cases e with
  | ofNat k =>
      refine ⟨_, _, rfl, Nat.one_pos, ?_⟩
      cases negative <;> simp [value?]
  | negSucc k =>
      refine ⟨_, _, rfl, Nat.pow_pos Nat.two_pos, ?_⟩
      cases negative <;> simp [value?, zpow_negSucc, div_eq_mul_inv]

/-- A double equals an integer exactly if it stands for it. -/
theorem toInt?_eq_some_iff : x.toInt? = some k ↔ x.value? = some (k : ℚ) := by
  cases x with
  | infinite negative => simp [toInt?, ratio?, value?]
  | nan => simp [toInt?, ratio?, value?]
  | finite negative m e =>
      rcases exists_ratio? negative m e with ⟨n, d, hratio, hd, hvalue⟩
      have hne : (d : Int) ≠ 0 := by exact_mod_cast hd.ne'
      have hquotient : (n / d : ℚ) = k ↔ n = k * d := by
        rw [div_eq_iff (by exact_mod_cast hne)]
        exact_mod_cast Iff.rfl
      simp only [toInt?, hratio, hvalue, Option.some.injEq, hquotient]
      constructor
      · intro h
        split at h
        · next hdvd =>
          rw [← Option.some.inj h, Int.ediv_mul_cancel (Int.dvd_of_emod_eq_zero hdvd)]
        · contradiction
      · rintro rfl
        rw [if_pos (Int.mul_emod_left k d), Int.mul_ediv_cancel k hne]

/-- The comparison of a double with an integer decides whether it is below. -/
theorem ltInt_iff : x.ltInt k = true ↔ x.Below k := by
  cases x with
  | infinite negative => simp [ltInt, intLe, Below, value?]
  | nan => simp [ltInt, Below, value?]
  | finite negative m e =>
      rcases exists_ratio? negative m e with ⟨n, d, hratio, hd, hvalue⟩
      have hbelow : (n / d : ℚ) < k ↔ n < k * d := by
        rw [div_lt_iff₀ (by exact_mod_cast hd)]
        exact_mod_cast Iff.rfl
      simp [ltInt, intLe, Below, hratio, hvalue, hbelow]

/-- The comparison of an integer with a double that has a value decides whether it is at least
that value. -/
theorem leInt_iff_of_value? {q : ℚ} (h : x.value? = some q) : x.leInt k = true ↔ q ≤ k := by
  cases x with
  | infinite negative => contradiction
  | nan => contradiction
  | finite negative m e =>
      rcases exists_ratio? negative m e with ⟨n, d, hratio, hd, hvalue⟩
      have hatMost : (n / d : ℚ) ≤ k ↔ n ≤ k * d := by
        rw [div_le_iff₀ (by exact_mod_cast hd)]
        exact_mod_cast Iff.rfl
      rw [← Option.some.inj (hvalue.symm.trans h), hatMost]
      simp [leInt, hratio]

end Binary64

/-! ## Numbers -/

namespace Number

/-- The rational number that a number stands for. -/
def value? : Number → Option ℚ
  | .int n => some n
  | .double x => x.value?

/-- A number is below an integer: it is negative infinity, or its value is below. -/
def Below (x : Number) (k : Int) : Prop :=
  x = .double (.infinite true) ∨ ∃ q, x.value? = some q ∧ q < k

variable {x : Number} {k : Int}

/-- A number equals an integer exactly if it stands for it. -/
theorem toInt?_eq_some_iff : x.toInt? = some k ↔ x.value? = some (k : ℚ) := by
  cases x with
  | int n => simp [toInt?, value?]
  | double x => exact Binary64.toInt?_eq_some_iff

/-- A number is integral exactly if it stands for an integer. -/
theorem isIntegral_iff : x.isIntegral = true ↔ ∃ n : Int, x.value? = some (n : ℚ) := by
  rw [isIntegral, Option.isSome_iff_exists]
  simp [toInt?_eq_some_iff]

/-- The comparison of a number with an integer decides whether it is below. -/
theorem ltInt_iff : x.ltInt k = true ↔ x.Below k := by
  cases x with
  | int n => simp [ltInt, Below, value?]
  | double x =>
      have hbelow := Binary64.ltInt_iff (x := x) (k := k)
      simpa [ltInt, Below, Binary64.Below, value?] using hbelow

/-- A number that stands for an integer is below another one exactly if that integer is. -/
theorem below_iff_of_value? {n : Int} (h : x.value? = some (n : ℚ)) : x.Below k ↔ n < k := by
  constructor
  · rintro (rfl | ⟨q, hq, hlt⟩)
    · contradiction
    · rw [h] at hq
      rw [← Option.some.inj hq] at hlt
      exact_mod_cast hlt
  · intro hlt
    exact .inr ⟨n, h, by exact_mod_cast hlt⟩

/-- A number that equals an integer is at most another one exactly if that integer is. -/
theorem leInt_iff_of_toInt? {n : Int} (h : x.toInt? = some n) : x.leInt k = true ↔ n ≤ k := by
  cases x with
  | int m =>
      rw [← Option.some.inj h]
      exact decide_eq_true_iff
  | double x =>
      have hle := Binary64.leInt_iff_of_value? (k := k) (Binary64.toInt?_eq_some_iff.mp h)
      rw [Int.cast_le] at hle
      exact hle

/-- A number that is at most an integer is at most every greater one. -/
theorem leInt_mono {j : Int} (h : x.leInt k = true) (hle : k ≤ j) : x.leInt j = true := by
  cases x with
  | int n =>
      have hn : n ≤ k := by simpa [leInt] using h
      simpa [leInt] using hn.trans hle
  | double x =>
      cases x with
      | infinite negative => exact h
      | nan => exact h
      | finite negative m e =>
          have hvalue : (Binary64.finite negative m e).value? =
              some ((if negative then -1 else 1 : ℚ) * m * 2 ^ e) := rfl
          apply (Binary64.leInt_iff_of_value? hvalue).mpr
          exact ((Binary64.leInt_iff_of_value? hvalue).mp h).trans (by exact_mod_cast hle)

end Number

end DeployGate
