import Mathlib.Algebra.Order.Field.Rat
import Mathlib.Data.Rat.Cast.Order
import Mathlib.Tactic.FieldSimp
import Mathlib.Tactic.Linarith
import Mathlib.Tactic.Positivity
import Mathlib.Tactic.Ring

/-! # Finite decimals

A decimal is an integer coefficient with a number of fractional digits, so two
decimals of one value may still print differently (`10` and `10.0`). Arithmetic
is exact. Comparison is by value, on cross-multiplied coefficients, which keeps
it executable; `toRat` carries every comparison and sum to the rationals, where
the proofs are done.
-/

namespace TradingPlatform.Base

structure Decimal where
  unscaled : Int
  scale : Nat
  deriving DecidableEq, Repr

namespace Decimal

def ofInt (n : Int) : Decimal := ⟨n, 0⟩

instance (n : Nat) : OfNat Decimal n := ⟨ofInt n⟩

/-- The value of a decimal. -/
def toRat (d : Decimal) : ℚ := d.unscaled / 10 ^ d.scale

/-- The coefficient at a scale that is at least the decimal's own. -/
def rescaled (d : Decimal) (scale : Nat) : Int := d.unscaled * 10 ^ (scale - d.scale)

instance : Add Decimal where
  add a b := ⟨a.rescaled (max a.scale b.scale) + b.rescaled (max a.scale b.scale),
    max a.scale b.scale⟩

instance : Sub Decimal where
  sub a b := ⟨a.rescaled (max a.scale b.scale) - b.rescaled (max a.scale b.scale),
    max a.scale b.scale⟩

instance : LT Decimal where
  lt a b := a.unscaled * 10 ^ b.scale < b.unscaled * 10 ^ a.scale

instance : LE Decimal where
  le a b := a.unscaled * 10 ^ b.scale ≤ b.unscaled * 10 ^ a.scale

instance (a b : Decimal) : Decidable (a < b) :=
  inferInstanceAs (Decidable (a.unscaled * 10 ^ b.scale < b.unscaled * 10 ^ a.scale))

instance (a b : Decimal) : Decidable (a ≤ b) :=
  inferInstanceAs (Decidable (a.unscaled * 10 ^ b.scale ≤ b.unscaled * 10 ^ a.scale))

/-- Equality by value, as SQL `=` and the `==` of Python compare decimals. -/
def sameValue (a b : Decimal) : Bool := a.unscaled * 10 ^ b.scale = b.unscaled * 10 ^ a.scale

/-- SQL `GREATEST`: the first argument unless the second one is greater. -/
def greatest (a b : Decimal) : Decimal := if a < b then b else a

/-- `int(d)`: truncation towards zero. -/
def trunc (d : Decimal) : Int := d.unscaled.tdiv (10 ^ d.scale)

/-- `d % 1 == 0`. -/
def isIntegral (d : Decimal) : Bool := d.unscaled % 10 ^ d.scale = 0

/-! ## Printing -/

/-- The signed exponent that `str` appends, nothing when it is zero. -/
def exponentText (e : Int) : String :=
  if e = 0 then "" else if 0 < e then "E+" ++ toString e else "E" ++ toString e

/-- `str(d)`. The point stands after `leftdigits` digits unless that would put six or more
zeros in front of the first digit; then one digit stands before the point. -/
def str (d : Decimal) : String :=
  let digits := Nat.toDigits 10 d.unscaled.natAbs
  let leftdigits : Int := digits.length - d.scale
  let dotplace : Int := if -6 < leftdigits then leftdigits else 1
  let body : List Char :=
    if dotplace ≤ 0 then
      '0' :: '.' :: List.replicate (-dotplace).toNat '0' ++ digits
    else if digits.length ≤ dotplace then
      digits ++ List.replicate (dotplace - digits.length).toNat '0'
    else
      digits.take dotplace.toNat ++ '.' :: digits.drop dotplace.toNat
  (if d.unscaled < 0 then "-" else "") ++ String.ofList body ++
    exponentText (leftdigits - dotplace)

example : (⟨1050, 2⟩ : Decimal).str = "10.50" := by decide
example : (⟨-5, 8⟩ : Decimal).str = "-5E-8" := by decide

/-! ## Values -/

theorem toRat_ofInt (n : Int) : (ofInt n).toRat = n := by simp [ofInt, toRat]

@[simp] theorem toRat_zero : (0 : Decimal).toRat = 0 := by
  change (ofInt 0).toRat = 0
  rw [toRat_ofInt, Int.cast_zero]

theorem rescaled_eq (d : Decimal) {scale : Nat} (h : d.scale ≤ scale) :
    (d.rescaled scale : ℚ) = d.toRat * 10 ^ scale := by
  obtain ⟨extra, rfl⟩ := Nat.exists_eq_add_of_le h
  simp only [rescaled, toRat, Nat.add_sub_cancel_left, Int.cast_mul, Int.cast_pow,
    Int.cast_ofNat]
  field_simp
  ring

@[simp] theorem toRat_add (a b : Decimal) : (a + b).toRat = a.toRat + b.toRat := by
  change ((a.rescaled (max a.scale b.scale) + b.rescaled (max a.scale b.scale) : Int) : ℚ) /
    10 ^ max a.scale b.scale = _
  rw [Int.cast_add, rescaled_eq a (le_max_left _ _), rescaled_eq b (le_max_right _ _)]
  field_simp

@[simp] theorem toRat_sub (a b : Decimal) : (a - b).toRat = a.toRat - b.toRat := by
  change ((a.rescaled (max a.scale b.scale) - b.rescaled (max a.scale b.scale) : Int) : ℚ) /
    10 ^ max a.scale b.scale = _
  rw [Int.cast_sub, rescaled_eq a (le_max_left _ _), rescaled_eq b (le_max_right _ _)]
  field_simp

theorem le_iff (a b : Decimal) : a ≤ b ↔ a.toRat ≤ b.toRat := by
  change a.unscaled * 10 ^ b.scale ≤ b.unscaled * 10 ^ a.scale ↔ _
  rw [toRat, toRat, div_le_div_iff₀ (by positivity) (by positivity)]
  exact_mod_cast Iff.rfl

theorem lt_iff (a b : Decimal) : a < b ↔ a.toRat < b.toRat := by
  change a.unscaled * 10 ^ b.scale < b.unscaled * 10 ^ a.scale ↔ _
  rw [toRat, toRat, div_lt_div_iff₀ (by positivity) (by positivity)]
  exact_mod_cast Iff.rfl

theorem sameValue_iff (a b : Decimal) : a.sameValue b = true ↔ a.toRat = b.toRat := by
  rw [sameValue, decide_eq_true_eq, toRat, toRat,
    div_eq_div_iff (by positivity) (by positivity)]
  exact_mod_cast Iff.rfl

theorem not_lt_iff (a b : Decimal) : ¬ a < b ↔ b ≤ a := by
  rw [lt_iff, le_iff, not_lt]

@[simp] theorem toRat_greatest (a b : Decimal) :
    (greatest a b).toRat = max a.toRat b.toRat := by
  unfold greatest
  by_cases h : a < b
  · rw [if_pos h, max_eq_right ((lt_iff a b).mp h).le]
  · rw [if_neg h, max_eq_left ((le_iff b a).mp ((not_lt_iff a b).mp h))]

/-! ## Truncation -/

@[simp] theorem trunc_ofInt (n : Int) : (ofInt n).trunc = n := by simp [ofInt, trunc]

theorem trunc_mono {a b : Decimal} (h : a ≤ b) : a.trunc ≤ b.trunc := by
  have hcross : a.unscaled * 10 ^ b.scale ≤ b.unscaled * 10 ^ a.scale := h
  have ha : a.trunc = (a.unscaled * 10 ^ b.scale).tdiv (10 ^ a.scale * 10 ^ b.scale) := by
    rw [trunc, Int.mul_tdiv_mul_of_pos_left _ _ (by positivity)]
  have hb : b.trunc = (b.unscaled * 10 ^ a.scale).tdiv (10 ^ a.scale * 10 ^ b.scale) := by
    rw [trunc, mul_comm (10 ^ a.scale : Int), Int.mul_tdiv_mul_of_pos_left _ _ (by positivity)]
  rw [ha, hb]
  exact Int.tdiv_le_tdiv (by positivity) hcross

theorem trunc_greatest (a b : Decimal) : (greatest a b).trunc = max a.trunc b.trunc := by
  unfold greatest
  by_cases h : a < b
  · have hle : a ≤ b := (le_iff a b).mpr ((lt_iff a b).mp h).le
    rw [if_pos h, max_eq_right (trunc_mono hle)]
  · rw [if_neg h, max_eq_left (trunc_mono ((not_lt_iff a b).mp h))]

/-- An integral decimal is the integer it truncates to. -/
theorem toRat_trunc {d : Decimal} (h : d.isIntegral = true) : (ofInt d.trunc).toRat = d.toRat := by
  rw [isIntegral, decide_eq_true_eq] at h
  obtain ⟨n, hn⟩ := Int.dvd_of_emod_eq_zero h
  have hpow : (10 ^ d.scale : Int) ≠ 0 := by positivity
  rw [toRat_ofInt, trunc, hn, Int.mul_tdiv_cancel_left _ hpow, toRat, hn, Int.cast_mul]
  simp

/-- A decimal of integer value truncates to that integer. -/
theorem trunc_of_toRat {d : Decimal} {n : Int} (h : d.toRat = n) : d.trunc = n := by
  have hpow : (10 ^ d.scale : Int) ≠ 0 := by positivity
  have hunscaled : d.unscaled = n * 10 ^ d.scale := by
    rw [toRat, div_eq_iff (by positivity)] at h
    exact_mod_cast h
  rw [trunc, hunscaled, Int.mul_tdiv_cancel _ hpow]

end Decimal

end TradingPlatform.Base
