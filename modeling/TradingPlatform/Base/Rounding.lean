import Mathlib.Data.Int.Log
import Mathlib.Data.Rat.Floor

/-! # Rounding of decimal numbers

The roundings a number goes through: to the significant digits of an arithmetic
context, ties to even, to the places of a numeric column, ties away from zero,
and to the 53 bits of a floating-point number, ties to even.
-/

namespace TradingPlatform.Base

def roundHalfEven (q : ℚ) : ℤ :=
  let rest := q - ⌊q⌋
  if rest < 1 / 2 ∨ (rest = 1 / 2 ∧ ⌊q⌋ % 2 = 0) then ⌊q⌋ else ⌊q⌋ + 1

/-- To a number of significant digits. -/
def toPrecision (digits : ℕ) (q : ℚ) : ℚ :=
  let unit : ℚ := 10 ^ (Int.log 10 |q| + 1 - digits)
  roundHalfEven (q / unit) * unit

/-- To a number of places after the point. -/
def toScale (places : ℕ) (q : ℚ) : ℚ :=
  let unit : ℚ := 10 ^ places
  if 0 ≤ q then ⌊q * unit + 1 / 2⌋ / unit else -(⌊-q * unit + 1 / 2⌋ / unit)

/-! ## Floating point -/

/-- The nearest floating-point number. Only its size and its integer bounds are used, so
the coarser spacing below the normal range makes no difference. -/
def toDouble (q : ℚ) : ℚ :=
  let unit : ℚ := 2 ^ (Int.log 2 |q| + 1 - 53)
  roundHalfEven (q / unit) * unit

/-- The result would be infinite. -/
def overflows (q : ℚ) : Bool := 2 ^ 1024 ≤ |toDouble q|

/-- `a / b` of two integers. -/
def trueDivide (a b : Nat) : ℚ := toDouble (a / b)

/-- `math.ceil(a / b)` -/
def ceilQuotient (a b : Nat) : Nat := ⌈trueDivide a b⌉.toNat

/-- `int(x)`: truncation towards zero. -/
def truncate (q : ℚ) : ℤ := if 0 ≤ q then ⌊q⌋ else ⌈q⌉

example : ceilQuotient 301 60 = 6 := by decide +kernel

example : toScale 4 (toPrecision 28 (2 / 3)) = 6667 / 10000 := by decide +kernel

end TradingPlatform.Base
