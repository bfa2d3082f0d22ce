import Mathlib.Order.Lattice
import Mathlib.Tactic.Common

/-! # Cells of a column of floats

A cell is null, a number, or one of the floats that are no numbers. Arithmetic is left to the
numbers; the cells only tell which of them there is.
-/

namespace TradingPlatform.Base

inductive Cell (K : Type*)
  | null
  | nan
  | posInf
  | negInf
  | num (x : K)
  deriving DecidableEq, Repr

namespace Cell

variable {K : Type*} {c : Cell K} {x : K}

def isNull : Cell K → Bool
  | null => true
  | _ => false

/-- `is_finite()`, and `isfinite` of a float. -/
def isFinite : Cell K → Bool
  | num _ => true
  | _ => false

/-- The number in the cell. -/
def value : Cell K → Option K
  | num x => some x
  | _ => none

def ofOption : Option K → Cell K
  | none => null
  | some x => num x

section

variable [LinearOrder K] [Zero K]

/-- `<= 0`, of which NaN is not. -/
def nonPositive : Cell K → Bool
  | negInf => true
  | num x => x ≤ 0
  | _ => false

/-- Null, not finite or not positive. -/
def unusable (c : Cell K) : Bool := c.isNull || !c.isFinite || c.nonPositive

theorem unusable_eq_false_iff : c.unusable = false ↔ ∃ x, c = num x ∧ 0 < x := by
  cases c <;> simp [unusable, isNull, isFinite, nonPositive]

@[simp] theorem unusable_num : (num x).unusable = decide (x ≤ 0) := by
  simp [unusable, isNull, isFinite, nonPositive]

end

end Cell

end TradingPlatform.Base
