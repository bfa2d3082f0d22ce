import Mathlib.Algebra.BigOperators.Group.List.Basic
import Mathlib.Algebra.Order.BigOperators.Group.List
import Mathlib.Algebra.Order.Field.Basic
import TradingPlatform.Base.Cells

/-! # Arithmetic on columns of floats

Numbers are exact and the floats that are no numbers follow the usual rules. A null stays null in
arithmetic and is left out of a statistic.
-/

namespace TradingPlatform.Base

/-- A square root that is never negative. -/
structure Root (K : Type*) [Field K] [LinearOrder K] where
  sqrt : K → K
  nonneg : ∀ x, 0 ≤ sqrt x

namespace Cell

variable {K : Type*} [Field K] [LinearOrder K]

/-! ## Cells -/

/-- Infinity times `x`. -/
def infinite (x : K) : Cell K := if x = 0 then nan else if 0 < x then posInf else negInf

def neg : Cell K → Cell K
  | num x => num (-x)
  | posInf => negInf
  | negInf => posInf
  | c => c

def add : Cell K → Cell K → Cell K
  | null, _ | _, null => null
  | nan, _ | _, nan => nan
  | posInf, negInf | negInf, posInf => nan
  | posInf, _ | _, posInf => posInf
  | negInf, _ | _, negInf => negInf
  | num x, num y => num (x + y)

def sub (c d : Cell K) : Cell K := add c (neg d)

def mul : Cell K → Cell K → Cell K
  | null, _ | _, null => null
  | nan, _ | _, nan => nan
  | num x, num y => num (x * y)
  | num x, posInf | posInf, num x => infinite x
  | num x, negInf | negInf, num x => infinite (-x)
  | posInf, posInf | negInf, negInf => posInf
  | posInf, negInf | negInf, posInf => negInf

/-- A zero that divides counts as positive. -/
def div : Cell K → Cell K → Cell K
  | null, _ | _, null => null
  | nan, _ | _, nan => nan
  | num x, num y => if y = 0 then infinite x else num (x / y)
  | num _, posInf | num _, negInf => num 0
  | posInf, num y => if y < 0 then negInf else posInf
  | negInf, num y => if y < 0 then posInf else negInf
  | posInf, posInf | posInf, negInf | negInf, posInf | negInf, negInf => nan

/-! ## Columns -/

/-- The cells that are not null. -/
def present (column : List (Cell K)) : List (Cell K) := column.filter fun c => !c.isNull

def sum (column : List (Cell K)) : Cell K := (present column).foldr add (num 0)

def mean (column : List (Cell K)) : Cell K :=
  if present column = [] then null else div (sum column) (num (present column).length)

/-- The variance with one degree of freedom. -/
def variance (xs : List K) : K :=
  (xs.map fun x => (x - xs.sum / xs.length) ^ 2).sum / ((xs.length - 1 : ℕ) : K)

/-- `std()`, null below two values. -/
def std (root : Root K) (column : List (Cell K)) : Cell K :=
  if (present column).length < 2 then null
  else ((present column).mapM value).elim nan fun xs => num (root.sqrt (variance xs))

/-! ## Cells that are not negative -/

/-- Not below zero, if it compares at all. -/
def NotNegative : Cell K → Prop
  | null | nan | posInf => True
  | num x => 0 ≤ x
  | negInf => False

theorem notNegative_std (root : Root K) (column : List (Cell K)) :
    (std root column).NotNegative := by
  unfold std
  split_ifs
  · trivial
  · cases (present column).mapM value with
    | none => trivial
    | some xs => exact root.nonneg _

variable [IsStrictOrderedRing K] {c d : Cell K} {x : K}

theorem NotNegative.add (hc : c.NotNegative) (hd : d.NotNegative) : (add c d).NotNegative := by
  cases c <;> cases d <;> simp_all [NotNegative, Cell.add, add_nonneg]

theorem NotNegative.mul_num (hc : c.NotNegative) (hx : 0 ≤ x) :
    (mul c (num x)).NotNegative := by
  cases c with
  | num y => exact mul_nonneg hc hx
  | posInf =>
      simp only [mul, infinite]
      split_ifs with hzero hpos
      · trivial
      · trivial
      · exact absurd (lt_of_le_of_ne hx (Ne.symm hzero)) hpos
  | negInf => exact hc.elim
  | null => trivial
  | nan => trivial

theorem NotNegative.div_num (hc : c.NotNegative) (hx : 0 < x) :
    (div c (num x)).NotNegative := by
  cases c with
  | num y =>
      simp only [div, if_neg hx.ne']
      exact div_nonneg hc hx.le
  | posInf => simp [div, not_lt.mpr hx.le, NotNegative]
  | negInf => exact hc.elim
  | null => trivial
  | nan => trivial

theorem notNegative_sum {column : List (Cell K)} (h : ∀ c ∈ column, c.NotNegative) :
    (sum column).NotNegative := by
  have hpresent : ∀ c ∈ present column, c.NotNegative := fun c hc => h c (List.mem_filter.mp hc).1
  unfold sum
  generalize present column = cells at hpresent ⊢
  induction cells with
  | nil => exact le_refl (0 : K)
  | cons c cells ih =>
      rw [List.forall_mem_cons] at hpresent
      exact hpresent.1.add (ih hpresent.2)

end Cell

end TradingPlatform.Base
