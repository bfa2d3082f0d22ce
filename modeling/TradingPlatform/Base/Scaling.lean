import Mathlib.Algebra.BigOperators.Group.List.Basic
import Mathlib.Algebra.Order.BigOperators.Group.List
import Mathlib.Algebra.Order.Field.Basic
import Mathlib.Algebra.BigOperators.Ring.List
import Mathlib.Tactic.Ring

/-! # Scores scaled to a gross total

Scaling divides the scores by the sum of their absolute values. The gross total then is the one
wanted unless all scores are zero, a zero net total stays zero, and the order is kept.
-/

namespace TradingPlatform.Base

variable {K : Type*} [Field K] [LinearOrder K]

def grossTotal (xs : List K) : K := (xs.map (|·|)).sum

/-- `x / total * target`, or zero where the total is. -/
def rescale (total target x : K) : K := if total = 0 then 0 else x / total * target

def scaleTo (target : K) (xs : List K) : List K := xs.map (rescale (grossTotal xs) target)

@[simp] theorem length_scaleTo (target : K) (xs : List K) :
    (scaleTo target xs).length = xs.length := List.length_map _

omit [LinearOrder K] in
theorem sum_map_sub_const {α : Type*} (f : α → K) (c : K) (xs : List α) :
    (xs.map fun x => f x - c).sum = (xs.map f).sum - xs.length * c := by
  induction xs with
  | nil => simp
  | cons x xs ih =>
    simp only [List.map_cons, List.sum_cons, List.length_cons, Nat.cast_succ, ih]
    ring

/-! ## Nets and grosses -/

section

variable [IsStrictOrderedRing K] {target total x y : K} {xs ys : List K}

theorem abs_le_grossTotal (h : x ∈ xs) : |x| ≤ grossTotal xs := by
  apply List.single_le_sum
  · intro y hy
    obtain ⟨z, -, rfl⟩ := List.mem_map.mp hy
    exact abs_nonneg z
  · exact List.mem_map_of_mem h

theorem grossTotal_nonneg (xs : List K) : 0 ≤ grossTotal xs := by
  apply List.sum_nonneg
  intro y hy
  obtain ⟨z, -, rfl⟩ := List.mem_map.mp hy
  exact abs_nonneg z

theorem grossTotal_eq_zero_iff : grossTotal xs = 0 ↔ ∀ x ∈ xs, x = 0 := by
  constructor
  · intro h x hx
    have hle := abs_le_grossTotal hx
    rw [h] at hle
    exact abs_nonpos_iff.mp hle
  · intro h
    have hzero : xs.map (|·|) = xs.map fun _ => (0 : K) :=
      List.map_congr_left fun x hx => by rw [h x hx, abs_zero]
    simp [grossTotal, hzero]

theorem grossTotal_of_nonneg (h : ∀ x ∈ xs, 0 ≤ x) : grossTotal xs = xs.sum := by
  unfold grossTotal
  rw [List.map_congr_left fun x hx => abs_of_nonneg (h x hx), List.map_id']

omit [IsStrictOrderedRing K] in
theorem rescale_eq_mul (total target : K) :
    rescale total target = fun x => x * (if total = 0 then 0 else target / total) := by
  funext x
  unfold rescale
  split_ifs
  · rw [mul_zero]
  · rw [div_mul_eq_mul_div, mul_div_assoc]

omit [IsStrictOrderedRing K] in
theorem sum_map_rescale : (xs.map (rescale total target)).sum = rescale total target xs.sum := by
  rw [rescale_eq_mul, List.sum_map_mul_right, List.map_id']

theorem rescale_mono (htotal : 0 ≤ total) (htarget : 0 ≤ target) (h : x ≤ y) :
    rescale total target x ≤ rescale total target y := by
  unfold rescale
  split_ifs with hzero
  · exact le_rfl
  · gcongr

theorem rescale_eq_zero (htarget : 0 < target) :
    rescale total target x = 0 ↔ total = 0 ∨ x = 0 := by
  by_cases htotal : total = 0
  · simp [rescale, htotal]
  · simp [rescale, htotal, htarget.ne']

theorem abs_rescale (htotal : 0 ≤ total) (htarget : 0 ≤ target) :
    |rescale total target x| = rescale total target |x| := by
  unfold rescale
  split_ifs with hzero
  · exact abs_zero
  · rw [abs_mul, abs_div, abs_of_nonneg htotal, abs_of_nonneg htarget]

/-- Scaling neither makes nor removes a net total. -/
theorem sum_scaleTo_eq_zero_iff (htarget : 0 < target) :
    (scaleTo target xs).sum = 0 ↔ xs.sum = 0 := by
  unfold scaleTo
  rw [sum_map_rescale, rescale_eq_zero htarget]
  constructor
  · rintro (hgross | hnet)
    · rw [List.sum_eq_zero (grossTotal_eq_zero_iff.mp hgross)]
    · exact hnet
  · exact Or.inr

theorem grossTotal_scaleTo (htarget : 0 ≤ target) :
    grossTotal (scaleTo target xs) = target ∨ ∀ w ∈ scaleTo target xs, w = 0 := by
  by_cases hgross : grossTotal xs = 0
  · right
    intro w hw
    obtain ⟨x, -, rfl⟩ := List.mem_map.mp hw
    simp [rescale, hgross]
  · left
    have habs : (scaleTo target xs).map (|·|) =
        (xs.map (|·|)).map (rescale (grossTotal xs) target) := by
      unfold scaleTo
      rw [List.map_map, List.map_map]
      exact List.map_congr_left fun x _ => abs_rescale (grossTotal_nonneg xs) htarget
    rw [grossTotal, habs, sum_map_rescale]
    show rescale (grossTotal xs) target (grossTotal xs) = target
    simp [rescale, hgross]

theorem scaleTo_nonneg (htarget : 0 ≤ target) (h : ∀ x ∈ xs, 0 ≤ x) :
    ∀ w ∈ scaleTo target xs, 0 ≤ w := by
  intro w hw
  obtain ⟨x, hx, rfl⟩ := List.mem_map.mp hw
  have hmono := rescale_mono (grossTotal_nonneg xs) htarget (h x hx)
  simpa [rescale] using hmono

end

end TradingPlatform.Base
