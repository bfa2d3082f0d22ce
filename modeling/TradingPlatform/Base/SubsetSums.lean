import Mathlib

/-! # Bounds on all partial sums

What a list of signed amounts can add up to when any part of it goes through:
the extremes are the sum of its gains and the sum of its losses, so a bound on
all sublists is a bound on these two.
-/

namespace TradingPlatform.Base

def gains (xs : List ℤ) : ℤ := (xs.map fun x => max x 0).sum

def losses (xs : List ℤ) : ℤ := (xs.map fun x => min x 0).sum

@[simp] theorem gains_nil : gains [] = 0 := rfl

@[simp] theorem losses_nil : losses [] = 0 := rfl

@[simp] theorem gains_cons (x : ℤ) (xs : List ℤ) : gains (x :: xs) = max x 0 + gains xs := by
  simp [gains]

@[simp] theorem losses_cons (x : ℤ) (xs : List ℤ) : losses (x :: xs) = min x 0 + losses xs := by
  simp [losses]

@[simp] theorem gains_append (xs ys : List ℤ) : gains (xs ++ ys) = gains xs + gains ys := by
  simp [gains]

@[simp] theorem losses_append (xs ys : List ℤ) : losses (xs ++ ys) = losses xs + losses ys := by
  simp [losses]

theorem gains_perm {xs ys : List ℤ} (h : xs.Perm ys) : gains xs = gains ys :=
  (h.map _).sum_eq

theorem losses_perm {xs ys : List ℤ} (h : xs.Perm ys) : losses xs = losses ys :=
  (h.map _).sum_eq

theorem gains_add_losses (xs : List ℤ) : gains xs + losses xs = xs.sum := by
  induction xs with
  | nil => rfl
  | cons x xs ih =>
      rw [gains_cons, losses_cons, List.sum_cons]
      omega

theorem losses_le_sum_le_gains {xs ys : List ℤ} (h : ys.Sublist xs) :
    losses xs ≤ ys.sum ∧ ys.sum ≤ gains xs := by
  induction h with
  | slnil => exact ⟨le_refl _, le_refl _⟩
  | cons x _ ih =>
      rw [gains_cons, losses_cons]
      omega
  | cons_cons x _ ih =>
      rw [gains_cons, losses_cons, List.sum_cons]
      omega

/-- The gains are themselves a partial sum. -/
theorem sum_filter_pos (xs : List ℤ) : (xs.filter fun x => 0 < x).sum = gains xs := by
  induction xs with
  | nil => rfl
  | cons x xs ih =>
      by_cases hx : 0 < x
      · rw [List.filter_cons_of_pos (by simpa using hx), List.sum_cons, gains_cons, ih]
        omega
      · rw [List.filter_cons_of_neg (by simpa using hx), gains_cons, ih]
        omega

theorem sum_filter_neg (xs : List ℤ) : (xs.filter fun x => x < 0).sum = losses xs := by
  induction xs with
  | nil => rfl
  | cons x xs ih =>
      by_cases hx : x < 0
      · rw [List.filter_cons_of_pos (by simpa using hx), List.sum_cons, losses_cons, ih]
        omega
      · rw [List.filter_cons_of_neg (by simpa using hx), losses_cons, ih]
        omega

/-- Every partial sum stays between two bounds exactly when the losses and the gains do. -/
theorem sublist_sums_within (xs : List ℤ) (lo hi : ℤ) :
    (∀ ys : List ℤ, ys.Sublist xs → lo ≤ ys.sum ∧ ys.sum ≤ hi) ↔
      lo ≤ losses xs ∧ gains xs ≤ hi := by
  constructor
  · intro h
    have hneg := h _ (List.filter_sublist (p := fun x => decide (x < 0)))
    have hpos := h _ (List.filter_sublist (p := fun x => decide (0 < x)))
    rw [sum_filter_neg] at hneg
    rw [sum_filter_pos] at hpos
    exact ⟨hneg.1, hpos.2⟩
  · intro h ys hys
    have hbounds := losses_le_sum_le_gains hys
    omega

end TradingPlatform.Base
