import Mathlib.Algebra.BigOperators.Group.Finset.Basic
import Mathlib.Algebra.BigOperators.Intervals
import Mathlib.Algebra.Order.BigOperators.Group.Finset
import Mathlib.Data.Rat.Defs
import Mathlib.Tactic.Ring

/-! # Run-length encoded sequences

A list of runs stands for the sequence of all their positions. `runAt` finds the run that a
position lies in, `starts` numbers the runs by their first positions, and `flow` adds up what a
stretch of positions carries.
-/

namespace TradingPlatform.Base

variable {α : Type} (size : α → ℕ)

/-- The number of positions. -/
def extent (runs : List α) : ℕ := (runs.map size).sum

/-- The run of a position. -/
def runAt : List α → ℕ → Option α
  | [], _ => none
  | a :: runs, i => if i < size a then some a else runAt runs (i - size a)

/-- Every run with its first position, counted from an offset on. -/
def starts : ℕ → List α → List (ℕ × α)
  | _, [] => []
  | offset, a :: runs => (offset, a) :: starts (offset + size a) runs

/-- What the positions from `a` up to `b` carry. -/
def flow (f : ℕ → ℚ) (a b : ℕ) : ℚ := ∑ i ∈ Finset.Ico a b, f i

variable {size}

@[simp] theorem extent_nil : extent size ([] : List α) = 0 := rfl

@[simp] theorem extent_cons (a : α) (runs : List α) :
    extent size (a :: runs) = size a + extent size runs := by
  simp [extent]

@[simp] theorem extent_append (before after : List α) :
    extent size (before ++ after) = extent size before + extent size after := by
  simp [extent]

theorem runAt_append (before : List α) (a : α) (after : List α) {i : ℕ}
    (hlower : extent size before ≤ i) (hupper : i < extent size before + size a) :
    runAt size (before ++ a :: after) i = some a := by
  induction before generalizing i with
  | nil =>
      have hi : i < size a := by simpa using hupper
      simp [runAt, hi]
  | cons b before ih =>
      rw [extent_cons] at hlower hupper
      have hnot : ¬ i < size b := by omega
      rw [List.cons_append, runAt, if_neg hnot]
      exact ih (by omega) (by omega)

theorem mem_of_runAt {runs : List α} {i : ℕ} {a : α} (h : runAt size runs i = some a) :
    a ∈ runs := by
  induction runs generalizing i with
  | nil => simp [runAt] at h
  | cons b runs ih =>
      rw [runAt] at h
      split at h
      · rw [Option.some.inj h]
        exact List.mem_cons_self ..
      · exact List.mem_cons_of_mem _ (ih h)

/-- Two positions in a row lie in one run, or a run ends between them. -/
theorem runAt_succ {runs : List α} (hpos : ∀ a ∈ runs, 0 < size a) {i : ℕ}
    (hi : i + 1 < extent size runs) :
    runAt size runs (i + 1) = runAt size runs i ∨
      ∃ before a a' after, runs = before ++ a :: a' :: after ∧
        extent size (before ++ [a]) = i + 1 ∧ runAt size runs i = some a ∧
        runAt size runs (i + 1) = some a' := by
  induction runs generalizing i with
  | nil => simp at hi
  | cons a runs ih =>
      have hrest : ∀ b ∈ runs, 0 < size b := fun b hb => hpos b (by simp [hb])
      rw [extent_cons] at hi
      by_cases hin : i + 1 < size a
      · exact .inl (by simp [runAt, hin, Nat.lt_of_succ_lt hin])
      · by_cases hlast : i < size a
        · -- the first run ends at this position
          cases runs with
          | nil => simp at hi; omega
          | cons a' after =>
              have hzero : i + 1 - size a = 0 := by omega
              refine .inr ⟨[], a, a', after, rfl, by simp; omega, by simp [runAt, hlast], ?_⟩
              rw [runAt, if_neg hin, hzero, runAt, if_pos (hrest a' (by simp))]
        · have hnext : i + 1 - size a = i - size a + 1 := by omega
          have hsucc := ih hrest (i := i - size a) (by omega)
          rw [runAt, if_neg hin, runAt, if_neg hlast, hnext]
          rcases hsucc with hsame | ⟨before, b, b', after, hruns, hext, hat, hat'⟩
          · exact .inl hsame
          · refine .inr ⟨a :: before, b, b', after, by rw [hruns]; rfl, ?_, hat, hat'⟩
            rw [List.cons_append, extent_cons, hext]
            omega

theorem runAt_last {runs : List α} (hpos : ∀ a ∈ runs, 0 < size a) :
    runAt size runs (extent size runs - 1) = runs.getLast? := by
  rcases List.eq_nil_or_concat runs with hnil | ⟨before, a, hconcat⟩
  · rw [hnil]
    rfl
  · have ha : 0 < size a := hpos a (by simp [hconcat])
    rw [hconcat, List.concat_eq_append, List.getLast?_concat, extent_append, extent_cons,
      extent_nil]
    exact runAt_append before a [] (by omega) (by omega)

theorem starts_append (offset : ℕ) (before after : List α) :
    starts size offset (before ++ after) =
      starts size offset before ++ starts size (offset + extent size before) after := by
  induction before generalizing offset with
  | nil => simp [starts]
  | cons a before ih => simp [starts, ih, Nat.add_assoc]

theorem le_of_mem_starts {offset : ℕ} {runs : List α} {x : ℕ × α}
    (hx : x ∈ starts size offset runs) : offset ≤ x.1 := by
  induction runs generalizing offset with
  | nil => simp [starts] at hx
  | cons a runs ih =>
      rcases List.mem_cons.1 hx with heq | hrest
      · rw [heq]
      · exact Nat.le_trans (Nat.le_add_right ..) (ih hrest)

theorem mem_starts_le {offset : ℕ} {runs : List α} {x : ℕ × α}
    (hx : x ∈ starts size offset runs) : x.1 ≤ offset + extent size runs := by
  induction runs generalizing offset with
  | nil => simp [starts] at hx
  | cons a runs ih =>
      rw [extent_cons]
      rcases List.mem_cons.1 hx with heq | hrest
      · rw [heq]
        exact Nat.le_add_right ..
      · have hle := ih hrest
        omega

theorem flow_self (f : ℕ → ℚ) (a : ℕ) : flow f a a = 0 := by
  simp [flow]

theorem flow_add (f : ℕ → ℚ) {a b c : ℕ} (hab : a ≤ b) (hbc : b ≤ c) :
    flow f a b + flow f b c = flow f a c := Finset.sum_Ico_consecutive f hab hbc

/-- A stretch of one rate carries its length times the rate. -/
theorem flow_const {f : ℕ → ℚ} {a n : ℕ} {rate : ℚ}
    (hf : ∀ i, a ≤ i → i < a + n → f i = rate) : flow f a (a + n) = n * rate := by
  have hsum : flow f a (a + n) = ∑ _i ∈ Finset.Ico a (a + n), rate := by
    refine Finset.sum_congr rfl fun i hi => ?_
    obtain ⟨hlower, hupper⟩ := Finset.mem_Ico.1 hi
    exact hf i hlower hupper
  rw [hsum, Finset.sum_const, Nat.card_Ico, Nat.add_sub_cancel_left, nsmul_eq_mul]

theorem flow_nonneg {f : ℕ → ℚ} (hf : ∀ i, 0 ≤ f i) (a b : ℕ) : 0 ≤ flow f a b :=
  Finset.sum_nonneg fun i _ => hf i

/-- Stretches of one width, side by side, carry what the whole carries. -/
theorem sum_flow (f : ℕ → ℚ) (width a n : ℕ) :
    ((List.range n).map fun k => flow f ((a + k) * width) ((a + k + 1) * width)).sum =
      flow f (a * width) ((a + n) * width) := by
  induction n with
  | zero => simp [flow_self]
  | succ n ih =>
      rw [List.range_succ, List.map_append, List.sum_append, ih]
      have hle : a * width ≤ (a + n) * width := Nat.mul_le_mul_right _ (Nat.le_add_right ..)
      have hle' : (a + n) * width ≤ (a + n + 1) * width := Nat.mul_le_mul_right _ (Nat.le_succ _)
      rw [← Nat.add_assoc a n 1, ← flow_add f hle hle']
      simp

end TradingPlatform.Base
