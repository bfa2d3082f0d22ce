import Mathlib.Algebra.Order.Field.Basic
import Mathlib.Order.Monotone.Basic
import Mathlib.Tactic.FieldSimp
import Mathlib.Tactic.GCongr
import Mathlib.Tactic.Linarith
import Mathlib.Tactic.Ring

/-! # Bisection of a falling function

The search halves a bracket over a change of sign until a midpoint is close enough to zero, a
number of times at most. What it returns is decided by the cell of the finest grid in which a
falling function changes its sign.
-/

namespace TradingPlatform.Base

variable {K : Type*} [Field K] [LinearOrder K]

/-- A bracket is positive at its lower end and is not at its upper one. -/
structure Bracket (f : K → K) (low high : K) : Prop where
  low_pos : 0 < f low
  high_nonpos : f high ≤ 0

def midpoint (low high : K) : K := (low + high) / 2

def bisect (f : K → K) (tolerance : K) : ℕ → K → K → K
  | 0, low, high => midpoint low high
  | n + 1, low, high =>
    let mid := midpoint low high
    if |f mid| < tolerance then mid
    else if 0 < f mid then bisect f tolerance n mid high
    else bisect f tolerance n low mid

section

variable [IsStrictOrderedRing K] {f : K → K} {tolerance low high : K} {n : ℕ}

theorem le_midpoint (hle : low ≤ high) : low ≤ midpoint low high := by
  unfold midpoint
  linarith

theorem midpoint_le (hle : low ≤ high) : midpoint low high ≤ high := by
  unfold midpoint
  linarith

/-- The result is close to a zero or halves a bracket of the last width. -/
theorem bisect_spec (h : Bracket f low high) :
    |f (bisect f tolerance n low high)| < tolerance ∨
      ∃ low' high', bisect f tolerance n low high = midpoint low' high' ∧ Bracket f low' high' ∧
        high' - low' = (high - low) / 2 ^ n := by
  induction n generalizing low high with
  | zero =>
    right
    exact ⟨low, high, rfl, h, by simp⟩
  | succ n ih =>
    rw [bisect]
    split_ifs with hclose hpos
    · left
      exact hclose
    · have hhalf : Bracket f (midpoint low high) high := ⟨hpos, h.high_nonpos⟩
      rcases ih hhalf with hnear | ⟨low', high', hmid, hbracket, hwidth⟩
      · left
        exact hnear
      · right
        refine ⟨low', high', hmid, hbracket, ?_⟩
        rw [hwidth, pow_succ, midpoint]
        field_simp
        ring
    · have hhalf : Bracket f low (midpoint low high) := ⟨h.low_pos, not_lt.mp hpos⟩
      rcases ih hhalf with hnear | ⟨low', high', hmid, hbracket, hwidth⟩
      · left
        exact hnear
      · right
        refine ⟨low', high', hmid, hbracket, ?_⟩
        rw [hwidth, pow_succ, midpoint]
        field_simp
        ring

theorem le_bisect (hle : low ≤ high) : low ≤ bisect f tolerance n low high := by
  induction n generalizing low high with
  | zero => exact le_midpoint hle
  | succ n ih =>
    rw [bisect]
    split_ifs
    · exact le_midpoint hle
    · exact (le_midpoint hle).trans (ih (midpoint_le hle))
    · exact ih (le_midpoint hle)

/-- The `k`th point of the grid of `2 ^ n` cells. -/
def gridPoint (low high : K) (n : ℕ) (k : K) : K := low + k * ((high - low) / 2 ^ n)

/-- The `k`th cell holds the change of sign, and its middle is no further below zero than the
tolerance unless the search ended at its lower end or before. -/
def ResolvedCell (f : K → K) (tolerance low high : K) (n k : ℕ) : Prop :=
  Bracket f (gridPoint low high n k) (gridPoint low high n (k + 1)) ∧
    (-tolerance ≤ f (gridPoint low high n (k + 1 / 2)) ∨
      0 < k ∧ f (gridPoint low high n k) < tolerance)

omit [LinearOrder K] [IsStrictOrderedRing K] in
theorem gridPoint_zero (k : K) : gridPoint low high 0 k = low + k * (high - low) := by
  simp [gridPoint]

theorem gridPoint_low_half (k : K) :
    gridPoint low (midpoint low high) n k = gridPoint low high (n + 1) k := by
  unfold gridPoint midpoint
  rw [pow_succ]
  field_simp
  ring

theorem gridPoint_high_half (k : K) :
    gridPoint (midpoint low high) high n k = gridPoint low high (n + 1) (2 ^ n + k) := by
  unfold gridPoint midpoint
  rw [pow_succ]
  field_simp
  ring

theorem gridPoint_half : gridPoint low high (n + 1) (2 ^ n) = midpoint low high := by
  unfold gridPoint midpoint
  rw [pow_succ]
  field_simp
  ring

theorem gridPoint_mono (hle : low ≤ high) {j k : K} (h : j ≤ k) :
    gridPoint low high n j ≤ gridPoint low high n k := by
  unfold gridPoint
  have hwidth : 0 ≤ (high - low) / 2 ^ n := div_nonneg (by linarith) (by positivity)
  have hmul := mul_le_mul_of_nonneg_right h hwidth
  linarith

theorem resolvedCell_low_half {k : ℕ} :
    ResolvedCell f tolerance low (midpoint low high) n k ↔
      ResolvedCell f tolerance low high (n + 1) k := by
  simp only [ResolvedCell, gridPoint_low_half]

theorem bracket_high_half {k : ℕ} :
    Bracket f (gridPoint (midpoint low high) high n k)
        (gridPoint (midpoint low high) high n (k + 1)) ↔
      Bracket f (gridPoint low high (n + 1) (2 ^ n + k : ℕ))
        (gridPoint low high (n + 1) ((2 ^ n + k : ℕ) + 1)) := by
  rw [gridPoint_high_half, gridPoint_high_half]
  push_cast
  rw [add_assoc]

/-- Some cell of the grid holds a change of sign. -/
theorem exists_bracket (h : Bracket f low high) (n : ℕ) :
    ∃ k < 2 ^ n, Bracket f (gridPoint low high n (k : ℕ)) (gridPoint low high n ((k : ℕ) + 1)) := by
  induction n generalizing low high with
  | zero =>
    refine ⟨0, by simp, ?_⟩
    simpa [gridPoint] using h
  | succ n ih =>
    by_cases hpos : 0 < f (midpoint low high)
    · have hhalf : Bracket f (midpoint low high) high := ⟨hpos, h.high_nonpos⟩
      obtain ⟨k, hk, hbracket⟩ := ih hhalf
      refine ⟨2 ^ n + k, ?_, bracket_high_half.mp hbracket⟩
      rw [pow_succ]
      omega
    · have hhalf : Bracket f low (midpoint low high) := ⟨h.low_pos, not_lt.mp hpos⟩
      obtain ⟨k, hk, hbracket⟩ := ih hhalf
      refine ⟨k, ?_, ?_⟩
      · rw [pow_succ]
        omega
      · rwa [gridPoint_low_half, gridPoint_low_half] at hbracket

/-- A midpoint that is close to zero resolves the cell of the change of sign. -/
theorem exists_resolved_of_close (hanti : Antitone f) (hle : low ≤ high)
    (h : Bracket f low high) (hclose : |f (midpoint low high)| < tolerance) :
    ∃ k < 2 ^ (n + 1), ResolvedCell f tolerance low high (n + 1) k := by
  obtain ⟨hbelow, habove⟩ := abs_lt.mp hclose
  by_cases hpos : 0 < f (midpoint low high)
  · have hhalf : Bracket f (midpoint low high) high := ⟨hpos, h.high_nonpos⟩
    obtain ⟨k, hk, hbracket⟩ := exists_bracket hhalf n
    rw [bracket_high_half] at hbracket
    refine ⟨2 ^ n + k, by rw [pow_succ]; omega, hbracket, Or.inr ⟨by positivity, ?_⟩⟩
    have hmid : midpoint low high ≤ gridPoint low high (n + 1) (2 ^ n + k : ℕ) := by
      rw [← gridPoint_half (n := n)]
      apply gridPoint_mono hle
      push_cast
      linarith [(Nat.cast_nonneg k : (0 : K) ≤ k)]
    exact (hanti hmid).trans_lt habove
  · have hhalf : Bracket f low (midpoint low high) := ⟨h.low_pos, not_lt.mp hpos⟩
    obtain ⟨k, hk, hbracket⟩ := exists_bracket hhalf n
    rw [gridPoint_low_half, gridPoint_low_half] at hbracket
    refine ⟨k, by rw [pow_succ]; omega, hbracket, Or.inl ?_⟩
    have hcast : (k : K) + 1 ≤ 2 ^ n := by exact_mod_cast hk
    have hmid : gridPoint low high (n + 1) (k + 1 / 2) ≤ midpoint low high := by
      rw [← gridPoint_half (n := n)]
      apply gridPoint_mono hle
      linarith
    exact hbelow.le.trans (hanti hmid)

theorem resolved_high_half_iff (hanti : Antitone f) (hle : low ≤ high)
    (hfar : tolerance ≤ f (midpoint low high)) (hpos : 0 < tolerance) :
    (∃ k < 2 ^ n, ResolvedCell f tolerance (midpoint low high) high n k) ↔
      ∃ k < 2 ^ (n + 1), ResolvedCell f tolerance low high (n + 1) k := by
  constructor
  · rintro ⟨k, hk, hbracket, hresolved⟩
    refine ⟨2 ^ n + k, by rw [pow_succ]; omega, bracket_high_half.mp hbracket, ?_⟩
    rw [gridPoint_high_half, gridPoint_high_half] at hresolved
    push_cast
    rw [add_assoc]
    rcases hresolved with hmiddle | ⟨-, hlow⟩
    · exact Or.inl hmiddle
    · exact Or.inr ⟨by positivity, hlow⟩
  · rintro ⟨k, hk, hbracket, hresolved⟩
    have hhalf : 2 ^ n ≤ k := by
      by_contra hsmall
      have hcast : (k : K) + 1 ≤ 2 ^ n := by exact_mod_cast (not_le.mp hsmall)
      have hmid : gridPoint low high (n + 1) (k + 1) ≤ midpoint low high := by
        rw [← gridPoint_half (n := n)]
        exact gridPoint_mono hle hcast
      have hfall := hanti hmid
      linarith [hbracket.high_nonpos]
    obtain ⟨k, rfl⟩ := Nat.exists_eq_add_of_le hhalf
    refine ⟨k, by rw [pow_succ] at hk; omega, bracket_high_half.mpr hbracket, ?_⟩
    rw [gridPoint_high_half, gridPoint_high_half, ← add_assoc]
    push_cast at hresolved
    rcases hresolved with hmiddle | ⟨-, hlow⟩
    · exact Or.inl hmiddle
    · refine Or.inr ⟨Nat.pos_of_ne_zero ?_, hlow⟩
      rintro rfl
      rw [Nat.cast_zero, add_zero, gridPoint_half] at hlow
      linarith

theorem resolved_low_half_iff (hanti : Antitone f) (hle : low ≤ high)
    (hfar : f (midpoint low high) ≤ 0) :
    (∃ k < 2 ^ n, ResolvedCell f tolerance low (midpoint low high) n k) ↔
      ∃ k < 2 ^ (n + 1), ResolvedCell f tolerance low high (n + 1) k := by
  simp only [resolvedCell_low_half]
  constructor
  · rintro ⟨k, hk, hresolved⟩
    exact ⟨k, by rw [pow_succ]; omega, hresolved⟩
  · rintro ⟨k, hk, hresolved⟩
    refine ⟨k, ?_, hresolved⟩
    by_contra hlarge
    have hcast : (2 : K) ^ n ≤ k := by exact_mod_cast (not_lt.mp hlarge)
    have hmid : midpoint low high ≤ gridPoint low high (n + 1) k := by
      rw [← gridPoint_half (n := n)]
      exact gridPoint_mono hle hcast
    have hfall := hanti hmid
    linarith [hresolved.1.low_pos]

/-- The result is below zero by the tolerance at most if the cell of the change of sign is
resolved. -/
theorem bisect_resolved_iff (hanti : Antitone f) (hle : low ≤ high)
    (hpos : 0 < tolerance) (h : Bracket f low high) :
    -tolerance ≤ f (bisect f tolerance n low high) ↔
      ∃ k < 2 ^ n, ResolvedCell f tolerance low high n k := by
  induction n generalizing low high with
  | zero =>
    have hmiddle : gridPoint low high 0 (((0 : ℕ) : K) + 1 / 2) = midpoint low high := by
      rw [gridPoint_zero, midpoint]
      push_cast
      ring
    constructor
    · intro hclose
      refine ⟨0, by simp, by simpa [gridPoint_zero] using h, Or.inl ?_⟩
      rw [hmiddle]
      exact hclose
    · rintro ⟨k, hk, -, hresolved⟩
      obtain rfl : k = 0 := by simpa using hk
      rw [hmiddle] at hresolved
      rcases hresolved with hclose | ⟨hzero, -⟩
      · exact hclose
      · exact absurd hzero (by omega)
  | succ n ih =>
    rw [bisect]
    split_ifs with hclose hsign
    · exact iff_of_true (abs_lt.mp hclose).1.le (exists_resolved_of_close hanti hle h hclose)
    · have hfar : tolerance ≤ f (midpoint low high) := by
        rwa [abs_of_pos hsign, not_lt] at hclose
      rw [← resolved_high_half_iff hanti hle hfar hpos]
      exact ih (midpoint_le hle) ⟨hsign, h.high_nonpos⟩
    · rw [← resolved_low_half_iff hanti hle (not_lt.mp hsign)]
      exact ih (le_midpoint hle) ⟨h.low_pos, not_lt.mp hsign⟩

end

end TradingPlatform.Base
