import Mathlib.Data.List.Count
import Mathlib.Data.List.Nodup
import Mathlib.Data.List.Perm.Subperm
import Mathlib.Data.Nat.Notation
import Mathlib.Order.Lattice
import Mathlib.Order.Nat
import Mathlib.Tactic.Common

/-! # Ordinal ranks

Every value of a list gets a rank of its own, and equal values are ranked in the order in which
they stand. So the ranks are the numbers from one to the length, whatever the values.
-/

namespace TradingPlatform.Base

variable {K : Type*} [LinearOrder K] {x y : K} {before middle after xs : List K}

/-- The rank of a value between those before and those after it. -/
def rankAmong (before : List K) (x : K) (after : List K) : ℕ :=
  1 + before.countP (· ≤ x) + after.countP (· < x)

def ordinalRanksFrom : List K → List K → List ℕ
  | _, [] => []
  | before, x :: after => rankAmong before x after :: ordinalRanksFrom (before ++ [x]) after

/-- `rank(method="ordinal")` -/
def ordinalRanks (xs : List K) : List ℕ := ordinalRanksFrom [] xs

example : ordinalRanks [5, 2, 5, 1] = [3, 2, 4, 1] := by decide

theorem length_ordinalRanksFrom (before xs : List K) :
    (ordinalRanksFrom before xs).length = xs.length := by
  induction xs generalizing before with
  | nil => rfl
  | cons x after ih => simp [ordinalRanksFrom, ih]

@[simp] theorem length_ordinalRanks (xs : List K) : (ordinalRanks xs).length = xs.length :=
  length_ordinalRanksFrom [] xs

theorem mem_zip_ordinalRanksFrom {r : ℕ} (h : (x, r) ∈ xs.zip (ordinalRanksFrom before xs)) :
    ∃ middle after, xs = middle ++ x :: after ∧ r = rankAmong (before ++ middle) x after := by
  induction xs generalizing before with
  | nil => simp at h
  | cons y xs ih =>
    rw [ordinalRanksFrom, List.zip_cons_cons, List.mem_cons] at h
    rcases h with hhead | htail
    · obtain ⟨rfl, rfl⟩ := Prod.mk.inj hhead
      exact ⟨[], xs, rfl, by simp⟩
    · obtain ⟨middle, after, rfl, rfl⟩ := ih htail
      exact ⟨y :: middle, after, rfl, by simp⟩

omit [LinearOrder K] in
theorem countP_le_countP {p q : K → Prop} [DecidablePred p] [DecidablePred q]
    (h : ∀ z, p z → q z) (xs : List K) :
    xs.countP (fun z => p z) ≤ xs.countP (fun z => q z) := by
  apply List.countP_mono_left
  intro z _ hz
  simpa using h z (by simpa using hz)

/-- Of two values the earlier one is ranked first unless it is greater. -/
theorem rankAmong_lt_rankAmong (h : x ≤ y) :
    rankAmong before x (middle ++ y :: after) < rankAmong (before ++ x :: middle) y after := by
  have hbefore := countP_le_countP (fun z (hz : z ≤ x) => hz.trans h) before
  have hmiddle := countP_le_countP (fun z (hz : z < x) => hz.le.trans h) middle
  have hafter := countP_le_countP (fun z (hz : z < x) => hz.trans_le h) after
  simp only [rankAmong, List.countP_append, List.countP_cons, decide_eq_true_eq, h, if_true,
    not_lt.mpr h, if_false]
  omega

theorem rankAmong_gt_rankAmong (h : y < x) :
    rankAmong (before ++ x :: middle) y after < rankAmong before x (middle ++ y :: after) := by
  have hbefore := countP_le_countP (fun z (hz : z ≤ y) => hz.trans h.le) before
  have hmiddle := countP_le_countP (fun z (hz : z ≤ y) => hz.trans_lt h) middle
  have hafter := countP_le_countP (fun z (hz : z < y) => hz.trans h) after
  simp only [rankAmong, List.countP_append, List.countP_cons, decide_eq_true_eq, h, if_true,
    not_le.mpr h, if_false]
  omega

/-- A greater value has a greater rank. -/
theorem ordinalRanksFrom_lt {r s : ℕ} (hx : (x, r) ∈ xs.zip (ordinalRanksFrom before xs))
    (hy : (y, s) ∈ xs.zip (ordinalRanksFrom before xs)) (h : x < y) : r < s := by
  induction xs generalizing before with
  | nil => simp at hx
  | cons z xs ih =>
    rw [ordinalRanksFrom, List.zip_cons_cons, List.mem_cons] at hx hy
    rcases hx with hx | hx
    · obtain ⟨rfl, rfl⟩ := Prod.mk.inj hx
      rcases hy with hy | hy
      · exact absurd (Prod.mk.inj hy).1.symm h.ne
      · obtain ⟨middle, after, rfl, rfl⟩ := mem_zip_ordinalRanksFrom hy
        simpa using rankAmong_lt_rankAmong h.le
    · rcases hy with hy | hy
      · obtain ⟨rfl, rfl⟩ := Prod.mk.inj hy
        obtain ⟨middle, after, rfl, rfl⟩ := mem_zip_ordinalRanksFrom hx
        simpa using rankAmong_gt_rankAmong h
      · exact ih hx hy

theorem ordinalRanks_lt {r s : ℕ} (hx : (x, r) ∈ xs.zip (ordinalRanks xs))
    (hy : (y, s) ∈ xs.zip (ordinalRanks xs)) (h : x < y) : r < s :=
  ordinalRanksFrom_lt hx hy h

theorem mem_ordinalRanksFrom {r : ℕ} (h : r ∈ ordinalRanksFrom before xs) :
    ∃ middle x after, xs = middle ++ x :: after ∧ r = rankAmong (before ++ middle) x after := by
  obtain ⟨i, hi, rfl⟩ := List.getElem_of_mem h
  have hlength := length_ordinalRanksFrom before xs
  have hpair : (xs[i], (ordinalRanksFrom before xs)[i]) ∈ xs.zip (ordinalRanksFrom before xs) := by
    rw [← List.getElem_zip (h := by rw [List.length_zip]; omega)]
    exact List.getElem_mem _
  obtain ⟨middle, after, hsplit, hrank⟩ := mem_zip_ordinalRanksFrom hpair
  exact ⟨middle, _, after, hsplit, hrank⟩

theorem nodup_ordinalRanksFrom (before xs : List K) : (ordinalRanksFrom before xs).Nodup := by
  induction xs generalizing before with
  | nil => exact List.nodup_nil
  | cons x xs ih =>
    rw [ordinalRanksFrom, List.nodup_cons]
    refine ⟨fun hmem => ?_, ih (before ++ [x])⟩
    obtain ⟨middle, y, after, rfl, hrank⟩ := mem_ordinalRanksFrom hmem
    rw [List.append_assoc, List.singleton_append] at hrank
    rcases le_or_gt x y with hle | hgt
    · exact (rankAmong_lt_rankAmong hle).ne hrank
    · exact (rankAmong_gt_rankAmong hgt).ne' hrank

/-- The ranks are the numbers from one on. -/
theorem ordinalRanks_perm (xs : List K) : (ordinalRanks xs).Perm (List.range' 1 xs.length) := by
  apply List.Subperm.perm_of_length_le
  · apply (nodup_ordinalRanksFrom [] xs).subperm
    intro r hr
    obtain ⟨middle, x, after, rfl, rfl⟩ := mem_ordinalRanksFrom hr
    have hbefore := List.countP_le_length (p := (· ≤ x)) (l := middle)
    have hafter := List.countP_le_length (p := (· < x)) (l := after)
    simp only [List.mem_range'_1, rankAmong, List.nil_append, List.length_append, List.length_cons]
    omega
  · simp

end TradingPlatform.Base
