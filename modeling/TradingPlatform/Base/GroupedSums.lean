import Mathlib.Algebra.BigOperators.Group.List.Basic
import Mathlib.Algebra.Order.BigOperators.Group.List
import Mathlib.Algebra.Order.Group.Abs
import Mathlib.Algebra.BigOperators.Ring.List
import Mathlib.Data.List.Dedup
import Mathlib.Tactic.Abel

/-! # Sums by group

Rows are grouped by a key, each group is summed. The sums of the groups add up to
the sum of the rows.
-/

namespace TradingPlatform.Base

variable {ρ κ M : Type*} [DecidableEq κ] {key : ρ → κ} {rows : List ρ}

/-- The keys, each once. -/
def groupKeys (key : ρ → κ) (rows : List ρ) : List κ := (rows.map key).dedup

def groupSum [AddCommMonoid M] (key : ρ → κ) (f : ρ → M) (rows : List ρ) (k : κ) : M :=
  ((rows.filter fun r => key r = k).map f).sum

theorem mem_groupKeys {k : κ} : k ∈ groupKeys key rows ↔ ∃ r ∈ rows, key r = k := by
  rw [groupKeys, List.mem_dedup, List.mem_map]

theorem nodup_groupKeys : (groupKeys key rows).Nodup := List.nodup_dedup _

section Sums

variable [AddCommMonoid M] {f g : ρ → M}

@[simp] theorem groupSum_nil (k : κ) : groupSum key f [] k = 0 := rfl

theorem groupSum_cons (r : ρ) (rows : List ρ) (k : κ) :
    groupSum key f (r :: rows) k = (if key r = k then f r else 0) + groupSum key f rows k := by
  unfold groupSum
  by_cases hkey : key r = k
  · rw [List.filter_cons_of_pos (by simpa using hkey), List.map_cons, List.sum_cons, if_pos hkey]
  · rw [List.filter_cons_of_neg (by simpa using hkey), if_neg hkey, zero_add]

theorem groupSum_append (first rows : List ρ) (k : κ) :
    groupSum key f (first ++ rows) k = groupSum key f first k + groupSum key f rows k := by
  simp [groupSum, List.sum_append]

theorem groupSum_eq_zero {k : κ} (h : ∀ r ∈ rows, key r ≠ k) : groupSum key f rows k = 0 := by
  have hnone : rows.filter (fun r => key r = k) = [] := by
    rw [List.filter_eq_nil_iff]
    intro r hr
    simpa using h r hr
  rw [groupSum, hnone, List.map_nil, List.sum_nil]

theorem groupSum_congr {k : κ} (h : ∀ r ∈ rows, key r = k → f r = g r) :
    groupSum key f rows k = groupSum key g rows k := by
  unfold groupSum
  congr 1
  apply List.map_congr_left
  intro r hr
  have ⟨hmem, hkey⟩ := List.mem_filter.mp hr
  exact h r hmem (by simpa using hkey)

/-- Of rows that come in parts, a key that only one part has is summed in that part. -/
theorem groupSum_flatMap {τ ι : Type*} {parts : List τ} {expand : τ → List ρ} {id : τ → ι}
    (hnodup : (parts.map id).Nodup) {part : τ} (hmem : part ∈ parts) {k : κ}
    (hother : ∀ other, id other ≠ id part → ∀ r ∈ expand other, key r ≠ k) :
    groupSum key f (parts.flatMap expand) k = groupSum key f (expand part) k := by
  induction parts with
  | nil => cases hmem
  | cons first parts ih =>
      rw [List.map_cons, List.nodup_cons] at hnodup
      rw [List.flatMap_cons, groupSum_append]
      rcases List.mem_cons.mp hmem with rfl | hmem
      · have hrest : groupSum key f (parts.flatMap expand) k = 0 := by
          apply groupSum_eq_zero
          intro r hr
          obtain ⟨other, hmem', hr⟩ := List.mem_flatMap.mp hr
          refine hother other ?_ r hr
          intro heq
          exact hnodup.1 (heq ▸ List.mem_map_of_mem hmem')
        rw [hrest, add_zero]
      · have hfirst : groupSum key f (expand first) k = 0 := by
          apply groupSum_eq_zero
          intro r hr
          refine hother first ?_ r hr
          intro heq
          exact hnodup.1 (heq ▸ List.mem_map_of_mem hmem)
        rw [hfirst, zero_add, ih hnodup.2 hmem]

/-- Rows that keep their keys are summed as before. -/
theorem groupSum_map {τ : Type*} {key' : τ → κ} {f' : τ → M} {move : ρ → τ}
    (h : ∀ r, key' (move r) = key r) (k : κ) :
    groupSum key' f' (rows.map move) k = groupSum key (fun r => f' (move r)) rows k := by
  rw [groupSum, groupSum, List.filter_map, List.map_map]
  congr 2
  apply List.filter_congr
  intro r _
  simp only [Function.comp_apply, h]

/-- The groups add up to the whole, in any order of the keys. -/
theorem sum_groupSum {keys : List κ} (hnodup : keys.Nodup) (hkeys : ∀ r ∈ rows, key r ∈ keys) :
    (keys.map (groupSum key f rows)).sum = (rows.map f).sum := by
  induction rows with
  | nil =>
      rw [List.map_nil, List.sum_nil]
      apply List.sum_eq_zero
      intro x hx
      obtain ⟨k, -, rfl⟩ := List.mem_map.mp hx
      exact groupSum_nil k
  | cons r rows ih =>
      have hrest := ih fun r' hr' => hkeys r' (List.mem_cons_of_mem _ hr')
      have hfirst : (keys.map fun k => if key r = k then f r else 0).sum = f r := by
        rw [List.sum_map_eq_nsmul_single (key r) _ fun k hk _ => if_neg fun heq => hk heq.symm,
          List.count_eq_one_of_mem hnodup (hkeys r List.mem_cons_self), one_nsmul, if_pos rfl]
      rw [List.map_cons, List.sum_cons, ← hrest, ← hfirst, ← List.sum_map_add]
      congr 1
      apply List.map_congr_left
      intro k _
      exact groupSum_cons r rows k

/-- The groups of some keys add up to the rows with those keys. -/
theorem sum_groupSum_filter {keys : List κ} (hnodup : keys.Nodup) :
    (keys.map (groupSum key f rows)).sum = ((rows.filter fun r => key r ∈ keys).map f).sum := by
  have hkeys : ∀ r ∈ rows.filter fun r => key r ∈ keys, key r ∈ keys := by
    intro r hr
    simpa using (List.mem_filter.mp hr).2
  rw [← sum_groupSum hnodup hkeys]
  congr 1
  apply List.map_congr_left
  intro k hk
  unfold groupSum
  rw [List.filter_filter]
  congr 2
  apply List.filter_congr
  intro r _
  by_cases hkey : key r = k
  · simp [hkey, hk]
  · simp [hkey]

theorem sum_groupKeys : ((groupKeys key rows).map (groupSum key f rows)).sum = (rows.map f).sum :=
  sum_groupSum nodup_groupKeys fun r hr => mem_groupKeys.mpr ⟨r, hr, rfl⟩

end Sums

theorem groupSum_mul {R : Type*} [CommSemiring R] {f : ρ → R} {c : κ → R} (k : κ) :
    groupSum key (fun r => f r * c (key r)) rows k = groupSum key f rows k * c k := by
  rw [groupSum, groupSum, ← List.sum_map_mul_right]
  congr 1
  apply List.map_congr_left
  intro r hr
  have hkey : key r = k := by simpa using (List.mem_filter.mp hr).2
  rw [hkey]

section Order

variable [AddCommGroup M] [LinearOrder M] [IsOrderedAddMonoid M] {f : ρ → M}

theorem abs_sum_map_le (rows : List ρ) (f : ρ → M) :
    |(rows.map f).sum| ≤ (rows.map fun r => |f r|).sum := by
  induction rows with
  | nil => simp
  | cons r rows ih =>
      rw [List.map_cons, List.sum_cons, List.map_cons, List.sum_cons]
      exact (abs_add_le _ _).trans (add_le_add_right ih _)

/-- Nothing is missing from the groups of some keys if the other rows are zero. -/
theorem sum_groupSum_eq_iff {keys : List κ} (hnodup : keys.Nodup) (hnonneg : ∀ r ∈ rows, 0 ≤ f r) :
    (keys.map (groupSum key f rows)).sum = (rows.map f).sum ↔
      ∀ r ∈ rows, key r ∉ keys → f r = 0 := by
  rw [sum_groupSum_filter hnodup]
  induction rows with
  | nil => simp
  | cons r rows ih =>
      have hrest := ih fun s hs => hnonneg s (by simp [hs])
      have hr := hnonneg r (by simp)
      have hle : ((rows.filter fun r => key r ∈ keys).map f).sum ≤ (rows.map f).sum := by
        apply List.Sublist.sum_le_sum (List.filter_sublist.map f)
        intro x hx
        obtain ⟨s, hs, rfl⟩ := List.mem_map.mp hx
        exact hnonneg s (by simp [hs])
      rw [List.forall_mem_cons, ← hrest, List.map_cons, List.sum_cons]
      by_cases hkey : key r ∈ keys
      · rw [List.filter_cons_of_pos (by simpa using hkey), List.map_cons, List.sum_cons]
        simp [hkey]
      · rw [List.filter_cons_of_neg (by simpa using hkey)]
        constructor
        · intro hsum
          have hzero : f r = 0 := by
            apply le_antisymm _ hr
            rw [hsum] at hle
            simpa using hle
          rw [hzero, zero_add] at hsum
          exact ⟨fun _ => hzero, hsum⟩
        · rintro ⟨hzero, hsum⟩
          rw [hzero hkey, zero_add, hsum]

theorem abs_groupSum_le (k : κ) : |groupSum key f rows k| ≤ groupSum key (fun r => |f r|) rows k :=
  abs_sum_map_le _ f

theorem groupSum_abs_nonneg (k : κ) : 0 ≤ groupSum key (fun r => |f r|) rows k :=
  (abs_nonneg _).trans (abs_groupSum_le k)

end Order

end TradingPlatform.Base
