import Mathlib.Data.List.Nodup
import Mathlib.Data.List.Perm.Subperm
import Mathlib.Data.List.Sort
import Mathlib.Order.Lattice
import Mathlib.Tactic.TypeStar

/-! # Sorted sets

Members with a score each, as the commands of a key-value server keep them. What
is counted is the number of members, so distinct members that are known to be in
the set bound the count from below.
-/

namespace TradingPlatform.Base

/-- Each member is there once. -/
structure SortedSet (μ S : Type*) where
  entries : List (μ × S)
  nodup : (entries.map Prod.fst).Nodup

namespace SortedSet

variable {μ S : Type*}

def empty : SortedSet μ S := ⟨[], List.nodup_nil⟩

/-- `ZCARD` -/
def zcard (set : SortedSet μ S) : ℕ := set.entries.length

def filter (set : SortedSet μ S) (p : μ × S → Bool) : SortedSet μ S where
  entries := set.entries.filter p
  nodup := set.nodup.sublist (List.filter_sublist.map Prod.fst)

/-- `ZREM` -/
def zrem [DecidableEq μ] (set : SortedSet μ S) (m : μ) : SortedSet μ S :=
  set.filter fun e => e.1 ≠ m

theorem zadd_nodup [DecidableEq μ] (set : SortedSet μ S) (m : μ) (score : S) :
    (((set.zrem m).entries ++ [(m, score)]).map Prod.fst).Nodup := by
  have hfresh : m ∉ (set.zrem m).entries.map Prod.fst := by
    intro hmem
    obtain ⟨e, he, hm⟩ := List.mem_map.mp hmem
    simp only [zrem, filter, List.mem_filter, decide_eq_true_eq] at he
    exact he.2 hm
  rw [List.map_append, List.map_singleton]
  apply (set.zrem m).nodup.append (List.nodup_singleton m)
  intro x hx hlast
  rw [List.mem_singleton.mp hlast] at hx
  exact hfresh hx

/-- `ZADD`: a member that is there gets the new score. -/
def zadd [DecidableEq μ] (set : SortedSet μ S) (m : μ) (score : S) : SortedSet μ S where
  entries := (set.zrem m).entries ++ [(m, score)]
  nodup := set.zadd_nodup m score

/-- `ZREMRANGEBYSCORE` -/
def zremrangebyscore [LE S] [DecidableLE S] (set : SortedSet μ S) (low high : S) :
    SortedSet μ S := set.filter fun e => ¬(low ≤ e.2 ∧ e.2 ≤ high)

variable {set : SortedSet μ S} {m : μ} {e : μ × S} {score : S}

@[simp] theorem mem_zrem [DecidableEq μ] :
    e ∈ (set.zrem m).entries ↔ e ∈ set.entries ∧ e.1 ≠ m := by
  simp [zrem, filter]

@[simp] theorem mem_zadd [DecidableEq μ] :
    e ∈ (set.zadd m score).entries ↔ (e ∈ set.entries ∧ e.1 ≠ m) ∨ e = (m, score) := by
  simp [zadd]

@[simp] theorem mem_zremrangebyscore [LE S] [DecidableLE S] {low high : S} :
    e ∈ (set.zremrangebyscore low high).entries ↔ e ∈ set.entries ∧ ¬(low ≤ e.2 ∧ e.2 ≤ high) := by
  rw [zremrangebyscore, filter, List.mem_filter, decide_eq_true_eq]

/-- Distinct members of the set are not more than it counts. -/
theorem length_le_zcard {members : List μ} (hnodup : members.Nodup)
    (h : ∀ m ∈ members, ∃ score, (m, score) ∈ set.entries) : members.length ≤ set.zcard := by
  have hsubset : members ⊆ set.entries.map Prod.fst := by
    intro m hm
    obtain ⟨score, hscore⟩ := h m hm
    exact List.mem_map_of_mem hscore
  have hle := (hnodup.subperm hsubset).length_le
  rwa [List.length_map] at hle

/-! ## Ranks -/

section Ranks

variable [LinearOrder μ] [LinearOrder S]

/-- By score, and members of one score by their own order. -/
def Precedes (e f : μ × S) : Prop := e.2 < f.2 ∨ e.2 = f.2 ∧ e.1 ≤ f.1

instance : DecidableRel (Precedes (μ := μ) (S := S)) :=
  fun e f => inferInstanceAs (Decidable (e.2 < f.2 ∨ e.2 = f.2 ∧ e.1 ≤ f.1))

def ranking (set : SortedSet μ S) : List μ := (set.entries.insertionSort Precedes).map Prod.fst

/-- `ZRANGE start stop`, for ranks from the front -/
def zrange (set : SortedSet μ S) (start stop : ℕ) : List μ :=
  (set.ranking.take (stop + 1)).drop start

theorem ranking_perm (set : SortedSet μ S) : set.ranking.Perm (set.entries.map Prod.fst) :=
  (List.perm_insertionSort Precedes set.entries).map Prod.fst

theorem nodup_ranking (set : SortedSet μ S) : set.ranking.Nodup :=
  set.ranking_perm.nodup_iff.mpr set.nodup

@[simp] theorem length_ranking (set : SortedSet μ S) : set.ranking.length = set.zcard := by
  rw [set.ranking_perm.length_eq, List.length_map, zcard]

theorem mem_ranking : m ∈ set.ranking ↔ ∃ score, (m, score) ∈ set.entries := by
  rw [set.ranking_perm.mem_iff]
  simp

end Ranks

end SortedSet

end TradingPlatform.Base
