import Mathlib.Data.List.Count
import Mathlib.Logic.Function.Basic
import Mathlib.Data.Int.Notation
import Mathlib.Data.Nat.Notation

/-! # Reference counts

An index holds a count for every item that is kept. `Covers` says that each count
is at least the number of uses, so that nothing in use is swept, and `Exact` that
it is that number. The rules say what acquiring, releasing and sweeping do to both.
-/

namespace TradingPlatform.Base

variable {ι : Type*}

/-- The counts by item; an item without an entry is not kept. -/
abbrev RefIndex (ι : Type*) := ι → Option ℤ

namespace RefIndex

def refs (r : RefIndex ι) (i : ι) : ℤ := (r i).getD 0

/-- The entries that a collector leaves. -/
def sweep (r : RefIndex ι) : RefIndex ι := fun i => (r i).filter fun n => decide (0 < n)

def Covers (r : RefIndex ι) (uses : ι → ℕ) : Prop := ∀ i, (uses i : ℤ) ≤ r.refs i

def Exact (r : RefIndex ι) (uses : ι → ℕ) : Prop := ∀ i, r.refs i = uses i

variable {r : RefIndex ι} {uses : ι → ℕ}

theorem Exact.covers (h : r.Exact uses) : r.Covers uses := fun i => Int.le_of_eq (h i).symm

theorem Covers.mono {fewer : ι → ℕ} (h : r.Covers uses) (hfewer : ∀ i, fewer i ≤ uses i) :
    r.Covers fewer := fun i => Int.le_trans (Int.ofNat_le.mpr (hfewer i)) (h i)

/-- What is in use has an entry. -/
theorem Covers.isSome (h : r.Covers uses) {i : ι} (hused : 0 < uses i) : (r i).isSome := by
  have hrefs := h i
  unfold refs at hrefs
  cases hentry : r i with
  | some n => rfl
  | none =>
      rw [hentry, Option.getD_none] at hrefs
      omega

theorem isSome_of_sweep {i : ι} (h : (r.sweep i).isSome) : (r i).isSome := by
  unfold sweep at h
  cases hentry : r i with
  | some n => rfl
  | none =>
      rw [hentry] at h
      cases h

theorem Covers.refs_sweep (h : r.Covers uses) {i : ι} : (uses i : ℤ) ≤ (r.sweep i).getD 0 ∧
    (r.refs i = uses i → (r.sweep i).getD 0 = uses i) := by
  have hrefs := h i
  unfold refs at hrefs ⊢
  unfold sweep
  cases hentry : r i with
  | none =>
      rw [hentry] at hrefs
      exact ⟨hrefs, id⟩
  | some n =>
      rw [hentry, Option.getD_some] at hrefs
      by_cases hpos : 0 < n
      · rw [Option.filter_some_pos (by simpa using hpos)]
        exact ⟨hrefs, id⟩
      · rw [Option.filter_some_neg (by simpa using hpos), Option.getD_none, Option.getD_some]
        omega

theorem Covers.sweep (h : r.Covers uses) : r.sweep.Covers uses := fun _ => h.refs_sweep.1

theorem Exact.sweep (h : r.Exact uses) : r.sweep.Exact uses :=
  fun i => h.covers.refs_sweep.2 (h i)

variable [DecidableEq ι]

/-- One more use; the first one makes the entry. -/
def acquire (r : RefIndex ι) (i : ι) : RefIndex ι := Function.update r i (some (r.refs i + 1))

/-- One use less, of what has an entry. -/
def release (r : RefIndex ι) (i : ι) : RefIndex ι :=
  match r i with
  | some n => Function.update r i (some (n - 1))
  | none => r

def releaseAll (r : RefIndex ι) (items : List ι) : RefIndex ι := items.foldl release r

theorem refs_acquire (r : RefIndex ι) (i j : ι) :
    (r.acquire i).refs j = r.refs j + [i].count j := by
  unfold acquire
  by_cases hj : j = i
  · subst hj
    simp [refs]
  · have hne : i ≠ j := fun he => hj he.symm
    simp [refs, Function.update_of_ne hj, hne]

theorem isSome_acquire (r : RefIndex ι) (i j : ι) :
    (r.acquire i j).isSome ↔ j = i ∨ (r j).isSome := by
  unfold acquire
  by_cases hj : j = i
  · subst hj
    simp
  · simp [hj]

theorem isSome_release (r : RefIndex ι) (i j : ι) : (r.release i j).isSome = (r j).isSome := by
  unfold release
  cases hentry : r i with
  | none => rfl
  | some n =>
      by_cases hj : j = i
      · subst hj
        simp [hentry]
      · exact congrArg Option.isSome (Function.update_of_ne hj ..)

theorem refs_release {i : ι} (h : (r i).isSome) (j : ι) :
    (r.release i).refs j + [i].count j = r.refs j := by
  obtain ⟨n, hentry⟩ := Option.isSome_iff_exists.mp h
  have hrelease : r.release i = Function.update r i (some (n - 1)) := by
    unfold release
    rw [hentry]
  rw [hrelease]
  by_cases hj : j = i
  · subst hj
    simp [refs, hentry]
  · have hne : i ≠ j := fun he => hj he.symm
    simp [refs, Function.update_of_ne hj, hne]

theorem isSome_releaseAll (r : RefIndex ι) (items : List ι) (j : ι) :
    (r.releaseAll items j).isSome = (r j).isSome := by
  induction items generalizing r with
  | nil => rfl
  | cons i items ih => exact (ih (r.release i)).trans (isSome_release r i j)

theorem refs_releaseAll {items : List ι} (h : ∀ i ∈ items, (r i).isSome) (j : ι) :
    (r.releaseAll items).refs j + items.count j = r.refs j := by
  induction items generalizing r with
  | nil => exact Int.add_zero _
  | cons i items ih =>
      have hrest : ∀ i' ∈ items, (r.release i i').isSome := by
        intro i' hmem
        rw [isSome_release]
        exact h i' (List.mem_cons_of_mem i hmem)
      have hfirst := refs_release (h i List.mem_cons_self) j
      have hlater := ih hrest
      have hcount : (i :: items).count j = [i].count j + items.count j := by
        rw [← List.singleton_append, List.count_append]
      change ((r.release i).releaseAll items).refs j + _ = _
      rw [hcount]
      omega

/-- The uses that are released may go. -/
theorem Covers.isSome_of_mem {items : List ι} (h : r.Covers fun i => uses i + items.count i) :
    ∀ i ∈ items, (r i).isSome := by
  intro i hmem
  have hcount := List.count_pos_iff.mpr hmem
  exact h.isSome (Nat.lt_of_lt_of_le hcount (Nat.le_add_left ..))

theorem Covers.releaseAll {items : List ι} (h : r.Covers fun i => uses i + items.count i) :
    (r.releaseAll items).Covers uses := by
  intro i
  have hbefore := h i
  have hafter := refs_releaseAll h.isSome_of_mem i
  push_cast at hbefore
  omega

theorem Exact.releaseAll {items : List ι} (h : r.Exact fun i => uses i + items.count i) :
    (r.releaseAll items).Exact uses := by
  intro i
  have hbefore := h i
  have hafter := refs_releaseAll h.covers.isSome_of_mem i
  push_cast at hbefore
  omega

end RefIndex

end TradingPlatform.Base
