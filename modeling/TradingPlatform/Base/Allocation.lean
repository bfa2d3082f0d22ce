import Mathlib.Algebra.BigOperators.Group.List.Basic
import Mathlib.Algebra.Order.Group.Defs
import Mathlib.Algebra.Order.Group.Unbundled.Basic
import Mathlib.Tactic.Abel
import Mathlib.Tactic.TypeStar

/-! # Greedy allocation

A demand is placed on slots in order, on each as much as fits, until nothing is
left of it. What a slot gets is its capacity or what the slots before it leave
over, whichever is less.
-/

namespace TradingPlatform.Base

variable {ι R : Type*} [AddCommGroup R] [LinearOrder R]

def allocate (capacity : ι → R) : R → List ι → List (ι × R)
  | _, [] => []
  | need, x :: xs =>
      if need ≤ 0 then []
      else if capacity x ≤ 0 then allocate capacity need xs
      else
        (x, min (capacity x) need) :: allocate capacity (need - min (capacity x) need) xs

/-- What a list of slots takes at most. -/
def room (capacity : ι → R) (xs : List ι) : R := (xs.map fun x => max (capacity x) 0).sum

variable {capacity : ι → R} {need : R} {xs : List ι}

theorem room_cons (x : ι) : room capacity (x :: xs) = max (capacity x) 0 + room capacity xs := by
  rw [room, List.map_cons, List.sum_cons, room]

theorem allocate_of_nonpos (h : need ≤ 0) : allocate capacity need xs = [] := by
  cases xs with
  | nil => rfl
  | cons x xs => exact if_pos h

theorem allocate_keys_sublist (need : R) (xs : List ι) :
    ((allocate capacity need xs).map Prod.fst).Sublist xs := by
  induction xs generalizing need with
  | nil => exact List.Sublist.refl _
  | cons x xs ih =>
      rw [allocate]
      split
      · exact List.nil_sublist _
      · split
        · exact (ih need).cons x
        · exact (ih _).cons_cons x

/-- Only the capacities of the listed slots are read. -/
theorem allocate_congr {capacity' : ι → R} (h : ∀ x ∈ xs, capacity x = capacity' x) (need : R) :
    allocate capacity need xs = allocate capacity' need xs := by
  induction xs generalizing need with
  | nil => rfl
  | cons x xs ih =>
      have hrest := ih fun y hy => h y (List.mem_cons_of_mem x hy)
      rw [allocate, allocate, h x List.mem_cons_self, hrest, hrest]

theorem allocate_map {κ : Type*} (f : κ → ι) (need : R) (ys : List κ) :
    allocate capacity need (ys.map f) =
      (allocate (fun y => capacity (f y)) need ys).map fun p => (f p.1, p.2) := by
  induction ys generalizing need with
  | nil => rfl
  | cons y ys ih =>
      rw [List.map_cons, allocate, allocate]
      split
      · rfl
      · split
        · exact ih need
        · rw [List.map_cons, ih]

variable [IsOrderedAddMonoid R]

theorem room_nonneg (xs : List ι) : 0 ≤ room capacity xs := by
  induction xs with
  | nil => exact le_refl _
  | cons x xs ih =>
      rw [room_cons]
      exact add_nonneg (le_max_right _ _) ih

/-- No more is placed than was asked for. -/
theorem sum_allocate_le (h : 0 ≤ need) (xs : List ι) :
    ((allocate capacity need xs).map Prod.snd).sum ≤ need := by
  induction xs generalizing need with
  | nil => exact h
  | cons x xs ih =>
      rw [allocate]
      split
      · exact h
      · split
        · exact ih h
        · have hrest := ih (sub_nonneg.mpr (min_le_right (capacity x) need))
          rw [List.map_cons, List.sum_cons]
          exact le_sub_iff_add_le'.mp hrest

theorem splits_cons {x y : ι} {P : List ι → Prop} :
    (∃ before after, y :: xs = before ++ x :: after ∧ P before) ↔
      (y = x ∧ P []) ∨ ∃ before after, xs = before ++ x :: after ∧ P (y :: before) := by
  constructor
  · rintro ⟨before, after, hsplit, hp⟩
    cases before with
    | nil =>
        obtain ⟨rfl, -⟩ := List.cons.inj hsplit
        exact Or.inl ⟨rfl, hp⟩
    | cons z before =>
        obtain ⟨rfl, hrest⟩ := List.cons.inj hsplit
        exact Or.inr ⟨before, after, hrest, hp⟩
  · rintro (⟨rfl, hp⟩ | ⟨before, after, rfl, hp⟩)
    · exact ⟨[], xs, rfl, hp⟩
    · exact ⟨y :: before, after, rfl, hp⟩

/-- A slot gets its share when the slots before it leave something over. -/
theorem mem_allocate_iff {x : ι} {amount : R} :
    (x, amount) ∈ allocate capacity need xs ↔
      ∃ before after, xs = before ++ x :: after ∧ 0 < need - room capacity before ∧
        0 < capacity x ∧ amount = min (capacity x) (need - room capacity before) := by
  induction xs generalizing need with
  | nil => simp [allocate]
  | cons y ys ih =>
      rw [splits_cons]
      by_cases hneed : need ≤ 0
      · rw [allocate_of_nonpos hneed]
        have hnone : ∀ before, ¬0 < need - room capacity before := by
          intro before
          exact not_lt.mpr ((sub_le_self _ (room_nonneg before)).trans hneed)
        simp [hnone]
      · by_cases hcap : capacity y ≤ 0
        · have hroom : ∀ before, room capacity (y :: before) = room capacity before := by
            intro before
            rw [room_cons, max_eq_right hcap, zero_add]
          simp only [allocate, if_neg hneed, if_pos hcap, ih, hroom]
          constructor
          · exact Or.inr
          · rintro (⟨rfl, -, hpos, -⟩ | hrest)
            · exact absurd hcap (not_le.mpr hpos)
            · exact hrest
        · have hpos := not_le.mp hcap
          have hroom : ∀ before,
              need - room capacity (y :: before) = need - capacity y - room capacity before := by
            intro before
            rw [room_cons, max_eq_left hpos.le]
            abel
          simp only [allocate, if_neg hneed, if_neg hcap, List.mem_cons, Prod.mk.injEq, hroom]
          apply or_congr
          · constructor
            · rintro ⟨rfl, rfl⟩
              simpa [room, hpos] using not_le.mp hneed
            · rintro ⟨rfl, -, -, rfl⟩
              simp [room]
          · rcases le_total (capacity y) need with hle | hle
            · rw [min_eq_left hle, ih]
            · -- The slot takes all that is left, and the later ones get nothing.
              rw [min_eq_right hle, sub_self, allocate_of_nonpos le_rfl]
              have hnone : ∀ before, ¬0 < need - capacity y - room capacity before := by
                intro before
                exact not_lt.mpr ((sub_le_self _ (room_nonneg before)).trans (sub_nonpos.mpr hle))
              simp [hnone]

section Share

variable [DecidableEq ι]

/-- What a slot gets by the capacities of the slots before it. -/
def share (capacity : ι → R) (need : R) (xs : List ι) (x : ι) : R :=
  max 0 (min (capacity x) (need - room capacity (xs.takeWhile fun y => y ≠ x)))

theorem takeWhile_ne_of_split {x : ι} {before after : List ι}
    (hnodup : (before ++ x :: after).Nodup) :
    (before ++ x :: after).takeWhile (fun y => y ≠ x) = before := by
  have hbefore : ∀ y ∈ before, decide (y ≠ x) = true := by
    intro y hy
    rw [decide_eq_true_eq]
    exact (List.nodup_append.mp hnodup).2.2 y hy x List.mem_cons_self
  rw [List.takeWhile_append_of_pos hbefore, List.takeWhile_cons_of_neg (by simp),
    List.append_nil]

theorem mem_allocate_iff_share (hnodup : xs.Nodup) {x : ι} {amount : R} :
    (x, amount) ∈ allocate capacity need xs ↔
      x ∈ xs ∧ 0 < share capacity need xs x ∧ amount = share capacity need xs x := by
  rw [mem_allocate_iff]
  constructor
  · rintro ⟨before, after, rfl, hneed, hcap, rfl⟩
    have hshare : share capacity need (before ++ x :: after) x =
        min (capacity x) (need - room capacity before) := by
      rw [share, takeWhile_ne_of_split hnodup, max_eq_right (le_min hcap.le hneed.le)]
    rw [hshare]
    exact ⟨by simp, lt_min hcap hneed, rfl⟩
  · rintro ⟨hmem, hpos, hamount⟩
    obtain ⟨before, after, rfl⟩ := List.append_of_mem hmem
    rw [share, takeWhile_ne_of_split hnodup] at hpos hamount
    have hmin : 0 < min (capacity x) (need - room capacity before) :=
      (lt_max_iff.mp hpos).resolve_left (lt_irrefl 0)
    rw [max_eq_right hmin.le] at hamount
    exact ⟨before, after, rfl, (lt_min_iff.mp hmin).2, (lt_min_iff.mp hmin).1, hamount⟩

end Share

end TradingPlatform.Base
