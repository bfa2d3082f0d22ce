import Mathlib.Data.List.Induction
import Mathlib.Tactic.Common

/-! # Cartesian products of lists

The product lists one choice from each list, the last list varying fastest. The place of a choice in
it is a number in the mixed radix of the lengths.
-/

namespace TradingPlatform.Base

variable {α β : Type*}

def cartesian : List (List α) → List (List α)
  | [] => [[]]
  | xs :: rest => xs.flatMap fun x => (cartesian rest).map (x :: ·)

/-- The product of the lengths. -/
def combinations : List (List α) → ℕ
  | [] => 1
  | xs :: rest => xs.length * combinations rest

theorem combinations_concat (xss : List (List α)) (ys : List α) :
    combinations (xss ++ [ys]) = combinations xss * ys.length := by
  induction xss with
  | nil => simp [combinations]
  | cons xs xss ih => rw [List.cons_append, combinations, combinations, ih, Nat.mul_assoc]

theorem combinations_pos {xss : List (List α)} (h : ∀ xs ∈ xss, xs ≠ []) :
    0 < combinations xss := by
  induction xss with
  | nil => exact Nat.one_pos
  | cons xs xss ih =>
      have hfirst : 0 < xs.length := List.length_pos_iff.mpr (h xs (by simp))
      exact Nat.mul_pos hfirst (ih fun ys hys => h ys (by simp [hys]))

theorem cartesian_concat (xss : List (List α)) (ys : List α) :
    cartesian (xss ++ [ys]) = (cartesian xss).flatMap fun xs => ys.map fun y => xs ++ [y] := by
  induction xss with
  | nil => simp [cartesian, List.map_eq_flatMap]
  | cons xs xss ih =>
      simp only [List.cons_append, cartesian, ih, List.map_flatMap, List.flatMap_assoc,
        List.flatMap_map, List.map_map]
      rfl

theorem length_flatMap_of_length {f : α → List β} {m : ℕ} (hf : ∀ a, (f a).length = m)
    (l : List α) : (l.flatMap f).length = l.length * m := by
  induction l with
  | nil => simp
  | cons a l ih =>
      rw [List.flatMap_cons, List.length_append, hf, ih, List.length_cons, Nat.succ_mul,
        Nat.add_comm]

theorem length_cartesian (xss : List (List α)) : (cartesian xss).length = combinations xss := by
  induction xss with
  | nil => rfl
  | cons xs xss ih =>
      rw [cartesian, combinations]
      exact length_flatMap_of_length (by simp [ih]) xs

theorem length_of_mem_cartesian {xss : List (List α)} {xs : List α} (h : xs ∈ cartesian xss) :
    xs.length = xss.length := by
  induction xss generalizing xs with
  | nil => simp_all [cartesian]
  | cons ys xss ih =>
      simp only [cartesian, List.mem_flatMap, List.mem_map] at h
      obtain ⟨y, _, rest, hrest, rfl⟩ := h
      simp [ih hrest]

/-- The places of blocks of one length. -/
theorem getElem?_flatMap_of_length {f : α → List β} {m : ℕ} (hm : 0 < m)
    (hf : ∀ a, (f a).length = m) (l : List α) (i : ℕ) :
    (l.flatMap f)[i]? = l[i / m]?.bind fun a => (f a)[i % m]? := by
  induction l generalizing i with
  | nil => simp
  | cons a l ih =>
      rw [List.flatMap_cons, List.getElem?_append, hf]
      split
      · rename_i hlt
        simp [Nat.div_eq_of_lt hlt, Nat.mod_eq_of_lt hlt]
      · rename_i hge
        have hblock : i = (i - m) + m := by omega
        have hdiv : i / m = (i - m) / m + 1 := by
          rw [← Nat.add_div_right _ hm, ← hblock]
        have hmod : i % m = (i - m) % m := by
          rw [← Nat.add_mod_right (i - m), ← hblock]
        rw [ih, hdiv, List.getElem?_cons_succ, hmod]

/-- The choice at a place, by the last of its digits. -/
theorem getElem?_cartesian_concat (xss : List (List α)) {ys : List α} (h : ys ≠ []) (i : ℕ) :
    (cartesian (xss ++ [ys]))[i]? = (cartesian xss)[i / ys.length]?.bind fun xs =>
      ys[i % ys.length]?.map fun y => xs ++ [y] := by
  rw [cartesian_concat, getElem?_flatMap_of_length (List.length_pos_iff.mpr h) (by simp)]
  simp

end TradingPlatform.Base
