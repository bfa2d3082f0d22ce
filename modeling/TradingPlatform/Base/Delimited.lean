import Mathlib.Data.List.Basic
import Mathlib.Tactic.TypeStar

/-! # Fields between delimiters

A field that does not have the delimiter is told apart from what stands before or
after it. Printed naturals are such fields, and determine their number.
-/

namespace TradingPlatform.Base

variable {α : Type*} {d : α} {u v x y : List α}

theorem append_cons_left_inj (hu : d ∉ u) (hv : d ∉ v) (h : u ++ d :: x = v ++ d :: y) :
    u = v ∧ x = y := by
  induction u generalizing v with
  | nil =>
      cases v with
      | nil => exact ⟨rfl, List.tail_eq_of_cons_eq h⟩
      | cons b v => exact absurd (List.head_eq_of_cons_eq h) (List.ne_of_not_mem_cons hv)
  | cons a u ih =>
      cases v with
      | nil => exact absurd (List.head_eq_of_cons_eq h).symm (List.ne_of_not_mem_cons hu)
      | cons b v =>
          rw [List.cons_append, List.cons_append, List.cons.injEq] at h
          rw [List.mem_cons, not_or] at hu hv
          obtain ⟨hrest, hafter⟩ := ih hu.2 hv.2 h.2
          exact ⟨by rw [h.1, hrest], hafter⟩

theorem append_cons_right_inj (hu : d ∉ u) (hv : d ∉ v) (h : x ++ d :: u = y ++ d :: v) :
    x = y ∧ u = v := by
  have hreverse := congrArg List.reverse h
  simp only [List.reverse_append, List.reverse_cons, List.append_assoc, List.singleton_append]
    at hreverse
  obtain ⟨hlast, hfirst⟩ := append_cons_left_inj (List.mem_reverse.not.mpr hu)
    (List.mem_reverse.not.mpr hv) hreverse
  exact ⟨List.reverse_injective hfirst, List.reverse_injective hlast⟩

/-- A field ends where its kind of characters does. -/
theorem append_inj_of_kind {p : α → Bool} {a b : α} (hu : ∀ c ∈ u, p c = true)
    (hv : ∀ c ∈ v, p c = true) (ha : p a = false) (hb : p b = false)
    (h : u ++ a :: x = v ++ b :: y) : u = v ∧ a :: x = b :: y := by
  have htake := congrArg (List.takeWhile p) h
  rw [List.takeWhile_append_of_pos hu, List.takeWhile_append_of_pos hv,
    List.takeWhile_cons_of_neg (by simp [ha]), List.takeWhile_cons_of_neg (by simp [hb]),
    List.append_nil, List.append_nil] at htake
  rw [htake] at h
  exact ⟨htake, List.append_cancel_left h⟩

/-! ## Printed naturals -/

theorem isDigit_of_mem_toString {n : ℕ} {c : Char} (h : c ∈ (toString n).toList) :
    c.isDigit = true := by
  rw [Nat.toString_eq_ofList_toDigits, String.toList_ofList] at h
  exact Nat.isDigit_of_mem_toDigits (by decide) (by decide) h

theorem not_mem_toString {n : ℕ} {c : Char} (h : c.isDigit = false) : c ∉ (toString n).toList := by
  intro hmem
  rw [isDigit_of_mem_toString hmem] at h
  cases h

theorem toString_toList_inj {n m : ℕ} (h : (toString n).toList = (toString m).toList) : n = m := by
  rw [Nat.toString_eq_ofList_toDigits, Nat.toString_eq_ofList_toDigits, String.toList_ofList,
    String.toList_ofList] at h
  rw [← Nat.ofDigitChars_ten_toDigits (n := n), h, Nat.ofDigitChars_ten_toDigits]

end TradingPlatform.Base
