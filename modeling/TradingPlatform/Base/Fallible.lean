import Mathlib.Data.List.Forall2

/-! # Results that may be errors

What a chain of fallible steps, or a fallible function over a list, says of its
parts when it succeeds or fails.
-/

namespace TradingPlatform.Base

theorem Except.bind_ok {ε α β : Type} {x : Except ε α} {f : α → Except ε β} {b : β}
    (h : (x >>= f) = .ok b) : ∃ a, x = .ok a ∧ f a = .ok b := by
  cases x with
  | error e => cases h
  | ok a => exact ⟨a, rfl, h⟩

theorem Except.bind_error {ε α β : Type} {x : Except ε α} {f : α → Except ε β} {e : ε}
    (h : (x >>= f) = .error e) : x = .error e ∨ ∃ a, x = .ok a ∧ f a = .error e := by
  cases x with
  | error e' =>
      cases h
      exact Or.inl rfl
  | ok a => exact Or.inr ⟨a, rfl, h⟩

theorem mapM_ok {ε α β : Type} {f : α → Except ε β} {l : List α} {ys : List β}
    (h : l.mapM f = .ok ys) : List.Forall₂ (fun x y => f x = .ok y) l ys := by
  induction l generalizing ys with
  | nil =>
      cases h
      exact .nil
  | cons a l ih =>
      rw [List.mapM_cons] at h
      obtain ⟨y, hy, h⟩ := Except.bind_ok h
      obtain ⟨rest, hrest, h⟩ := Except.bind_ok h
      cases h
      exact .cons hy (ih hrest)

/-- A failure of the whole is the failure of one. -/
theorem mapM_error {ε α β : Type} {f : α → Except ε β} {l : List α} {e : ε}
    (h : l.mapM f = .error e) : ∃ x ∈ l, f x = .error e := by
  induction l with
  | nil => cases h
  | cons a l ih =>
      rw [List.mapM_cons] at h
      cases hfirst : f a with
      | error e' =>
          rw [hfirst] at h
          cases h
          exact ⟨a, List.mem_cons_self, hfirst⟩
      | ok y =>
          rw [hfirst] at h
          cases hrest : l.mapM f with
          | error e' =>
              rw [hrest] at h
              cases h
              obtain ⟨x, hx, hfailed⟩ := ih hrest
              exact ⟨x, List.mem_cons_of_mem _ hx, hfailed⟩
          | ok ys =>
              rw [hrest] at h
              cases h

/-! ## Lists related element by element -/

theorem map_eq_of_forall₂ {α β γ : Type} {R : α → β → Prop} {f : α → γ} {g : β → γ}
    {l : List α} {ys : List β} (h : List.Forall₂ R l ys) (hg : ∀ x y, R x y → g y = f x) :
    ys.map g = l.map f := by
  induction h with
  | nil => rfl
  | cons hxy _ ih => rw [List.map_cons, List.map_cons, hg _ _ hxy, ih]

theorem exists_left_of_forall₂ {β γ : Type*} {R : β → γ → Prop} {xs : List β} {ys : List γ}
    (h : List.Forall₂ R xs ys) {y : γ} (hy : y ∈ ys) : ∃ x ∈ xs, R x y := by
  induction h with
  | nil => cases hy
  | cons hhead _ ih =>
      rcases List.mem_cons.mp hy with heq | hmem
      · exact ⟨_, by simp, heq ▸ hhead⟩
      · obtain ⟨x, hx, hR⟩ := ih hmem
        exact ⟨x, by simp [hx], hR⟩

theorem exists_right_of_forall₂ {β γ : Type*} {R : β → γ → Prop} {xs : List β} {ys : List γ}
    (h : List.Forall₂ R xs ys) {x : β} (hx : x ∈ xs) : ∃ y ∈ ys, R x y := by
  obtain ⟨y, hy, hR⟩ := exists_left_of_forall₂ h.flip hx
  exact ⟨y, hy, hR⟩

end TradingPlatform.Base
