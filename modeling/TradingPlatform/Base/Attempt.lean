import TradingPlatform.Base.Fallible

/-! # Steps that may fail

A step runs on a state and returns a value or an error. Unlike a transaction it
keeps what it has done where it fails, so a handler finds the state of the failure.
-/

namespace TradingPlatform.Base

universe u

/-- A step on a state `σ` with errors `ε`. -/
def Attempt (σ ε α : Type u) : Type u := σ → Except ε α × σ

namespace Attempt

variable {σ ε α β : Type u} {s s' : σ} {x : Attempt σ ε α} {f : α → Attempt σ ε β} {a : α} {e : ε}

instance : Monad (Attempt σ ε) where
  pure a := fun s => (.ok a, s)
  bind x f := fun s =>
    match x s with
    | (.ok a, s') => f a s'
    | (.error e, s') => (.error e, s')

def fail (e : ε) : Attempt σ ε α := fun s => (.error e, s)

def get : Attempt σ ε σ := fun s => (.ok s, s)

def modify (g : σ → σ) : Attempt σ ε PUnit := fun s => (.ok ⟨⟩, g s)

/-- `try` with a handler, which runs on the state of the failure. -/
def handle (x : Attempt σ ε α) (handler : ε → Attempt σ ε α) : Attempt σ ε α := fun s =>
  match x s with
  | (.ok a, s') => (.ok a, s')
  | (.error e, s') => handler e s'

@[simp] theorem pure_apply : (pure a : Attempt σ ε α) s = (.ok a, s) := rfl

@[simp] theorem fail_apply : (fail e : Attempt σ ε α) s = (.error e, s) := rfl

@[simp] theorem get_apply : (get : Attempt σ ε σ) s = (.ok s, s) := rfl

@[simp] theorem modify_apply (g : σ → σ) :
    (modify g : Attempt σ ε PUnit) s = (.ok ⟨⟩, g s) := rfl

theorem bind_apply : (x >>= f) s =
    match x s with
    | (.ok a, s') => f a s'
    | (.error e, s') => (.error e, s') := rfl

theorem bind_of_ok (h : x s = (.ok a, s')) : (x >>= f) s = f a s' := by rw [bind_apply, h]

theorem bind_of_error (h : x s = (.error e, s')) : (x >>= f) s = (.error e, s') := by
  rw [bind_apply, h]

theorem handle_of_ok {handler : ε → Attempt σ ε α} (h : x s = (.ok a, s')) :
    x.handle handler s = (.ok a, s') := by
  simp [handle, h]

theorem handle_of_error {handler : ε → Attempt σ ε α} (h : x s = (.error e, s')) :
    x.handle handler s = handler e s' := by
  simp [handle, h]

theorem bind_eq_ok {b : β} : (x >>= f) s = (.ok b, s') ↔
    ∃ a s₁, x s = (.ok a, s₁) ∧ f a s₁ = (.ok b, s') := by
  rw [bind_apply]
  cases hcase : x s with
  | mk result s₁ => cases result <;> simp

/-- The step fails on the state. -/
def Fails (x : Attempt σ ε α) (s : σ) : Prop := ∃ e, (x s).1 = .error e

theorem not_fails : ¬x.Fails s ↔ ∃ a, x s = (.ok a, (x s).2) := by
  unfold Fails
  cases hcase : x s with
  | mk result s' => cases result <;> simp

theorem Fails.bind (h : x.Fails s) : (x >>= f).Fails s := by
  obtain ⟨e, he⟩ := h
  have hpair : x s = (.error e, (x s).2) := Prod.ext he rfl
  rw [Fails, bind_of_error hpair]
  exact ⟨e, rfl⟩

/-- A step fails where its last part always does. -/
theorem Fails.of_last (hf : ∀ a s, (f a).Fails s) : (x >>= f).Fails s := by
  by_cases hx : x.Fails s
  · exact hx.bind
  · obtain ⟨a, ha⟩ := not_fails.1 hx
    rw [Fails, bind_of_ok ha]
    exact hf a _

theorem Fails.handle {handler : ε → Attempt σ ε α} (hx : x.Fails s)
    (hhandler : ∀ e s, (handler e).Fails s) : (x.handle handler).Fails s := by
  obtain ⟨e, he⟩ := hx
  have hpair : x s = (.error e, (x s).2) := Prod.ext he rfl
  rw [Fails, handle_of_error hpair]
  exact hhandler e _

/-! ## What a step keeps, whether it fails or not -/

def Keeps (P : σ → Prop) (x : Attempt σ ε α) : Prop := ∀ s, P s → P (x s).2

variable {P : σ → Prop}

theorem Keeps.pure : (pure a : Attempt σ ε α).Keeps P := fun _ h => h

theorem Keeps.fail : (fail e : Attempt σ ε α).Keeps P := fun _ h => h

theorem Keeps.get : (get : Attempt σ ε σ).Keeps P := fun _ h => h

theorem Keeps.modify {g : σ → σ} (h : ∀ s, P s → P (g s)) :
    (modify g : Attempt σ ε PUnit).Keeps P := h

theorem Keeps.bind (hx : x.Keeps P) (hf : ∀ a, (f a).Keeps P) : (x >>= f).Keeps P := by
  intro s hs
  have hafter := hx s hs
  cases hcase : x s with
  | mk result s' =>
      rw [hcase] at hafter
      cases result with
      | ok a =>
          rw [Attempt.bind_of_ok hcase]
          exact hf a s' hafter
      | error e =>
          rw [bind_of_error hcase]
          exact hafter

theorem Keeps.handle {handler : ε → Attempt σ ε α} (hx : x.Keeps P)
    (hhandler : ∀ e, (handler e).Keeps P) : (x.handle handler).Keeps P := by
  intro s hs
  have hafter := hx s hs
  cases hcase : x s with
  | mk result s' =>
      rw [hcase] at hafter
      cases result with
      | ok a =>
          rw [handle_of_ok hcase]
          exact hafter
      | error e =>
          rw [handle_of_error hcase]
          exact hhandler e s' hafter

theorem Keeps.ite {c : Prop} [Decidable c] {y : Attempt σ ε α} (hx : x.Keeps P)
    (hy : y.Keeps P) : (if c then x else y).Keeps P := by
  split
  · exact hx
  · exact hy

end Attempt

end TradingPlatform.Base
