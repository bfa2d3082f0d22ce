import Mathlib.Tactic.TypeStar

/-! # Transactions that a failed statement aborts

A statement that the server refuses aborts its transaction: no later statement is
executed, and the commit restores the state the transaction started from without
reporting an error.
-/

namespace TradingPlatform.Base

structure Transaction (σ : Type*) where
  saved : σ
  current : σ
  aborted : Bool

namespace Transaction

variable {σ ε : Type*}

def start (s : σ) : Transaction σ := ⟨s, s, false⟩

/-- A statement that cannot fail. -/
def execute (f : σ → σ) (t : Transaction σ) : Transaction σ :=
  if t.aborted then t else { t with current := f t.current }

/-- A statement with its refusal; within an aborted transaction there is none to report. -/
def attempt (f : σ → Except ε σ) (t : Transaction σ) : Transaction σ × Except (Option ε) Unit :=
  if t.aborted then (t, .error none)
  else match f t.current with
    | .ok s => ({ t with current := s }, .ok ())
    | .error e => ({ t with aborted := true }, .error (some e))

def commit (t : Transaction σ) : σ := if t.aborted then t.saved else t.current

def rollback (t : Transaction σ) : σ := t.saved

@[simp] theorem execute_start (f : σ → σ) (s : σ) :
    execute f (start s) = ⟨s, f s, false⟩ := rfl

@[simp] theorem execute_running (f : σ → σ) (s u : σ) :
    execute f ⟨s, u, false⟩ = ⟨s, f u, false⟩ := rfl

theorem attempt_ok {f : σ → Except ε σ} {s u v : σ} (h : f u = .ok v) :
    attempt f ⟨s, u, false⟩ = (⟨s, v, false⟩, .ok ()) := by
  simp [attempt, h]

theorem attempt_error {e : ε} {f : σ → Except ε σ} {s u : σ} (h : f u = .error e) :
    attempt f ⟨s, u, false⟩ = (⟨s, u, true⟩, .error (some e)) := by
  simp [attempt, h]

@[simp] theorem commit_running (s u : σ) : commit ⟨s, u, false⟩ = u := rfl

/-- The commit of an aborted transaction is a rollback. -/
@[simp] theorem commit_aborted (s u : σ) : commit ⟨s, u, true⟩ = s := rfl

end Transaction

end TradingPlatform.Base
