import TradingPlatform.Base.Run
import Mathlib.Logic.Function.Basic

/-! # Interleaved threads

Threads with a state of their own act on a shared state, one action at a time and in any order.
A property of the shared state and of each thread holds throughout if every action keeps it for
the thread that acts and breaks it for no other.
-/

namespace TradingPlatform.Base

structure Threads (ι σ ℓ : Type*) where
  shared : σ
  loc : ι → ℓ

variable {ι σ ℓ α : Type*} [DecidableEq ι]

/-- One action of one thread. -/
def interleave (act : ι → σ → ℓ → α → σ × ℓ) (s : Threads ι σ ℓ) (move : ι × α) :
    Threads ι σ ℓ :=
  let result := act move.1 s.shared (s.loc move.1) move.2
  ⟨result.1, Function.update s.loc move.1 result.2⟩

variable {act : ι → σ → ℓ → α → σ × ℓ} {I : σ → Prop} {J : ι → σ → ℓ → Prop}
  {C : Threads ι σ ℓ → ι × α → Prop}

theorem interleave_loc_self (s : Threads ι σ ℓ) (move : ι × α) :
    (interleave act s move).loc move.1 = (act move.1 s.shared (s.loc move.1) move.2).2 :=
  Function.update_self ..

theorem interleave_loc_of_ne {s : Threads ι σ ℓ} {move : ι × α} {i : ι} (h : i ≠ move.1) :
    (interleave act s move).loc i = s.loc i :=
  Function.update_of_ne h ..

/-- The shared state and every thread are as they should be. -/
structure AllThreads (I : σ → Prop) (J : ι → σ → ℓ → Prop) (s : Threads ι σ ℓ) : Prop where
  shared : I s.shared
  thread : ∀ i, J i s.shared (s.loc i)

/-- The step rule: what an action gives its own thread, and what it leaves to the others. -/
theorem AllThreads.step {s : Threads ι σ ℓ} {move : ι × α} (h : AllThreads I J s)
    (hown : I (act move.1 s.shared (s.loc move.1) move.2).1 ∧
      J move.1 (act move.1 s.shared (s.loc move.1) move.2).1
        (act move.1 s.shared (s.loc move.1) move.2).2)
    (hothers : ∀ j, j ≠ move.1 → J j s.shared (s.loc j) →
      J j (act move.1 s.shared (s.loc move.1) move.2).1 (s.loc j)) :
    AllThreads I J (interleave act s move) where
  shared := hown.1
  thread := by
    intro j
    show J j (act move.1 s.shared (s.loc move.1) move.2).1
      (Function.update s.loc move.1 (act move.1 s.shared (s.loc move.1) move.2).2 j)
    by_cases hj : j = move.1
    · rw [hj, Function.update_self]
      exact hown.2
    · rw [Function.update_of_ne hj]
      exact hothers j hj (h.thread j)

end TradingPlatform.Base
