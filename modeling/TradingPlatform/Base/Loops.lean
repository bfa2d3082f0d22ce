import Mathlib.Data.Nat.Notation
import Mathlib.Tactic.TypeStar

/-! # Loops

A loop runs its body as long as its test holds. The rounds are counted; an invariant says what
holds when it ends, a bound that goes down says after how many rounds it does.
-/

namespace TradingPlatform.Base

variable {σ : Type*}

/-- The loop ends in the last state after that number of rounds. -/
inductive LoopEnds (test : σ → Bool) (body : σ → σ) : σ → ℕ → σ → Prop
  | done {s : σ} (h : test s = false) : LoopEnds test body s 0 s
  | round {s s' : σ} {rounds : ℕ} (h : test s = true)
      (rest : LoopEnds test body (body s) rounds s') : LoopEnds test body s (rounds + 1) s'

variable {test : σ → Bool} {body : σ → σ} {s s' s'' : σ} {rounds rounds' : ℕ}

/-- A loop ends in one way at most. -/
theorem LoopEnds.unique (h : LoopEnds test body s rounds s')
    (h' : LoopEnds test body s rounds' s'') : rounds = rounds' ∧ s' = s'' := by
  induction h generalizing rounds' with
  | done hdone =>
      cases h' with
      | done => exact ⟨rfl, rfl⟩
      | round hround => simp [hdone] at hround
  | round hround _ ih =>
      cases h' with
      | done hdone => simp [hdone] at hround
      | round _ rest =>
          obtain ⟨hrounds, hstate⟩ := ih rest
          exact ⟨congrArg Nat.succ hrounds, hstate⟩

/-- What each round keeps holds at the end, where the test fails. -/
theorem LoopEnds.invariant {I : σ → Prop} (hround : ∀ s, I s → test s = true → I (body s))
    (h : LoopEnds test body s rounds s') (hs : I s) : I s' ∧ test s' = false := by
  induction h with
  | done hdone => exact ⟨hs, hdone⟩
  | round htest _ ih => exact ih (hround _ hs htest)

/-- A loop ends within a bound that each round lowers by one. -/
theorem exists_loopEnds {I : σ → Prop} {bound : σ → ℕ → Prop}
    (hround : ∀ s, I s → test s = true → I (body s))
    (hpos : ∀ s, I s → test s = true → ¬ bound s 0)
    (hlower : ∀ s n, I s → test s = true → bound s (n + 1) → bound (body s) n)
    {n : ℕ} (hs : I s) (hbound : bound s n) :
    ∃ rounds ≤ n, ∃ s', LoopEnds test body s rounds s' := by
  induction n generalizing s with
  | zero =>
      cases htest : test s with
      | false => exact ⟨0, Nat.le_refl 0, s, .done htest⟩
      | true => exact absurd hbound (hpos s hs htest)
  | succ n ih =>
      cases htest : test s with
      | false => exact ⟨0, Nat.zero_le _, s, .done htest⟩
      | true =>
          obtain ⟨rounds, hle, s', hends⟩ := ih (hround s hs htest) (hlower s n hs htest hbound)
          exact ⟨rounds + 1, Nat.succ_le_succ hle, s', .round htest hends⟩

end TradingPlatform.Base
