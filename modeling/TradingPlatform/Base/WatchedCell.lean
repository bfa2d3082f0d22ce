import Mathlib.Order.Basic
import Mathlib.Tactic.TypeStar

/-! # A cell under optimistic locking

A key of a store with WATCH, MULTI and EXEC. Every write takes a new version,
whatever it writes; a transaction executes when the version is still the one it
watched. What it read in between is then still there.
-/

namespace TradingPlatform.Base

structure WatchedCell (α : Type*) where
  value : Option α
  version : ℕ

namespace WatchedCell

variable {α : Type*} {c : WatchedCell α} {v : ℕ} {x y : α}

def set (c : WatchedCell α) (x : α) : WatchedCell α := ⟨some x, c.version + 1⟩

/-- `none` is the watch error. -/
def exec (c : WatchedCell α) (watched : ℕ) (x : α) : Option (WatchedCell α) :=
  if watched = c.version then some (c.set x) else none

/-- `x` was read at some time after version `v` was watched. -/
structure ReadSince (c : WatchedCell α) (v : ℕ) (x : α) : Prop where
  le : v ≤ c.version
  current : v = c.version → c.value = some x

theorem readSince_of_value (hle : v ≤ c.version) (hvalue : c.value = some x) :
    c.ReadSince v x := ⟨hle, fun _ => hvalue⟩

/-- A write in between leaves a snapshot that can no longer be taken for current. -/
theorem ReadSince.set (h : c.ReadSince v x) (y : α) : (c.set y).ReadSince v x := by
  have hle := h.le
  refine ⟨Nat.le_succ_of_le hle, ?_⟩
  intro hversion
  simp only [WatchedCell.set] at hversion
  omega

/-- A transaction that executes replaces the value that it read. -/
theorem exec_eq_some {c' : WatchedCell α} (h : c.exec v y = some c')
    (hread : c.ReadSince v x) : c.value = some x ∧ c' = c.set y := by
  unfold exec at h
  split at h
  · rename_i hversion
    exact ⟨hread.current hversion, (Option.some.inj h).symm⟩
  · cases h

end WatchedCell

end TradingPlatform.Base
