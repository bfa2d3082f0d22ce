import Mathlib.Algebra.Order.Ring.Unbundled.Rat
import Mathlib.Logic.Function.Basic
import Mathlib.Tactic.Linarith
import Mathlib.Tactic.TypeStar

/-! # Keys with a time to live

A store of values that are read until the instant at which their time to live runs out.
-/

namespace TradingPlatform.Base

structure ExpiringStore (κ υ : Type*) where
  entries : κ → Option (υ × ℚ)

namespace ExpiringStore

variable {κ υ : Type*} {store : ExpiringStore κ υ} {k k' : κ} {v : υ} {now ttl : ℚ}

def empty : ExpiringStore κ υ := ⟨fun _ => none⟩

def get (store : ExpiringStore κ υ) (now : ℚ) (k : κ) : Option υ :=
  match store.entries k with
  | none => none
  | some (v, expiry) => if now < expiry then some v else none

theorem get_eq_some_iff : store.get now k = some v ↔
    ∃ expiry, store.entries k = some (v, expiry) ∧ now < expiry := by
  unfold get
  cases store.entries k with
  | none => simp
  | some entry =>
      obtain ⟨w, expiry⟩ := entry
      by_cases h : now < expiry <;> simp [h]

variable [DecidableEq κ]

def setex (store : ExpiringStore κ υ) (now : ℚ) (k : κ) (ttl : ℚ) (v : υ) :
    ExpiringStore κ υ := ⟨Function.update store.entries k (some (v, now + ttl))⟩

def delete (store : ExpiringStore κ υ) (k : κ) : ExpiringStore κ υ :=
  ⟨Function.update store.entries k none⟩

theorem entries_setex_self : (store.setex now k ttl v).entries k = some (v, now + ttl) :=
  Function.update_self ..

theorem entries_setex_of_ne (h : k' ≠ k) :
    (store.setex now k ttl v).entries k' = store.entries k' := Function.update_of_ne h ..

theorem get_setex_self {now' : ℚ} (hexpired : now + ttl ≤ now') :
    (store.setex now k ttl v).get now' k = none := by
  rw [get, entries_setex_self]
  exact if_neg (not_lt.mpr hexpired)

theorem get_setex_of_lt {now' : ℚ} (hlive : now' < now + ttl) :
    (store.setex now k ttl v).get now' k = some v :=
  get_eq_some_iff.mpr ⟨now + ttl, entries_setex_self, hlive⟩

/-! ## Keys that are set only if they are free -/

/-- `SET k v NX EX ttl` -/
def setNx (store : ExpiringStore κ υ) (now : ℚ) (k : κ) (ttl : ℚ) (v : υ) :
    ExpiringStore κ υ × Bool :=
  match store.get now k with
  | some _ => (store, false)
  | none => (store.setex now k ttl v, true)

theorem setNx_eq_true : (store.setNx now k ttl v).2 = true ↔ store.get now k = none := by
  unfold setNx
  split
  · rename_i hsome
    rw [hsome]
    exact iff_of_false Bool.false_ne_true (Option.some_ne_none _)
  · rename_i hnone
    exact iff_of_true rfl hnone

theorem setNx_of_none (h : store.get now k = none) :
    store.setNx now k ttl v = (store.setex now k ttl v, true) := by
  rw [setNx, h]

/-- The key is there, and stays at least until `t`. -/
def LivesUntil (store : ExpiringStore κ υ) (k : κ) (t : ℚ) : Prop :=
  ∃ v expiry, store.entries k = some (v, expiry) ∧ t ≤ expiry

omit [DecidableEq κ] in
theorem LivesUntil.get_ne_none {t : ℚ} (h : store.LivesUntil k t) (hnow : now < t) :
    store.get now k ≠ none := by
  obtain ⟨v, expiry, hentry, hexpiry⟩ := h
  rw [get_eq_some_iff.mpr ⟨expiry, hentry, hnow.trans_le hexpiry⟩]
  exact Option.some_ne_none v

theorem livesUntil_setex : (store.setex now k ttl v).LivesUntil k (now + ttl) :=
  ⟨v, now + ttl, entries_setex_self, le_refl _⟩

/-- What is set only if it is free is never cut short. -/
theorem LivesUntil.setNx {t : ℚ} (h : store.LivesUntil k t) (httl : 0 ≤ ttl) :
    (store.setNx now k' ttl v).1.LivesUntil k t := by
  unfold ExpiringStore.setNx
  split
  · exact h
  · rename_i hfree
    by_cases hkey : k = k'
    · have hexpired : t ≤ now := by
        by_contra hlive
        exact h.get_ne_none (not_le.mp hlive) (hkey ▸ hfree)
      rw [hkey]
      exact ⟨v, now + ttl, entries_setex_self, by linarith⟩
    · obtain ⟨w, expiry, hentry, hexpiry⟩ := h
      exact ⟨w, expiry, (entries_setex_of_ne hkey).trans hentry, hexpiry⟩

end ExpiringStore

end TradingPlatform.Base
