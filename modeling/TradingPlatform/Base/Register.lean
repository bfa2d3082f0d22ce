import TradingPlatform.Base.Run
import Mathlib

/-! # Last-writer-wins registers

A register keeps one update and gives it up only for an update with a strictly
greater key. Whatever the order of delivery and however often an update is
repeated, the register ends with the update of the greatest key.
-/

namespace TradingPlatform.Base

section Register

variable {κ υ : Type*} [LinearOrder κ]

/-- Deliver one update to the register. -/
def keepGreater (key : υ → κ) : Option υ → υ → Option υ
  | none, u => some u
  | some c, u => if key c < key u then some u else some c

variable {key : υ → κ} {top : υ}

/-- Once the greatest update is held, no delivery replaces it. -/
theorem keepGreater_top {u : υ} (h : key u ≤ key top) :
    keepGreater key (some top) u = some top := by
  rw [keepGreater, if_neg (not_lt.mpr h)]

/-- An update is held or passed over, never invented. -/
theorem keepGreater_mem {S : υ → Prop} {cur : Option υ} {u c : υ}
    (hcur : ∀ c, cur = some c → S c) (hu : S u) (h : keepGreater key cur u = some c) : S c := by
  cases cur with
  | none =>
      cases h
      exact hu
  | some d =>
      rw [keepGreater] at h
      split at h
      · cases h
        exact hu
      · cases h
        exact hcur c rfl

/-- Delivering the greatest update makes the register hold it. -/
theorem keepGreater_self {cur : Option υ} (hle : ∀ c, cur = some c → key c ≤ key top)
    (hinj : ∀ c, cur = some c → key c = key top → c = top) :
    keepGreater key cur top = some top := by
  cases cur with
  | none => rfl
  | some c =>
      rw [keepGreater]
      split
      · rfl
      · rename_i hnlt
        have heq : key c = key top := le_antisymm (hle c rfl) (not_lt.mp hnlt)
        rw [hinj c rfl heq]

/-- Convergence: every delivery of updates among which `top` has the greatest key, and has
it alone, ends with `top`. -/
theorem run_keepGreater {us : List υ} (hmem : top ∈ us) (hle : ∀ u ∈ us, key u ≤ key top)
    (hinj : ∀ u ∈ us, key u = key top → u = top) :
    run (keepGreater key) none us = some top := by
  suffices main : ∀ (cur : Option υ), (∀ c, cur = some c → key c ≤ key top) →
      (∀ c, cur = some c → key c = key top → c = top) → (cur = some top ∨ top ∈ us) →
      run (keepGreater key) cur us = some top from
    main none (by simp) (by simp) (Or.inr hmem)
  clear hmem
  induction us with
  | nil =>
      intro cur _ _ hor
      simpa using hor
  | cons u us ih =>
      intro cur hcle hcinj hor
      have hule := hle u (by simp)
      have huinj := hinj u (by simp)
      refine ih (fun v hv => hle v (by simp [hv])) (fun v hv => hinj v (by simp [hv]))
        (keepGreater key cur u) ?_ ?_ ?_
      · exact fun c hc => keepGreater_mem (S := fun c => key c ≤ key top) hcle hule hc
      · exact fun c hc => keepGreater_mem (S := fun c => key c = key top → c = top) hcinj huinj hc
      · rcases hor with rfl | hor
        · exact Or.inl (keepGreater_top hule)
        · rcases List.mem_cons.mp hor with rfl | hrest
          · exact Or.inl (keepGreater_self hcle hcinj)
          · exact Or.inr hrest

end Register

end TradingPlatform.Base
