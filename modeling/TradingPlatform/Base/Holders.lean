import Mathlib.Data.Finset.Basic
import Mathlib.Logic.Function.Basic

/-! # Holders

Items that are kept as long as somebody holds them, with the holders of each by name. An item
without a holder is not kept.
-/

namespace TradingPlatform.Base

/-- The holders of each item. -/
abbrev Holders (ι κ : Type*) := ι → Finset κ

namespace Holders

variable {ι κ : Type*}

def IsHeld (h : Holders ι κ) (i : ι) : Prop := h i ≠ ∅

variable [DecidableEq ι] [DecidableEq κ] {h : Holders ι κ} {k k' : κ} {i j : ι}

instance (h : Holders ι κ) (i : ι) : Decidable (h.IsHeld i) :=
  inferInstanceAs (Decidable (h i ≠ ∅))

def hold (h : Holders ι κ) (k : κ) (i : ι) : Holders ι κ :=
  Function.update h i (insert k (h i))

def letGo (h : Holders ι κ) (k : κ) (i : ι) : Holders ι κ :=
  Function.update h i ((h i).erase k)

def holdAll (h : Holders ι κ) (k : κ) (items : List ι) : Holders ι κ :=
  items.foldl (fun h i => h.hold k i) h

def letGoAll (h : Holders ι κ) (k : κ) (items : List ι) : Holders ι κ :=
  items.foldl (fun h i => h.letGo k i) h

omit [DecidableEq ι] [DecidableEq κ] in
theorem isHeld_iff : h.IsHeld i ↔ ∃ k, k ∈ h i := by
  unfold IsHeld
  rw [← Finset.nonempty_iff_ne_empty]
  exact Iff.rfl

theorem mem_hold : k' ∈ h.hold k i j ↔ k' ∈ h j ∨ j = i ∧ k' = k := by
  unfold hold
  by_cases hj : j = i
  · subst hj
    simp [or_comm]
  · simp [hj]

theorem mem_letGo : k' ∈ h.letGo k i j ↔ k' ∈ h j ∧ ¬ (j = i ∧ k' = k) := by
  unfold letGo
  by_cases hj : j = i
  · subst hj
    simp [and_comm]
  · simp [hj]

theorem mem_holdAll {items : List ι} :
    k' ∈ h.holdAll k items j ↔ k' ∈ h j ∨ j ∈ items ∧ k' = k := by
  induction items generalizing h with
  | nil => simp [holdAll]
  | cons i items ih =>
      show k' ∈ (h.hold k i).holdAll k items j ↔ _
      rw [ih, mem_hold, List.mem_cons, or_assoc, ← or_and_right]

theorem mem_letGoAll {items : List ι} :
    k' ∈ h.letGoAll k items j ↔ k' ∈ h j ∧ ¬ (j ∈ items ∧ k' = k) := by
  induction items generalizing h with
  | nil => simp [letGoAll]
  | cons i items ih =>
      show k' ∈ (h.letGo k i).letGoAll k items j ↔ _
      rw [ih, mem_letGo, List.mem_cons, and_assoc, ← not_or, ← or_and_right]

theorem isHeld_holdAll {items : List ι} :
    (h.holdAll k items).IsHeld j ↔ h.IsHeld j ∨ j ∈ items := by
  simp only [isHeld_iff, mem_holdAll]
  constructor
  · intro ⟨k', hk'⟩
    exact hk'.imp (fun hold => ⟨k', hold⟩) And.left
  · intro hheld
    rcases hheld with ⟨k', hk'⟩ | hitem
    · exact ⟨k', .inl hk'⟩
    · exact ⟨k, .inr ⟨hitem, rfl⟩⟩

/-- The last holder lets go. -/
theorem isHeld_letGo (hheld : h.IsHeld i) : ¬ (h.letGo k i).IsHeld i ↔ h i = {k} := by
  unfold IsHeld letGo at *
  rw [Function.update_self, not_not, Finset.erase_eq_empty_iff]
  exact or_iff_right hheld

/-- An item stays held unless the one who lets go is its only holder. -/
theorem isHeld_letGoAll {items : List ι} :
    (h.letGoAll k items).IsHeld j ↔ h.IsHeld j ∧ ¬ (j ∈ items ∧ h j = {k}) := by
  simp only [isHeld_iff, mem_letGoAll]
  constructor
  · intro ⟨k', hk', hstill⟩
    refine ⟨⟨k', hk'⟩, fun ⟨hitem, hsingle⟩ => hstill ⟨hitem, ?_⟩⟩
    rw [hsingle] at hk'
    exact Finset.mem_singleton.mp hk'
  · intro ⟨⟨k', hk'⟩, hmore⟩
    by_cases hitem : j ∈ items
    · -- another holder is left
      have hother : ∃ k'' ∈ h j, k'' ≠ k := by
        by_contra hnone
        apply hmore
        refine ⟨hitem, ?_⟩
        have hall : ∀ k'' ∈ h j, k'' = k := by
          intro k'' hk''
          by_contra hne
          exact hnone ⟨k'', hk'', hne⟩
        have hk := hk'
        rw [hall k' hk'] at hk
        exact Finset.eq_singleton_iff_unique_mem.mpr ⟨hk, hall⟩
      obtain ⟨k'', hk'', hne⟩ := hother
      exact ⟨k'', hk'', fun hboth => hne hboth.2⟩
    · exact ⟨k', hk', fun hboth => hitem hboth.1⟩

theorem isHeld_letGo_of_ne (hj : j ≠ i) : (h.letGo k i).IsHeld j ↔ h.IsHeld j := by
  unfold IsHeld letGo
  rw [Function.update_of_ne hj]

end Holders

end TradingPlatform.Base
