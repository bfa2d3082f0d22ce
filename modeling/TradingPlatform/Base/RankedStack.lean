import Mathlib.Order.BoundedOrder.Basic
import Mathlib.Order.Lattice
import Mathlib.Logic.Function.Basic

/-! # Stacks kept as ranks

The members of a stack have ranks above `⊥`, its top the rank `⊤`. A push gives the old top a rank
of its own, below `⊤` and above all others; a pop lifts the member of the greatest rank that is
left. Next to the ranks it is recorded on what each member was pushed.
-/

namespace TradingPlatform.Base

variable {ι α : Type*} [LinearOrder α] [BoundedOrder α]

/-- Ranks are distinct, and each member lies directly over the one it was pushed on. -/
structure Stacked (rank : ι → α) (below : ι → Option ι) : Prop where
  inj : ∀ i j, rank i = rank j → rank i ≠ ⊥ → i = j
  covers : ∀ i j, rank i ≠ ⊥ → below i = some j →
    rank j ≠ ⊥ ∧ rank j < rank i ∧ ∀ k, rank k < rank i → rank k ≤ rank j

namespace Stacked

variable {rank : ι → α} {below : ι → Option ι} {i j : ι} {now : α}

theorem empty (below : ι → Option ι) : Stacked (fun _ => (⊥ : α)) below where
  inj := fun _ _ _ h => absurd rfl h
  covers := fun _ _ h => absurd rfl h

/-- The member under the top has the greatest rank that is left. -/
theorem eq_of_greatest (h : Stacked rank below) (htop : rank i = ⊤) (hbelow : below i = some j)
    {k : ι} (hk : rank k ≠ ⊥) (hne : k ≠ i) (hgreatest : ∀ l, l ≠ i → rank l ≤ rank k) :
    j = k := by
  have hmember : rank i ≠ ⊥ := by
    intro hbot
    apply hk
    rw [eq_bot_iff, ← hbot, htop]
    exact le_top
  have ⟨_, hlt, hcover⟩ := h.covers i j hmember hbelow
  have hji : j ≠ i := by
    intro heq
    rw [heq] at hlt
    exact lt_irrefl _ hlt
  have hki : rank k < rank i := by
    apply lt_of_le_of_ne
    · rw [htop]
      exact le_top
    · intro heq
      exact hne (h.inj k i heq hk)
  apply h.inj j k (le_antisymm (hgreatest j hji) (hcover k hki))
  exact (h.covers i j hmember hbelow).1

variable [DecidableEq ι]

/-- The ranks after `i` is pushed. -/
def push (rank : ι → α) (i : ι) (now : α) (j : ι) : α :=
  if j = i then ⊤ else if rank j = ⊤ then now else rank j

/-- The ranks after the top `i` is popped, and `k` lifted. -/
def pop (rank : ι → α) (i k j : ι) : α := if j = i then ⊥ else if j = k then ⊤ else rank j

@[simp] theorem push_self (rank : ι → α) (i : ι) (now : α) : push rank i now i = ⊤ := if_pos rfl

theorem push_of_ne {j : ι} (h : j ≠ i) :
    push rank i now j = if rank j = ⊤ then now else rank j := if_neg h

theorem push_top (hne : j ≠ i) (h : rank j = ⊤) : push rank i now j = now := by
  rw [push_of_ne hne, if_pos h]

theorem push_other (hne : j ≠ i) (h : rank j ≠ ⊤) : push rank i now j = rank j := by
  rw [push_of_ne hne, if_neg h]

@[simp] theorem pop_self (rank : ι → α) (i k : ι) : pop rank i k i = ⊥ := if_pos rfl

theorem pop_lifted {k : ι} (h : k ≠ i) : pop rank i k k = ⊤ := by
  rw [pop, if_neg h, if_pos rfl]

theorem pop_other {k : ι} (hi : j ≠ i) (hk : j ≠ k) : pop rank i k j = rank j := by
  rw [pop, if_neg hi, if_neg hk]

/-- A push of what is no member, on the old top, at a time after all others. -/
theorem pushed (h : Stacked rank below) (hnew : rank i = ⊥) (hbot : ⊥ < now) (htop : now < ⊤)
    (hpast : ∀ j, rank j = ⊤ ∨ rank j < now) {old : Option ι}
    (hold : ∀ j, old = some j → rank j = ⊤) :
    Stacked (push rank i now) (Function.update below i old) := by
  have hnontrivial : (⊤ : α) ≠ ⊥ := ((hbot.trans htop).ne).symm
  -- the new rank of an old member lies between the old ranks
  have hpush : ∀ j, j ≠ i → (rank j = ⊤ ∧ push rank i now j = now) ∨
      (rank j < now ∧ rank j ≠ ⊤ ∧ push rank i now j = rank j) := by
    intro j hne
    rcases hpast j with hj | hj
    · exact Or.inl ⟨hj, push_top hne hj⟩
    · have hj' : rank j ≠ ⊤ := (hj.trans htop).ne
      exact Or.inr ⟨hj, hj', push_other hne hj'⟩
  constructor
  · intro a b heq hmember
    by_cases ha : a = i
    · by_cases hb : b = i
      · rw [ha, hb]
      · rw [ha, push_self] at heq
        rcases hpush b hb with ⟨_, hb'⟩ | ⟨_, hne, hb'⟩
        · exact absurd (heq.trans hb').symm htop.ne
        · exact absurd (heq.trans hb').symm hne
    · by_cases hb : b = i
      · rw [hb, push_self] at heq
        rcases hpush a ha with ⟨_, ha'⟩ | ⟨_, hne, ha'⟩
        · exact absurd (ha'.symm.trans heq) htop.ne
        · exact absurd (ha'.symm.trans heq) hne
      · rcases hpush a ha with ⟨hatop, ha'⟩ | ⟨halt, _, ha'⟩ <;>
          rcases hpush b hb with ⟨hbtop, hb'⟩ | ⟨hblt, _, hb'⟩
        · exact h.inj a b (hatop.trans hbtop.symm) (hatop ▸ hnontrivial)
        · exact absurd (ha'.symm.trans (heq.trans hb')) hblt.ne'
        · exact absurd (ha'.symm.trans (heq.trans hb')) halt.ne
        · exact h.inj a b (ha'.symm.trans (heq.trans hb')) (ha' ▸ hmember)
  · intro a b hmember hbelow
    by_cases ha : a = i
    · rw [ha, Function.update_self] at hbelow
      have hb := hold b hbelow
      have hbi : b ≠ i := by
        intro heq
        rw [heq, hnew] at hb
        exact hnontrivial hb.symm
      rw [ha, push_self, push_top hbi hb]
      refine ⟨hbot.ne', htop, ?_⟩
      intro k hk
      by_cases hki : k = i
      · rw [hki, push_self] at hk
        exact absurd hk (lt_irrefl _)
      · rcases hpush k hki with ⟨_, hk'⟩ | ⟨hlt, _, hk'⟩
        · exact hk'.le
        · exact hk' ▸ hlt.le
    · rw [Function.update_of_ne ha] at hbelow
      have hrank : rank a ≠ ⊥ := by
        rcases hpush a ha with ⟨hatop, _⟩ | ⟨_, _, ha'⟩
        · exact hatop ▸ hnontrivial
        · exact ha' ▸ hmember
      have ⟨hbmember, hlt, hcover⟩ := h.covers a b hrank hbelow
      have hbi : b ≠ i := by
        intro heq
        exact hbmember (heq ▸ hnew)
      have hbtop : rank b ≠ ⊤ := (hlt.trans_le le_top).ne
      have hbnow : rank b < now := (hpast b).resolve_left hbtop
      rw [push_other hbi hbtop]
      refine ⟨hbmember, ?_, ?_⟩
      · rcases hpush a ha with ⟨_, ha'⟩ | ⟨_, _, ha'⟩
        · rw [ha']
          exact hbnow
        · rw [ha']
          exact hlt
      · intro k hk
        by_cases hki : k = i
        · rw [hki, push_self] at hk
          exact absurd hk not_top_lt
        · rcases hpush k hki with ⟨_, hk'⟩ | ⟨hklt, _, hk'⟩ <;>
            rcases hpush a ha with ⟨hatop, ha'⟩ | ⟨halt, _, ha'⟩ <;>
            rw [hk', ha'] at hk <;> rw [hk']
          · exact absurd hk (lt_irrefl _)
          · exact absurd hk halt.not_gt
          · apply hcover k
            rw [hatop]
            exact hklt.trans htop
          · exact hcover k hk

/-- A pop that lifts the greatest member that is left. -/
theorem popped (h : Stacked rank below) (htop : rank i = ⊤) {k : ι} (hk : rank k ≠ ⊥)
    (hne : k ≠ i) (hgreatest : ∀ l, l ≠ i → rank l ≤ rank k) :
    Stacked (pop rank i k) below := by
  have hmember : ∀ {j}, pop rank i k j ≠ ⊥ → j ≠ i ∧ rank j ≠ ⊥ := by
    intro j hj
    have hji : j ≠ i := by
      intro heq
      rw [heq, pop_self] at hj
      exact hj rfl
    by_cases hjk : j = k
    · exact ⟨hji, hjk ▸ hk⟩
    · rw [pop_other hji hjk] at hj
      exact ⟨hji, hj⟩
  have hnontop : ∀ {j}, j ≠ i → rank j ≠ ⊥ → rank j ≠ ⊤ := by
    intro j hji hj heq
    exact hji (h.inj j i (heq.trans htop.symm) hj)
  constructor
  · intro a b heq ha
    have hb : pop rank i k b ≠ ⊥ := heq ▸ ha
    have ⟨hai, harank⟩ := hmember ha
    have ⟨hbi, hbrank⟩ := hmember hb
    by_cases hak : a = k
    · by_cases hbk : b = k
      · rw [hak, hbk]
      · rw [hak, pop_lifted hne, pop_other hbi hbk] at heq
        exact absurd heq.symm (hnontop hbi hbrank)
    · by_cases hbk : b = k
      · rw [hbk, pop_lifted hne, pop_other hai hak] at heq
        exact absurd heq (hnontop hai harank)
      · rw [pop_other hai hak, pop_other hbi hbk] at heq
        exact h.inj a b heq harank
  · intro a b ha hbelow
    have ⟨hai, harank⟩ := hmember ha
    have ⟨hb, hlt, hcover⟩ := h.covers a b harank hbelow
    have hbi : b ≠ i := by
      intro heq
      rw [heq, htop] at hlt
      exact not_top_lt hlt
    have hbk : b ≠ k := by
      intro heq
      rw [heq] at hlt
      exact hlt.not_ge (hgreatest a hai)
    rw [pop_other hbi hbk]
    refine ⟨hb, ?_, ?_⟩
    · by_cases hak : a = k
      · rw [hak, pop_lifted hne]
        exact hlt.trans_le le_top
      · rw [pop_other hai hak]
        exact hlt
    · intro l hl
      by_cases hli : l = i
      · rw [hli, pop_self]
        exact bot_le
      · by_cases hlk : l = k
        · rw [hlk, pop_lifted hne] at hl
          exact absurd hl not_top_lt
        · rw [pop_other hli hlk] at hl ⊢
          apply hcover l
          by_cases hak : a = k
          · rw [hak]
            apply lt_of_le_of_ne (hgreatest l hli)
            intro heq
            exact hlk (h.inj l k heq (heq ▸ hk))
          · rw [pop_other hai hak] at hl
            exact hl

end Stacked

end TradingPlatform.Base
