import Mathlib

/-! # Lots

Positive quantities taken one after another cut the units from one to their sum
into consecutive lots. Lots of different positions share no unit, and pairwise
disjoint sets of units are never larger together than what contains them all.
-/

namespace TradingPlatform.Base

variable {α : Type*}

/-- The units of a quantity that comes after the quantities of `pre`. -/
noncomputable def lot (qty : α → ℤ) (pre : List α) (x : α) : Finset ℤ :=
  Finset.Ioc (pre.map qty).sum ((pre.map qty).sum + qty x)

variable {qty : α → ℤ}

theorem card_lot {x : α} (hx : 0 ≤ qty x) (pre : List α) :
    ((lot qty pre x).card : ℤ) = qty x := by
  rw [lot, Int.card_Ioc]
  omega

theorem sum_nonneg_of_pos (hpos : ∀ x, 0 < qty x) (xs : List α) : 0 ≤ (xs.map qty).sum := by
  apply List.sum_nonneg
  intro q hq
  obtain ⟨x, -, rfl⟩ := List.mem_map.mp hq
  exact (hpos x).le

theorem lot_subset (hpos : ∀ x, 0 < qty x) (pre post : List α) (x : α) :
    lot qty pre x ⊆ Finset.Ioc 0 ((pre ++ x :: post).map qty).sum := by
  have hpre := sum_nonneg_of_pos hpos pre
  have hpost := sum_nonneg_of_pos hpos post
  apply Finset.Ioc_subset_Ioc hpre
  simp only [List.map_append, List.map_cons, List.sum_append, List.sum_cons]
  omega

theorem lot_disjoint_of_length_lt (hpos : ∀ x, 0 < qty x) {pre pre' post post' : List α}
    {x x' : α} (h : pre ++ x :: post = pre' ++ x' :: post') (hlt : pre.length < pre'.length) :
    Disjoint (lot qty pre x) (lot qty pre' x') := by
  have hleft : pre ++ [x] <+: pre ++ x :: post := ⟨post, by simp⟩
  have hright : pre' <+: pre ++ x :: post := ⟨x' :: post', h.symm⟩
  have hprefix : pre ++ [x] <+: pre' := by
    apply List.prefix_of_prefix_length_le hleft hright
    rw [List.length_append, List.length_singleton]
    omega
  obtain ⟨mid, rfl⟩ := hprefix
  have hmid := sum_nonneg_of_pos hpos mid
  rw [Finset.disjoint_left]
  intro u hu hu'
  simp only [lot, Finset.mem_Ioc, List.map_append, List.map_cons, List.map_nil, List.sum_append,
    List.sum_cons, List.sum_nil] at hu hu'
  omega

/-- Lots of different quantities of one list are disjoint. -/
theorem lot_disjoint (hpos : ∀ x, 0 < qty x) {pre pre' post post' : List α} {x x' : α}
    (h : pre ++ x :: post = pre' ++ x' :: post') (hne : x ≠ x') :
    Disjoint (lot qty pre x) (lot qty pre' x') := by
  rcases lt_trichotomy pre.length pre'.length with hlt | heq | hgt
  · exact lot_disjoint_of_length_lt hpos h hlt
  · have htail := (List.append_inj h heq).2
    exact absurd (List.cons.inj htail).1 hne
  · exact (lot_disjoint_of_length_lt hpos h.symm hgt).symm

theorem sum_card_le_card {β : Type*} [DecidableEq β] {parts : List (Finset β)}
    {whole : Finset β} (hdisjoint : parts.Pairwise Disjoint) (hsub : ∀ p ∈ parts, p ⊆ whole) :
    (parts.map Finset.card).sum ≤ whole.card := by
  induction parts generalizing whole with
  | nil => simp
  | cons p parts ih =>
      rw [List.pairwise_cons] at hdisjoint
      have hp : p ⊆ whole := hsub p (by simp)
      have hrest : ∀ q ∈ parts, q ⊆ whole \ p := by
        intro q hq
        rw [Finset.subset_sdiff]
        exact ⟨hsub q (by simp [hq]), (hdisjoint.1 q hq).symm⟩
      have hcard := ih hdisjoint.2 hrest
      rw [Finset.card_sdiff_of_subset hp] at hcard
      have hle := Finset.card_le_card hp
      rw [List.map_cons, List.sum_cons]
      omega

end TradingPlatform.Base
