import TradingPlatform.Base.DecimalPlaces
import TradingPlatform.Tax.WashSaleCapacity

/-! # Totals of wash sales

A match is recorded by its difference from the row that is there, so that the
totals of the disposition and of the lot follow the rows.
-/

namespace TradingPlatform.Tax

open Base

/-- The columns of money have four places. -/
structure InColumns (books : TaxBooks) : Prop where
  dispositions : ∀ d ∈ books.dispositions.rows, AtScale 4 d.washSaleDisallowed
  lots : ∀ lot ∈ books.lots.rows, AtScale 4 lot.totalCost
  adjustments : ∀ w ∈ books.adjustments.rows, AtScale 4 w.disallowedLoss

def disallowedOf (books : TaxBooks) (id : ℕ) : Option ℚ :=
  (books.dispositions.find? id).map (·.washSaleDisallowed)

def costOf (books : TaxBooks) (lotId : ℕ) : Option ℚ :=
  (books.lots.find? lotId).map (·.totalCost)

/-- `old_disallowed` -/
def oldDisallowed (books : TaxBooks) (id lotId : ℕ) : ℚ :=
  (books.adjustments.find? (id, lotId)).elim 0 (·.disallowedLoss)

/-- `delta_disallowed` -/
def deltaOf (books : TaxBooks) (id : ℕ) (m : WashSaleMatch) : ℚ :=
  toPrecision contextDigits (m.disallowedLoss - oldDisallowed books id m.replacementLotId)

/-- The adjustments, the disallowed losses and the costs are the same. -/
structure SameRecords (books after : TaxBooks) : Prop where
  adjustments : ∀ key, after.adjustments.find? key = books.adjustments.find? key
  disallowed : ∀ id, disallowedOf after id = disallowedOf books id
  costs : ∀ lotId, costOf after lotId = costOf books lotId

/-! ## One match -/

section Match

variable {books : TaxBooks} {id : ℕ} {days : Int} {m : WashSaleMatch}

theorem disallow_id (delta : ℚ) (d : Disposition) : (d.disallow delta).id = d.id := rfl

theorem addBasis_id (delta : ℚ) (lot : TaxLot) : (lot.addBasis delta).id = lot.id := rfl

theorem applyMatch_of_ne (h : deltaOf books id m ≠ 0) :
    applyMatch id days books m =
      { adjustments := books.adjustments.upsert (adjustmentOf id days m)
        dispositions := books.dispositions.update id (.disallow (deltaOf books id m))
          (disallow_id _)
        lots := books.lots.update m.replacementLotId (.addBasis (deltaOf books id m))
          (addBasis_id _) } := if_neg h

theorem applyMatch_of_eq (h : deltaOf books id m = 0) :
    applyMatch id days books m =
      { books with adjustments := books.adjustments.upsert (adjustmentOf id days m) } := if_pos h

theorem disallowedOf_applyMatch (hcolumns : InColumns books) (other : ℕ) :
    disallowedOf (applyMatch id days books m) other =
      if other = id then (disallowedOf books id).map fun disallowed =>
        toScale 4 (disallowed + deltaOf books id m)
      else disallowedOf books other := by
  unfold disallowedOf
  by_cases hzero : deltaOf books id m = 0
  · rw [applyMatch_of_eq hzero, hzero]
    split
    · rename_i hid
      rw [hid]
      cases hd : books.dispositions.find? id with
      | none => rfl
      | some d => simp [toScale_eq_self (hcolumns.dispositions d (Table.find?_mem hd))]
    · rfl
  · rw [applyMatch_of_ne hzero]
    split
    · rename_i hid
      rw [hid, Table.find?_update, Option.map_map, Option.map_map]
      rfl
    · rename_i hid
      rw [Table.find?_update_ne _ _ _ hid]

theorem costOf_applyMatch (hcolumns : InColumns books) (lotId : ℕ) :
    costOf (applyMatch id days books m) lotId =
      if lotId = m.replacementLotId then (costOf books lotId).map fun cost =>
        toScale 4 (cost + deltaOf books id m)
      else costOf books lotId := by
  unfold costOf
  by_cases hzero : deltaOf books id m = 0
  · rw [applyMatch_of_eq hzero, hzero]
    split
    · cases hlot : books.lots.find? lotId with
      | none => rfl
      | some lot => simp [toScale_eq_self (hcolumns.lots lot (Table.find?_mem hlot))]
    · rfl
  · rw [applyMatch_of_ne hzero]
    split
    · rename_i hid
      rw [hid, Table.find?_update, Option.map_map, Option.map_map]
      rfl
    · rename_i hid
      rw [Table.find?_update_ne _ _ _ hid]

theorem inColumns_applyMatch (hcolumns : InColumns books) :
    InColumns (applyMatch id days books m) where
  dispositions := by
    intro d hd
    have hfound := @disallowedOf_applyMatch books id days m hcolumns d.id
    unfold disallowedOf at hfound
    rw [Table.find?_of_mem hd, Option.map_some] at hfound
    split at hfound
    · obtain ⟨_, -, hscale⟩ := Option.map_eq_some_iff.mp hfound.symm
      exact hscale ▸ atScale_toScale 4 _
    · obtain ⟨old, hold, hsame⟩ := Option.map_eq_some_iff.mp hfound.symm
      exact hsame ▸ hcolumns.dispositions old (Table.find?_mem hold)
  lots := by
    intro lot hlot
    have hfound := @costOf_applyMatch books id days m hcolumns lot.id
    unfold costOf at hfound
    rw [Table.find?_of_mem hlot, Option.map_some] at hfound
    split at hfound
    · obtain ⟨_, -, hscale⟩ := Option.map_eq_some_iff.mp hfound.symm
      exact hscale ▸ atScale_toScale 4 _
    · obtain ⟨old, hold, hsame⟩ := Option.map_eq_some_iff.mp hfound.symm
      exact hsame ▸ hcolumns.lots old (Table.find?_mem hold)
  adjustments := by
    intro w hw
    rw [applyMatch_adjustments] at hw
    rcases Table.mem_upsert hw with hold | rfl
    · exact hcolumns.adjustments w hold
    · exact atScale_toScale 4 _

theorem find?_applyMatch (key : ℕ × ℕ) :
    (applyMatch id days books m).adjustments.find? key =
      if key = (id, m.replacementLotId) then some (adjustmentOf id days m)
      else books.adjustments.find? key := by
  rw [applyMatch_adjustments, Table.find?_upsert]
  rfl

/-- A record of another lot is not touched. -/
theorem oldDisallowed_applyMatch {lotId : ℕ} (h : lotId ≠ m.replacementLotId) :
    oldDisallowed (applyMatch id days books m) id lotId = oldDisallowed books id lotId := by
  have hkey : (id, lotId) ≠ (id, m.replacementLotId) := by
    simpa using h
  rw [oldDisallowed, find?_applyMatch, if_neg hkey, oldDisallowed]

end Match

/-! ## Conservation -/

def lotLoss (books : TaxBooks) (lotId : ℕ) : ℚ :=
  ((books.adjustments.select fun w => w.replacementLotId = lotId).map (·.disallowedLoss)).sum

/-- The totals are those of the rows, beside what the lots have cost at first. -/
structure Conserves (initial : ℕ → ℚ) (books : TaxBooks) : Prop where
  disallowed : ∀ d ∈ books.dispositions.rows, d.washSaleDisallowed = dispositionLoss books d.id
  costs : ∀ lot ∈ books.lots.rows, lot.totalCost = initial lot.id + lotLoss books lot.id

/-- Rows are amounts of money that are not negative. -/
structure Kept (initial : ℕ → ℚ) (books : TaxBooks) : Prop extends Conserves initial books where
  columns : InColumns books
  nonneg : ∀ w ∈ books.adjustments.rows, 0 ≤ w.disallowedLoss

/-- To round the difference from the recorded amount first makes no difference. -/
def RoundsAlike (books : TaxBooks) (id : ℕ) (m : WashSaleMatch) : Prop :=
  toScale 4 (oldDisallowed books id m.replacementLotId + deltaOf books id m) =
    toScale 4 m.disallowedLoss

section Conservation

variable {initial : ℕ → ℚ} {books : TaxBooks} {id : ℕ} {days : Int} {m : WashSaleMatch}

theorem sum_applyMatch (g : Adjustment → ℚ) :
    ((applyMatch id days books m).adjustments.rows.map g).sum =
      (books.adjustments.rows.map g).sum -
        (books.adjustments.find? (id, m.replacementLotId)).elim 0 g +
          g (adjustmentOf id days m) := by
  rw [applyMatch_adjustments, Table.sum_upsert]
  rfl

theorem dispositionLoss_applyMatch (other : ℕ) :
    dispositionLoss (applyMatch id days books m) other = dispositionLoss books other +
      if other = id then toScale 4 m.disallowedLoss - oldDisallowed books id m.replacementLotId
      else 0 := by
  unfold dispositionLoss
  rw [Table.sum_select, Table.sum_select, sum_applyMatch]
  have hnew : (adjustmentOf id days m).dispositionId = id := rfl
  cases hold : books.adjustments.find? (id, m.replacementLotId) with
  | none =>
      by_cases hother : other = id
      · simp [hother, oldDisallowed, hold, adjustmentOf]
      · simp [hother, hnew, Ne.symm hother]
  | some w =>
      have hkey : w.dispositionId = id := congrArg Prod.fst (Table.find?_key hold)
      by_cases hother : other = id
      · simp [hother, oldDisallowed, hold, hkey, adjustmentOf]
        ring
      · simp [hother, hnew, hkey, Ne.symm hother]

theorem lotLoss_applyMatch (lotId : ℕ) :
    lotLoss (applyMatch id days books m) lotId = lotLoss books lotId +
      if lotId = m.replacementLotId then
        toScale 4 m.disallowedLoss - oldDisallowed books id m.replacementLotId
      else 0 := by
  unfold lotLoss
  rw [Table.sum_select, Table.sum_select, sum_applyMatch]
  have hnew : (adjustmentOf id days m).replacementLotId = m.replacementLotId := rfl
  cases hold : books.adjustments.find? (id, m.replacementLotId) with
  | none =>
      by_cases hother : lotId = m.replacementLotId
      · simp [hother, oldDisallowed, hold, adjustmentOf]
      · simp [hother, hnew, Ne.symm hother]
  | some w =>
      have hkey : w.replacementLotId = m.replacementLotId :=
        congrArg Prod.snd (Table.find?_key hold)
      by_cases hother : lotId = m.replacementLotId
      · simp [hother, oldDisallowed, hold, hkey, adjustmentOf]
        ring
      · simp [hother, hnew, hkey, Ne.symm hother]

/-- A row is part of the sums it is in. -/
theorem oldDisallowed_le (hnonneg : ∀ w ∈ books.adjustments.rows, 0 ≤ w.disallowedLoss)
    (id lotId : ℕ) :
    0 ≤ oldDisallowed books id lotId ∧ oldDisallowed books id lotId ≤ dispositionLoss books id ∧
      oldDisallowed books id lotId ≤ lotLoss books lotId := by
  have hsum : ∀ p : Adjustment → Bool, ∀ x ∈ (books.adjustments.select p).map (·.disallowedLoss),
      0 ≤ x := by
    intro p x hx
    obtain ⟨w, hw, rfl⟩ := List.mem_map.mp hx
    exact hnonneg w (List.mem_of_mem_filter hw)
  unfold oldDisallowed
  cases hold : books.adjustments.find? (id, lotId) with
  | none => exact ⟨le_refl 0, List.sum_nonneg (hsum _), List.sum_nonneg (hsum _)⟩
  | some w =>
      have hmem := Table.find?_mem hold
      have hdisposition : w.dispositionId = id := congrArg Prod.fst (Table.find?_key hold)
      have hlot : w.replacementLotId = lotId := congrArg Prod.snd (Table.find?_key hold)
      refine ⟨hnonneg w hmem, ?_, ?_⟩
      · apply List.single_le_sum (hsum _)
        exact List.mem_map_of_mem (List.mem_filter.mpr ⟨hmem, by simpa using hdisposition⟩)
      · apply List.single_le_sum (hsum _)
        exact List.mem_map_of_mem (List.mem_filter.mpr ⟨hmem, by simpa using hlot⟩)

/-- What a total that holds the recorded amount becomes. -/
theorem toScale_add_delta {total : ℚ} (hscale : AtScale 4 total)
    (hold : AtScale 4 (oldDisallowed books id m.replacementLotId))
    (hle : oldDisallowed books id m.replacementLotId ≤ total) (hm : 0 ≤ m.disallowedLoss)
    (hrounds : RoundsAlike books id m) :
    toScale 4 (total + deltaOf books id m) =
      total + (toScale 4 m.disallowedLoss - oldDisallowed books id m.replacementLotId) := by
  have hrest : total + deltaOf books id m = total - oldDisallowed books id m.replacementLotId +
      (oldDisallowed books id m.replacementLotId + deltaOf books id m) := by ring
  unfold RoundsAlike at hrounds
  rw [hrest, toScale_add (hscale.sub hold) (sub_nonneg.mpr hle), hrounds]
  · ring
  · rw [hrounds]
    exact toScale_nonneg hm

theorem atScale_oldDisallowed (hcolumns : InColumns books) (id lotId : ℕ) :
    AtScale 4 (oldDisallowed books id lotId) := by
  unfold oldDisallowed
  cases hold : books.adjustments.find? (id, lotId) with
  | none => exact atScale_zero
  | some w => exact hcolumns.adjustments w (Table.find?_mem hold)

theorem Kept.applyMatch (h : Kept initial books) (hinitial : ∀ lotId, 0 ≤ initial lotId)
    (hm : 0 ≤ m.disallowedLoss) (hrounds : RoundsAlike books id m) :
    Kept initial (applyMatch id days books m) where
  columns := inColumns_applyMatch h.columns
  nonneg := by
    intro w hw
    rw [applyMatch_adjustments] at hw
    rcases Table.mem_upsert hw with hold | rfl
    · exact h.nonneg w hold
    · exact toScale_nonneg hm
  disallowed := by
    intro d hd
    have hfound := @disallowedOf_applyMatch books id days m h.columns d.id
    unfold disallowedOf at hfound
    rw [Table.find?_of_mem hd, Option.map_some] at hfound
    rw [dispositionLoss_applyMatch]
    obtain ⟨-, hle, -⟩ := oldDisallowed_le h.nonneg id m.replacementLotId
    split at hfound
    · rename_i hid
      obtain ⟨_, hold, hnew⟩ := Option.map_eq_some_iff.mp hfound.symm
      obtain ⟨old, hfind, rfl⟩ := Option.map_eq_some_iff.mp hold
      have hmem := Table.find?_mem hfind
      have hkey := Table.find?_key hfind
      have htotal := h.disallowed old hmem
      rw [if_pos hid, ← hnew, hid, ← hkey, ← htotal]
      rw [← hkey, ← htotal] at hle
      rw [hkey] at hle ⊢
      exact toScale_add_delta (h.columns.dispositions old hmem)
        (atScale_oldDisallowed h.columns _ _) hle hm hrounds
    · rename_i hid
      obtain ⟨old, hfind, hsame⟩ := Option.map_eq_some_iff.mp hfound.symm
      have htotal := h.disallowed old (Table.find?_mem hfind)
      rw [if_neg hid, add_zero, ← hsame, htotal, Table.find?_key hfind]
  costs := by
    intro lot hlot
    have hfound := @costOf_applyMatch books id days m h.columns lot.id
    unfold costOf at hfound
    rw [Table.find?_of_mem hlot, Option.map_some] at hfound
    rw [lotLoss_applyMatch]
    obtain ⟨-, -, hle⟩ := oldDisallowed_le h.nonneg id m.replacementLotId
    split at hfound
    · rename_i hid
      obtain ⟨_, hold, hnew⟩ := Option.map_eq_some_iff.mp hfound.symm
      obtain ⟨old, hfind, rfl⟩ := Option.map_eq_some_iff.mp hold
      have hmem := Table.find?_mem hfind
      have hkey := Table.find?_key hfind
      have htotal := h.costs old hmem
      rw [hkey] at htotal
      have hpast : oldDisallowed books id m.replacementLotId ≤ old.totalCost := by
        have hfirst := hinitial lot.id
        rw [hid] at htotal hfirst
        linarith
      rw [if_pos hid, ← hnew, toScale_add_delta (h.columns.lots old hmem)
        (atScale_oldDisallowed h.columns _ _) hpast hm hrounds, htotal]
      ring
    · rename_i hid
      obtain ⟨old, hfind, hsame⟩ := Option.map_eq_some_iff.mp hfound.symm
      have htotal := h.costs old (Table.find?_mem hfind)
      rw [if_neg hid, add_zero, ← hsame, htotal, Table.find?_key hfind]

end Conservation

/-! ## All matches of a disposition -/

/-- The loop of `apply_wash_sale_adjustments`. -/
def recordAll (id : ℕ) (days : WashSaleMatch → Int) (found : List WashSaleMatch)
    (books : TaxBooks) : TaxBooks :=
  found.foldl (fun b m => applyMatch id (days m) b m) books

section Matches

variable {books : TaxBooks} {id : ℕ} {days : WashSaleMatch → Int} {found : List WashSaleMatch}

theorem recordAll_cons (m : WashSaleMatch) (found : List WashSaleMatch) :
    recordAll id days (m :: found) books =
      recordAll id days found (applyMatch id (days m) books m) := rfl

theorem inColumns_recordAll (h : InColumns books) : InColumns (recordAll id days found books) := by
  induction found generalizing books with
  | nil => exact h
  | cons m found ih => exact ih (inColumns_applyMatch h)

/-- Other matches leave the amount that a match is compared with. -/
theorem deltaOf_applyMatch {m m' : WashSaleMatch}
    (h : m'.replacementLotId ≠ m.replacementLotId) :
    deltaOf (applyMatch id (days m) books m) id m' = deltaOf books id m' := by
  rw [deltaOf, oldDisallowed_applyMatch h, deltaOf]

/-- Later matches are for other lots. -/
theorem find?_later {m : WashSaleMatch}
    (h : m.replacementLotId ∉ found.map (·.replacementLotId)) :
    found.find? (fun m' => m'.replacementLotId = m.replacementLotId) = none := by
  rw [List.find?_eq_none]
  intro m' hm'
  have hne : m'.replacementLotId ≠ m.replacementLotId := by
    intro heq
    exact h (heq ▸ List.mem_map_of_mem hm')
  simpa using hne

theorem find?_recordAll (hnodup : (found.map (·.replacementLotId)).Nodup) (lotId : ℕ) :
    (recordAll id days found books).adjustments.find? (id, lotId) =
      match found.find? fun m => m.replacementLotId = lotId with
      | some m => some (adjustmentOf id (days m) m)
      | none => books.adjustments.find? (id, lotId) := by
  induction found generalizing books with
  | nil => rfl
  | cons m found ih =>
      rw [List.map_cons, List.nodup_cons] at hnodup
      rw [recordAll_cons, ih hnodup.2, find?_applyMatch]
      by_cases hlot : m.replacementLotId = lotId
      · have hlater := find?_later hnodup.1
        rw [hlot] at hlater
        simp [hlater, hlot]
      · simp [hlot, Ne.symm hlot]

theorem find?_recordAll_of_ne {key : ℕ × ℕ} (h : key.1 ≠ id) :
    (recordAll id days found books).adjustments.find? key = books.adjustments.find? key := by
  induction found generalizing books with
  | nil => rfl
  | cons m found ih =>
      have hne : key ≠ (id, m.replacementLotId) := by
        rintro rfl
        exact h rfl
      rw [recordAll_cons, ih, find?_applyMatch, if_neg hne]

/-- The differences are added one after the other. -/
def addDeltas (total : ℚ) (deltas : List ℚ) : ℚ :=
  deltas.foldl (fun total delta => toScale 4 (total + delta)) total

theorem map_deltaOf_applyMatch {m : WashSaleMatch}
    (h : m.replacementLotId ∉ found.map (·.replacementLotId)) :
    found.map (deltaOf (applyMatch id (days m) books m) id) = found.map (deltaOf books id) := by
  apply List.map_congr_left
  intro m' hm'
  apply deltaOf_applyMatch
  intro heq
  exact h (heq ▸ List.mem_map_of_mem hm')

theorem disallowedOf_recordAll (hcolumns : InColumns books)
    (hnodup : (found.map (·.replacementLotId)).Nodup) (other : ℕ) :
    disallowedOf (recordAll id days found books) other =
      if other = id then
        (disallowedOf books id).map fun total => addDeltas total (found.map (deltaOf books id))
      else disallowedOf books other := by
  induction found generalizing books with
  | nil =>
      by_cases hother : other = id
      · simp [recordAll, addDeltas, hother]
      · simp [recordAll, hother]
  | cons m found ih =>
      rw [List.map_cons, List.nodup_cons] at hnodup
      rw [recordAll_cons, ih (inColumns_applyMatch hcolumns) hnodup.2,
        disallowedOf_applyMatch hcolumns, disallowedOf_applyMatch hcolumns,
        map_deltaOf_applyMatch hnodup.1, if_pos rfl]
      split
      · rw [Option.map_map]
        rfl
      · rfl

theorem costOf_recordAll (hcolumns : InColumns books)
    (hnodup : (found.map (·.replacementLotId)).Nodup) (lotId : ℕ) :
    costOf (recordAll id days found books) lotId =
      match found.find? fun m => m.replacementLotId = lotId with
      | some m => (costOf books lotId).map fun cost => toScale 4 (cost + deltaOf books id m)
      | none => costOf books lotId := by
  induction found generalizing books with
  | nil => rfl
  | cons m found ih =>
      rw [List.map_cons, List.nodup_cons] at hnodup
      rw [recordAll_cons, ih (inColumns_applyMatch hcolumns) hnodup.2,
        costOf_applyMatch hcolumns]
      by_cases hlot : m.replacementLotId = lotId
      · have hlater := find?_later hnodup.1
        rw [hlot] at hlater
        simp [hlater, hlot]
      · have hfind : (m :: found).find? (fun m => m.replacementLotId = lotId) =
            found.find? fun m => m.replacementLotId = lotId := by
          simp [hlot]
        rw [hfind, if_neg (Ne.symm hlot)]
        cases hm' : found.find? fun m => m.replacementLotId = lotId with
        | none => rfl
        | some m' =>
            have hm'Lot : m'.replacementLotId = lotId := by
              simpa using List.find?_some hm'
            have hne : m'.replacementLotId ≠ m.replacementLotId := by
              rw [hm'Lot]
              exact Ne.symm hlot
            simp only [deltaOf_applyMatch hne]

theorem kept_recordAll {initial : ℕ → ℚ} (h : Kept initial books)
    (hinitial : ∀ lotId, 0 ≤ initial lotId) (hnodup : (found.map (·.replacementLotId)).Nodup)
    (hfound : ∀ m ∈ found, 0 ≤ m.disallowedLoss ∧ RoundsAlike books id m) :
    Kept initial (recordAll id days found books) := by
  induction found generalizing books with
  | nil => exact h
  | cons m found ih =>
      rw [List.map_cons, List.nodup_cons] at hnodup
      obtain ⟨hm, hrounds⟩ := hfound m List.mem_cons_self
      apply ih (h.applyMatch hinitial hm hrounds) hnodup.2
      intro m' hm'
      obtain ⟨hnonneg, hrounds'⟩ := hfound m' (List.mem_cons_of_mem m hm')
      have hne : m'.replacementLotId ≠ m.replacementLotId := by
        intro heq
        exact hnodup.1 (heq ▸ List.mem_map_of_mem hm')
      refine ⟨hnonneg, ?_⟩
      unfold RoundsAlike at hrounds' ⊢
      rwa [oldDisallowed_applyMatch hne, deltaOf_applyMatch hne]

end Matches

/-! ## Matches that change nothing -/

/-- The loss lies half a place below what is recorded for it. -/
def IsTie (m : WashSaleMatch) : Prop :=
  m.disallowedLoss - toScale 4 m.disallowedLoss = -halfPlace 4

theorem toScale_add_small {total delta : ℚ} (hscale : AtScale 4 total)
    (hlow : -halfPlace 4 ≤ delta) (hhigh : delta < halfPlace 4) :
    (toScale 4 (total + delta) = total ∧ (delta = -halfPlace 4 → 0 < total)) ∨
      (toScale 4 (total + delta) < total ∧ delta = -halfPlace 4 ∧ total ≤ 0) := by
  by_cases htie : delta = -halfPlace 4 ∧ total ≤ 0
  · right
    refine ⟨?_, htie⟩
    rw [htie.1]
    exact toScale_sub_halfPlace hscale htie.2
  · left
    have hpos : delta = -halfPlace 4 → 0 < total := by
      intro heq
      by_contra hneg
      exact htie ⟨heq, not_lt.mp hneg⟩
    exact ⟨toScale_near hscale hlow hhigh hpos, hpos⟩

theorem addDeltas_le {deltas : List ℚ} {total : ℚ} (hscale : AtScale 4 total)
    (hsmall : ∀ delta ∈ deltas, -halfPlace 4 ≤ delta ∧ delta < halfPlace 4) :
    addDeltas total deltas ≤ total := by
  induction deltas generalizing total with
  | nil => exact le_refl _
  | cons delta deltas ih =>
      obtain ⟨hlow, hhigh⟩ := hsmall delta List.mem_cons_self
      have hrest := ih (atScale_toScale 4 (total + delta))
        fun other hother => hsmall other (List.mem_cons_of_mem delta hother)
      refine hrest.trans ?_
      rcases toScale_add_small hscale hlow hhigh with ⟨hsame, -⟩ | ⟨hlt, -⟩
      · exact hsame.le
      · exact hlt.le

/-- Small differences leave a total, unless a tie takes one that is not positive down. -/
theorem addDeltas_eq_iff {deltas : List ℚ} {total : ℚ} (hscale : AtScale 4 total)
    (hsmall : ∀ delta ∈ deltas, -halfPlace 4 ≤ delta ∧ delta < halfPlace 4) :
    addDeltas total deltas = total ↔ ∀ delta ∈ deltas, delta = -halfPlace 4 → 0 < total := by
  induction deltas with
  | nil => simp [addDeltas]
  | cons delta deltas ih =>
      obtain ⟨hlow, hhigh⟩ := hsmall delta List.mem_cons_self
      have hlater : ∀ other ∈ deltas, -halfPlace 4 ≤ other ∧ other < halfPlace 4 :=
        fun other hother => hsmall other (List.mem_cons_of_mem delta hother)
      have hstep : addDeltas total (delta :: deltas) =
          addDeltas (toScale 4 (total + delta)) deltas := rfl
      rw [hstep, List.forall_mem_cons]
      rcases toScale_add_small hscale hlow hhigh with ⟨hsame, hpos⟩ | ⟨hlt, htie, hneg⟩
      · rw [hsame, ih hlater]
        exact ⟨fun h => ⟨hpos, h⟩, fun h => h.2⟩
      · have hle := addDeltas_le (atScale_toScale 4 (total + delta)) hlater
        constructor
        · intro heq
          exact absurd heq (hle.trans_lt hlt).ne
        · intro h
          exact absurd (h.1 htie) (not_lt.mpr hneg)

section Unchanged

variable {books : TaxBooks} {id : ℕ} {days : WashSaleMatch → Int} {found : List WashSaleMatch}

theorem find?_match (hnodup : (found.map (·.replacementLotId)).Nodup) {m : WashSaleMatch}
    (hm : m ∈ found) :
    (found.find? fun m' => m'.replacementLotId = m.replacementLotId) = some m := by
  cases hfound : found.find? fun m' => m'.replacementLotId = m.replacementLotId with
  | none =>
      rw [List.find?_eq_none] at hfound
      simpa using hfound m hm
  | some m' =>
      have hlot : m'.replacementLotId = m.replacementLotId := by
        simpa using List.find?_some hfound
      rw [List.inj_on_of_nodup_map hnodup (List.mem_of_find?_eq_some hfound) hm hlot]

/-- What is recorded already is off by the rounding only. -/
theorem deltaOf_recorded {m : WashSaleMatch} (hm : 0 ≤ m.disallowedLoss)
    (hfits : FitsDigits contextDigits m.disallowedLoss)
    (hrow : books.adjustments.find? (id, m.replacementLotId) = some (adjustmentOf id (days m) m)) :
    deltaOf books id m = m.disallowedLoss - toScale 4 m.disallowedLoss := by
  rw [deltaOf, oldDisallowed, hrow, Option.elim_some]
  exact toPrecision_eq_self (fitsDigits_sub_toScale (by decide) hfits hm)

theorem sameRecords_recordAll_iff (hcolumns : InColumns books)
    (hnodup : (found.map (·.replacementLotId)).Nodup)
    (hamounts : ∀ m ∈ found, 0 ≤ m.disallowedLoss ∧ FitsDigits contextDigits m.disallowedLoss) :
    SameRecords books (recordAll id days found books) ↔ ∀ m ∈ found,
      books.adjustments.find? (id, m.replacementLotId) = some (adjustmentOf id (days m) m) ∧
        (IsTie m → (∀ total ∈ disallowedOf books id, 0 < total) ∧
          ∀ cost ∈ costOf books m.replacementLotId, 0 < cost) := by
  -- with the rows recorded, the differences are what rounding leaves
  have hdeltas : (∀ m ∈ found, books.adjustments.find? (id, m.replacementLotId) =
      some (adjustmentOf id (days m) m)) → ∀ m ∈ found,
        deltaOf books id m = m.disallowedLoss - toScale 4 m.disallowedLoss :=
    fun hrows m hm => deltaOf_recorded (hamounts m hm).1 (hamounts m hm).2 (hrows m hm)
  have hsmall : (∀ m ∈ found, deltaOf books id m = m.disallowedLoss - toScale 4 m.disallowedLoss) →
      ∀ delta ∈ found.map (deltaOf books id), -halfPlace 4 ≤ delta ∧ delta < halfPlace 4 := by
    intro hrounded delta hdelta
    obtain ⟨m, hm, rfl⟩ := List.mem_map.mp hdelta
    rw [hrounded m hm]
    exact toScale_bounds (hamounts m hm).1
  have htotalScale : ∀ total ∈ disallowedOf books id, AtScale 4 total := by
    intro total htotal
    obtain ⟨d, hd, rfl⟩ := Option.map_eq_some_iff.mp htotal
    exact hcolumns.dispositions d (Table.find?_mem hd)
  have hcostScale : ∀ lotId, ∀ cost ∈ costOf books lotId, AtScale 4 cost := by
    intro lotId cost hcost
    obtain ⟨lot, hlot, rfl⟩ := Option.map_eq_some_iff.mp hcost
    exact hcolumns.lots lot (Table.find?_mem hlot)
  constructor
  · intro hsame
    have hrows : ∀ m ∈ found, books.adjustments.find? (id, m.replacementLotId) =
        some (adjustmentOf id (days m) m) := by
      intro m hm
      rw [← hsame.adjustments, find?_recordAll hnodup, find?_match hnodup hm]
    have hrounded := hdeltas hrows
    intro m hm
    refine ⟨hrows m hm, fun htie => ⟨?_, ?_⟩⟩
    · intro total htotal
      have hkept := hsame.disallowed id
      rw [disallowedOf_recordAll hcolumns hnodup, if_pos rfl, htotal, Option.map_some,
        Option.some_inj, addDeltas_eq_iff (htotalScale total htotal) (hsmall hrounded)] at hkept
      exact hkept _ (List.mem_map_of_mem hm) ((hrounded m hm).trans htie)
    · intro cost hcost
      have hkept := hsame.costs m.replacementLotId
      rw [costOf_recordAll hcolumns hnodup, find?_match hnodup hm] at hkept
      simp only [Option.mem_def.mp hcost, Option.map_some, Option.some_inj] at hkept
      rw [hrounded m hm, htie] at hkept
      by_contra hneg
      have hlt := toScale_sub_halfPlace (hcostScale _ cost hcost) (not_lt.mp hneg)
      exact absurd hkept hlt.ne
  · intro h
    have hrounded := hdeltas fun m hm => (h m hm).1
    refine ⟨?_, ?_, ?_⟩
    · intro key
      by_cases hkey : key.1 = id
      · obtain ⟨first, lotId⟩ := key
        obtain rfl : first = id := hkey
        rw [find?_recordAll hnodup]
        cases hfound : found.find? fun m => m.replacementLotId = lotId with
        | none => rfl
        | some m =>
            have hlot : m.replacementLotId = lotId := by
              simpa using List.find?_some hfound
            rw [← hlot]
            exact (h m (List.mem_of_find?_eq_some hfound)).1.symm
      · exact find?_recordAll_of_ne hkey
    · intro other
      rw [disallowedOf_recordAll hcolumns hnodup]
      split
      · rename_i hother
        rw [hother]
        cases htotal : disallowedOf books id with
        | none => rfl
        | some total =>
            rw [Option.map_some, Option.some_inj,
              addDeltas_eq_iff (htotalScale total htotal) (hsmall hrounded)]
            intro delta hdelta htie
            obtain ⟨m, hm, rfl⟩ := List.mem_map.mp hdelta
            exact ((h m hm).2 ((hrounded m hm).symm.trans htie)).1 total htotal
      · rfl
    · intro lotId
      rw [costOf_recordAll hcolumns hnodup]
      cases hfound : found.find? fun m => m.replacementLotId = lotId with
      | none => rfl
      | some m =>
          have hm := List.mem_of_find?_eq_some hfound
          have hlot : m.replacementLotId = lotId := by
            simpa using List.find?_some hfound
          subst hlot
          cases hcost : costOf books m.replacementLotId with
          | none => rfl
          | some cost =>
              obtain ⟨hlow, hhigh⟩ := hsmall hrounded _ (List.mem_map_of_mem hm)
              have hkept := toScale_near (hcostScale _ cost hcost) hlow hhigh fun htie =>
                ((h m hm).2 ((hrounded m hm).symm.trans htie)).2 cost hcost
              simp [hkept]

end Unchanged

end TradingPlatform.Tax
