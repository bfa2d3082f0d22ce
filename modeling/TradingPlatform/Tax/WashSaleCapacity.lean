import TradingPlatform.Base.Allocation
import TradingPlatform.Base.Run
import TradingPlatform.Tax.WashSales
import Mathlib.Tactic.FieldSimp
import Mathlib.Tactic.Linarith

/-! # What replacement lots can take

The losses of one user and symbol, processed in any order. Detection counts the
shares of a lot that earlier losses used, so a loss processed after a later-dated
one can be given shares of the lot that are used already; and the parts of a loss
are rounded one by one. The bounds hold exactly while neither happens.
-/

namespace TradingPlatform.Tax

open Base

/-! ## Totals -/

def lotShares (books : TaxBooks) (lotId : ℕ) : ℚ :=
  ((books.adjustments.select fun w => w.replacementLotId = lotId).map (·.matchingShares)).sum

def dispositionShares (books : TaxBooks) (id : ℕ) : ℚ :=
  ((books.adjustments.select fun w => w.dispositionId = id).map (·.matchingShares)).sum

def dispositionLoss (books : TaxBooks) (id : ℕ) : ℚ :=
  ((books.adjustments.select fun w => w.dispositionId = id).map (·.disallowedLoss)).sum

/-- The shares of a lot that dispositions dated after the sale have used. -/
def sharesUsedLater (books : TaxBooks) (saleDate : Timestamp) (lotId : ℕ) : ℚ :=
  ((books.adjustments.select fun w => w.replacementLotId = lotId).map fun w =>
    if countsBy books saleDate w then 0 else w.matchingShares).sum

theorem lotShares_eq (books : TaxBooks) (saleDate : Timestamp) (lotId : ℕ) :
    lotShares books lotId =
      sharesAlreadyUsed books saleDate lotId + sharesUsedLater books saleDate lotId := by
  rw [lotShares, sharesAlreadyUsed, sharesUsedLater, ← List.sum_map_add]
  congr 1
  apply List.map_congr_left
  intro w _
  split <;> simp

/-- The property, for every lot and every disposition. -/
structure WithinBounds (books : TaxBooks) : Prop where
  lots : ∀ lot ∈ books.lots.rows, lotShares books lot.id ≤ lot.quantity
  shares : ∀ d ∈ books.dispositions.rows, dispositionShares books d.id ≤ d.quantity
  losses : ∀ d ∈ books.dispositions.rows, dispositionLoss books d.id ≤ |d.realizedGainLoss|

/-! ## Processing -/

/-- `process` detects and records the wash sales of one disposition; `hold` is a purchase or a
sale that changes what is left of a lot. -/
inductive TaxEvent where
  | process (id : ℕ)
  | hold (lotId : ℕ) (remainingQuantity : ℚ)

section Processing

variable (userId symbol : String)

def processDisposition (books : TaxBooks) (d : Disposition) : TaxBooks :=
  match detectWashSales books userId symbol d.disposedAt d.realizedGainLoss d.quantity with
  | .ok found => (applyWashSaleAdjustments books found d.id).1
  | .error _ => books

def taxStep (books : TaxBooks) : TaxEvent → TaxBooks
  | .process id => (books.dispositions.find? id).elim books (processDisposition userId symbol books)
  | .hold lotId remainingQuantity =>
      { books with
        lots := books.lots.update lotId ({ · with remainingQuantity }) fun _ => rfl }

/-- No wash sale of the disposition has been recorded yet. -/
def Unprocessed (books : TaxBooks) (id : ℕ) : Prop :=
  ∀ w ∈ books.adjustments.rows, w.dispositionId ≠ id

def ProcessesNew (books : TaxBooks) : TaxEvent → Prop
  | .process id => Unprocessed books id
  | .hold _ _ => True

/-! ## The condition -/

/-- Shares that the lots before it leave over. -/
def sharesLeft (books : TaxBooks) (d : Disposition) (before : List TaxLot) : ℚ :=
  d.quantity - room (availableShares books d.disposedAt) before

/-- No later-dated disposition has used shares of the lot, or what it takes now still fits. -/
def LotFits (books : TaxBooks) (d : Disposition) (lot : TaxLot) (left : ℚ) : Prop :=
  sharesUsedLater books d.disposedAt lot.id ≤ 0 ∨
    min lot.remainingQuantity left ≤ lot.quantity - lotShares books lot.id

/-- What rounding adds to the parts of the loss is no more than the loss on the shares that no
lot takes. -/
def RoundingFits (books : TaxBooks) (d : Disposition) (lots : List TaxLot) : Prop :=
  let amounts := (allocate (availableShares books d.disposedAt) d.quantity lots).map Prod.snd
  let exact := |d.realizedGainLoss| / d.quantity
  let rounded (amount : ℚ) := toScale 4
    (toPrecision contextDigits (amount * lossPerShare d.realizedGainLoss d.quantity))
  (amounts.map fun amount => rounded amount - amount * exact).sum ≤
    exact * (d.quantity - amounts.sum)

/-- The disposition finds room for its shares, later-dated ones counted, and rounding does not
take its losses beyond the loss. -/
def Fits (books : TaxBooks) : TaxEvent → Prop
  | .process id => ∀ d, books.dispositions.find? id = some d → d.realizedGainLoss < 0 →
      (∀ before lot after,
        replacementLots books userId symbol d.disposedAt = before ++ lot :: after →
        0 < sharesLeft books d before → 0 < availableShares books d.disposedAt lot →
        LotFits books d lot (sharesLeft books d before)) ∧
      RoundingFits books d (replacementLots books userId symbol d.disposedAt)
  | .hold _ _ => True

end Processing

/-! ## What detection finds -/

def toMatch (perShare : ℚ) (symbol : String) (saleDate : Timestamp) (p : TaxLot × ℚ) :
    WashSaleMatch where
  replacementLotId := p.1.id
  symbol
  disallowedLoss := toPrecision contextDigits (p.2 * perShare)
  matchingShares := p.2
  saleDate
  replacementDate := p.1.acquiredAt

/-- The matching loop is a greedy allocation. -/
theorem matchLots_eq_allocate (available : TaxLot → ℚ) (perShare : ℚ) (symbol : String)
    (saleDate : Timestamp) (need : ℚ) (lots : List TaxLot) :
    matchLots available perShare symbol saleDate need lots =
      (allocate available need lots).map (toMatch perShare symbol saleDate) := by
  induction lots generalizing need with
  | nil => rfl
  | cons lot lots ih =>
      rw [matchLots, allocate]
      split
      · rfl
      · split
        · exact ih need
        · rw [List.map_cons, ← ih]
          rfl

theorem mem_replacementLots {books : TaxBooks} {userId symbol : String} {saleDate : Timestamp}
    {lot : TaxLot} (h : lot ∈ replacementLots books userId symbol saleDate) :
    lot ∈ books.lots.rows := by
  rw [replacementLots, List.mem_insertionSort] at h
  exact List.mem_of_mem_filter h

theorem replacementLots_ids_nodup (books : TaxBooks) (userId symbol : String)
    (saleDate : Timestamp) :
    ((replacementLots books userId symbol saleDate).map (·.id)).Nodup := by
  apply ((List.perm_insertionSort _ _).map _).nodup_iff.mpr
  exact (List.filter_sublist.map _).nodup books.lots.keys_nodup

/-! ## What recording leaves -/

theorem applyMatch_adjustments (id : ℕ) (days : Int) (books : TaxBooks) (m : WashSaleMatch) :
    (applyMatch id days books m).adjustments =
      books.adjustments.upsert (adjustmentOf id days m) := by
  simp only [applyMatch]
  split <;> rfl

theorem applyMatch_lots (id : ℕ) (days : Int) (books : TaxBooks) (m : WashSaleMatch) :
    (applyMatch id days books m).lots.rows.map (fun l => (l.id, l.quantity)) =
      books.lots.rows.map fun l => (l.id, l.quantity) := by
  simp only [applyMatch]
  split
  · rfl
  · exact Table.map_key_update _ _ fun _ => rfl

theorem applyMatch_dispositions (id : ℕ) (days : Int) (books : TaxBooks) (m : WashSaleMatch) :
    (applyMatch id days books m).dispositions.rows.map
        (fun d => (d.id, d.quantity, d.realizedGainLoss)) =
      books.dispositions.rows.map fun d => (d.id, d.quantity, d.realizedGainLoss) := by
  simp only [applyMatch]
  split
  · rfl
  · exact Table.map_key_update _ _ fun _ => rfl

/-- Matches of a new disposition, each for a lot of its own, are all added. -/
theorem foldl_applyMatch (id : ℕ) (days : WashSaleMatch → Int) (found : List WashSaleMatch)
    (books : TaxBooks) (hnodup : (found.map (·.replacementLotId)).Nodup)
    (hfresh : ∀ m ∈ found, (id, m.replacementLotId) ∉ books.adjustments.rows.map Adjustment.key) :
    let after := found.foldl (fun b m => applyMatch id (days m) b m) books
    after.adjustments.rows =
        books.adjustments.rows ++ found.map (fun m => adjustmentOf id (days m) m) ∧
      after.lots.rows.map (fun l => (l.id, l.quantity)) =
        books.lots.rows.map (fun l => (l.id, l.quantity)) ∧
      after.dispositions.rows.map (fun d => (d.id, d.quantity, d.realizedGainLoss)) =
        books.dispositions.rows.map fun d => (d.id, d.quantity, d.realizedGainLoss) := by
  induction found generalizing books with
  | nil => simp
  | cons m found ih =>
      have hm := hfresh m List.mem_cons_self
      have hrows : (applyMatch id (days m) books m).adjustments.rows =
          books.adjustments.rows ++ [adjustmentOf id (days m) m] := by
        rw [applyMatch_adjustments]
        apply Table.upsert_rows_of_fresh
        rw [Table.find?_eq_none]
        intro w hw hkey
        exact hm (List.mem_map.mpr ⟨w, hw, hkey⟩)
      rw [List.map_cons, List.nodup_cons] at hnodup
      have hrest := ih (applyMatch id (days m) books m) hnodup.2 (by
        intro m' hm' hmem
        rw [hrows, List.map_append, List.mem_append] at hmem
        rcases hmem with hold | hnew
        · exact hfresh m' (List.mem_cons_of_mem m hm') hold
        · rw [List.map_singleton, List.mem_singleton] at hnew
          have hlot : m'.replacementLotId = m.replacementLotId := congrArg Prod.snd hnew
          exact hnodup.1 (hlot ▸ List.mem_map_of_mem hm'))
      rw [hrows, applyMatch_lots, applyMatch_dispositions] at hrest
      simp only [List.foldl_cons, List.map_cons]
      refine ⟨?_, hrest.2.1, hrest.2.2⟩
      rw [hrest.1, List.append_assoc]
      rfl

/-! ## Totals after processing -/

/-- What an allocation gives to a lot. -/
def taken (amounts : List (TaxLot × ℚ)) (lotId : ℕ) : ℚ :=
  ((amounts.filter fun p => p.1.id = lotId).map Prod.snd).sum

theorem taken_of_notMem {amounts : List (TaxLot × ℚ)} {lotId : ℕ}
    (h : lotId ∉ amounts.map (·.1.id)) : taken amounts lotId = 0 := by
  rw [taken, List.filter_eq_nil_iff.mpr]
  · rfl
  · intro p hp
    rw [decide_eq_true_eq]
    rintro rfl
    exact h (List.mem_map_of_mem hp)

theorem taken_of_mem {amounts : List (TaxLot × ℚ)} {lot : TaxLot} {amount : ℚ}
    (hnodup : (amounts.map (·.1.id)).Nodup) (h : (lot, amount) ∈ amounts) :
    taken amounts lot.id = amount := by
  induction amounts with
  | nil => cases h
  | cons p amounts ih =>
      rw [List.map_cons, List.nodup_cons] at hnodup
      have hcons : taken (p :: amounts) lot.id =
          (if p.1.id = lot.id then p.2 else 0) + taken amounts lot.id := by
        by_cases hp : p.1.id = lot.id <;> simp [taken, hp]
      rw [hcons]
      rcases List.mem_cons.mp h with rfl | hrest
      · rw [if_pos rfl, taken_of_notMem hnodup.1, add_zero]
      · have hne : p.1.id ≠ lot.id := by
          intro heq
          exact hnodup.1 (heq ▸ List.mem_map_of_mem (f := fun p => p.1.id) hrest)
        rw [if_neg hne, zero_add]
        exact ih hnodup.2 hrest

section Step

variable {userId symbol : String} {books : TaxBooks} {d : Disposition}

/-- What the disposition takes of each lot. -/
def amountsOf (userId symbol : String) (books : TaxBooks) (d : Disposition) :
    List (TaxLot × ℚ) :=
  allocate (availableShares books d.disposedAt) d.quantity
    (replacementLots books userId symbol d.disposedAt)

/-- The amount of money recorded for a number of shares. -/
def recordedLoss (d : Disposition) (amount : ℚ) : ℚ :=
  toScale 4 (toPrecision contextDigits (amount * lossPerShare d.realizedGainLoss d.quantity))

theorem amountsOf_ids_nodup : ((amountsOf userId symbol books d).map (·.1.id)).Nodup := by
  have hkeys : ((amountsOf userId symbol books d).map Prod.fst).Sublist
      (replacementLots books userId symbol d.disposedAt) := allocate_keys_sublist d.quantity _
  have hids := hkeys.map (·.id)
  rw [List.map_map] at hids
  exact hids.nodup (replacementLots_ids_nodup books userId symbol d.disposedAt)

/-- Everything that processing a new loss changes. -/
theorem processDisposition_spec (userId symbol : String) (hnew : Unprocessed books d.id)
    (hloss : d.realizedGainLoss < 0) :
    let amounts := amountsOf userId symbol books d
    let after := processDisposition userId symbol books d
    (∀ lotId, lotShares after lotId = lotShares books lotId + taken amounts lotId) ∧
      (∀ id, dispositionShares after id = dispositionShares books id +
        if id = d.id then (amounts.map Prod.snd).sum else 0) ∧
      (∀ id, dispositionLoss after id = dispositionLoss books id +
        if id = d.id then (amounts.map fun p => recordedLoss d p.2).sum else 0) ∧
      after.lots.rows.map (fun l => (l.id, l.quantity)) =
        books.lots.rows.map (fun l => (l.id, l.quantity)) ∧
      after.dispositions.rows.map (fun d => (d.id, d.quantity, d.realizedGainLoss)) =
        books.dispositions.rows.map fun d => (d.id, d.quantity, d.realizedGainLoss) := by
  intro amounts after
  have hdetect : detectWashSales books userId symbol d.disposedAt d.realizedGainLoss d.quantity =
      .ok (amounts.map (toMatch (lossPerShare d.realizedGainLoss d.quantity) symbol
        d.disposedAt)) := by
    rw [detectWashSales, if_neg (not_le.mpr d.quantity_pos), if_neg (not_le.mpr hloss),
      matchLots_eq_allocate]
    rfl
  have hlots : ((amounts.map (toMatch (lossPerShare d.realizedGainLoss d.quantity) symbol
      d.disposedAt)).map (·.replacementLotId)).Nodup := by
    rw [List.map_map]
    exact amountsOf_ids_nodup
  have hfold := foldl_applyMatch d.id (fun m => daysHeld books d.id m.saleDate) _ books hlots (by
    intro m _ hmem
    obtain ⟨w, hw, hkey⟩ := List.mem_map.mp hmem
    exact hnew w hw (congrArg Prod.fst hkey))
  have hafter : after = (applyWashSaleAdjustments books (amounts.map (toMatch
      (lossPerShare d.realizedGainLoss d.quantity) symbol d.disposedAt)) d.id).1 := by
    simp only [after, processDisposition, hdetect]
  obtain ⟨hrows, hlotRows, hdispositionRows⟩ := hfold
  rw [hafter]
  refine ⟨?_, ?_, ?_, hlotRows, hdispositionRows⟩
  · intro lotId
    simp only [lotShares, Table.select, applyWashSaleAdjustments, hrows, List.map_map,
      List.filter_append, List.map_append, List.sum_append, List.filter_map]
    rfl
  · intro id
    simp only [dispositionShares, Table.select, applyWashSaleAdjustments, hrows, List.map_map,
      List.filter_append, List.map_append, List.sum_append, List.filter_map]
    congr 1
    by_cases hid : id = d.id
    · rw [if_pos hid, List.filter_eq_self.mpr (by simp [adjustmentOf, hid])]
      rfl
    · rw [if_neg hid, List.filter_eq_nil_iff.mpr (by simp [adjustmentOf, Ne.symm hid])]
      rfl
  · intro id
    simp only [dispositionLoss, Table.select, applyWashSaleAdjustments, hrows, List.map_map,
      List.filter_append, List.map_append, List.sum_append, List.filter_map]
    congr 1
    by_cases hid : id = d.id
    · rw [if_pos hid, List.filter_eq_self.mpr (by simp [adjustmentOf, hid])]
      rfl
    · rw [if_neg hid, List.filter_eq_nil_iff.mpr (by simp [adjustmentOf, Ne.symm hid])]
      rfl

/-! ## The bounds after a step -/

theorem processDisposition_of_gain (h : 0 ≤ d.realizedGainLoss) :
    processDisposition userId symbol books d = books := by
  simp only [processDisposition, detectWashSales, if_neg (not_le.mpr d.quantity_pos), if_pos h]
  rfl

/-- The bounds only read ids, quantities and amounts. -/
theorem withinBounds_iff (books : TaxBooks) :
    WithinBounds books ↔
      (∀ p ∈ books.lots.rows.map fun l => (l.id, l.quantity), lotShares books p.1 ≤ p.2) ∧
      (∀ p ∈ books.dispositions.rows.map fun d => (d.id, d.quantity, d.realizedGainLoss),
        dispositionShares books p.1 ≤ p.2.1 ∧ dispositionLoss books p.1 ≤ |p.2.2|) := by
  simp only [List.forall_mem_map]
  constructor
  · intro h
    exact ⟨h.lots, fun d hd => ⟨h.shares d hd, h.losses d hd⟩⟩
  · rintro ⟨hlots, hdispositions⟩
    exact ⟨hlots, fun d hd => (hdispositions d hd).1, fun d hd => (hdispositions d hd).2⟩

/-- A lot keeps its bound exactly when it fits. -/
theorem fits_iff_bound {lot : TaxLot} {left amount : ℚ}
    (hamount : amount = min (availableShares books d.disposedAt lot) left) :
    LotFits books d lot left ↔ lotShares books lot.id + amount ≤ lot.quantity := by
  have htotal := lotShares_eq books d.disposedAt lot.id
  rw [hamount, availableShares, LotFits]
  constructor
  · rintro (hnone | hfits)
    · have hle := min_le_left (min lot.remainingQuantity
        (lot.quantity - sharesAlreadyUsed books d.disposedAt lot.id)) left
      have hle' := min_le_right lot.remainingQuantity
        (lot.quantity - sharesAlreadyUsed books d.disposedAt lot.id)
      linarith
    · have hle : min (min lot.remainingQuantity
          (lot.quantity - sharesAlreadyUsed books d.disposedAt lot.id)) left ≤
          min lot.remainingQuantity left := min_le_min_right left (min_le_left _ _)
      linarith
  · intro hbound
    rw [or_iff_not_imp_left, not_le]
    intro hlater
    -- The capacity counts less than all recorded shares, so it cannot be what is taken.
    rw [min_right_comm] at hbound
    rcases min_choice (min lot.remainingQuantity left)
      (lot.quantity - sharesAlreadyUsed books d.disposedAt lot.id) with hmin | hmin
    · rw [hmin] at hbound
      linarith
    · rw [hmin] at hbound
      linarith

theorem sum_map_sub_mul (amounts : List (TaxLot × ℚ)) (recorded : ℚ → ℚ) (exact : ℚ) :
    (amounts.map fun p => recorded p.2 - p.2 * exact).sum =
      (amounts.map fun p => recorded p.2).sum - (amounts.map Prod.snd).sum * exact := by
  induction amounts with
  | nil => simp
  | cons p amounts ih =>
      simp only [List.map_cons, List.sum_cons, ih]
      ring

/-- The recorded losses keep their bound exactly when rounding fits. -/
theorem roundingFits_iff_bound :
    RoundingFits books d (replacementLots books userId symbol d.disposedAt) ↔
      ((amountsOf userId symbol books d).map fun p => recordedLoss d p.2).sum ≤
        |d.realizedGainLoss| := by
  have hpos := d.quantity_pos
  have hexact : |d.realizedGainLoss| / d.quantity * d.quantity = |d.realizedGainLoss| :=
    div_mul_cancel₀ _ hpos.ne'
  rw [RoundingFits, List.map_map]
  change ((amountsOf userId symbol books d).map fun p =>
      recordedLoss d p.2 - p.2 * (|d.realizedGainLoss| / d.quantity)).sum ≤
    |d.realizedGainLoss| / d.quantity *
      (d.quantity - ((amountsOf userId symbol books d).map Prod.snd).sum) ↔ _
  rw [sum_map_sub_mul, mul_sub, hexact]
  constructor <;> intro h <;> linarith

theorem totals_of_unprocessed (hnew : Unprocessed books d.id) :
    dispositionShares books d.id = 0 ∧ dispositionLoss books d.id = 0 := by
  have hnone : books.adjustments.select (fun w => w.dispositionId = d.id) = [] := by
    rw [Table.select, List.filter_eq_nil_iff]
    intro w hw
    simpa using hnew w hw
  rw [dispositionShares, dispositionLoss, hnone]
  exact ⟨rfl, rfl⟩

/-- Processing a new loss keeps the bounds exactly when it fits. -/
theorem withinBounds_process (hd : books.dispositions.find? d.id = some d)
    (hnew : Unprocessed books d.id) (hloss : d.realizedGainLoss < 0) (h : WithinBounds books) :
    WithinBounds (processDisposition userId symbol books d) ↔
      Fits userId symbol books (.process d.id) := by
  obtain ⟨hlotShares, hdispositionShares, hdispositionLoss, hlots, hdispositions⟩ :=
    processDisposition_spec userId symbol hnew hloss
  obtain ⟨hnoShares, hnoLoss⟩ := totals_of_unprocessed hnew
  rw [withinBounds_iff, hlots, hdispositions, List.forall_mem_map, List.forall_mem_map]
  simp only [hlotShares, hdispositionShares, hdispositionLoss]
  constructor
  · rintro ⟨hlotBounds, hdispositionBounds⟩ d' hd' -
    obtain rfl : d = d' := Option.some.inj (hd.symm.trans hd')
    constructor
    · intro before lot after hsplit hleft hcap
      have hmem : (lot, min (availableShares books d.disposedAt lot) (sharesLeft books d before)) ∈
          amountsOf userId symbol books d :=
        mem_allocate_iff.mpr ⟨before, after, hsplit, hleft, hcap, rfl⟩
      have hlisted : lot ∈ replacementLots books userId symbol d.disposedAt := by
        rw [hsplit]
        simp
      have hbound := hlotBounds lot (mem_replacementLots hlisted)
      rw [taken_of_mem amountsOf_ids_nodup hmem] at hbound
      exact (fits_iff_bound rfl).mpr hbound
    · have hbound := (hdispositionBounds d (Table.find?_mem hd)).2
      rw [if_pos rfl, hnoLoss, zero_add] at hbound
      exact roundingFits_iff_bound.mpr hbound
  · intro hfits
    obtain ⟨hlotFits, hrounding⟩ := hfits d hd hloss
    constructor
    · intro lot hrow
      by_cases htaken : lot.id ∈ (amountsOf userId symbol books d).map (·.1.id)
      · obtain ⟨⟨lot', amount⟩, hmem, hid⟩ := List.mem_map.mp htaken
        obtain ⟨before, after, hsplit, hleft, hcap, hamount⟩ := mem_allocate_iff.mp hmem
        have hlisted : lot' ∈ replacementLots books userId symbol d.disposedAt := by
          rw [hsplit]
          simp
        obtain rfl : lot' = lot := List.inj_on_of_nodup_map books.lots.keys_nodup
          (mem_replacementLots hlisted) hrow hid
        rw [taken_of_mem amountsOf_ids_nodup hmem]
        exact (fits_iff_bound hamount).mp (hlotFits before lot' after hsplit hleft hcap)
      · rw [taken_of_notMem htaken, add_zero]
        exact h.lots lot hrow
    · intro d' hrow
      by_cases hid : d'.id = d.id
      · obtain rfl : d' = d :=
          List.inj_on_of_nodup_map books.dispositions.keys_nodup hrow (Table.find?_mem hd) hid
        rw [if_pos rfl, if_pos rfl, hnoShares, hnoLoss, zero_add, zero_add]
        exact ⟨sum_allocate_le d'.quantity_pos.le _, roundingFits_iff_bound.mp hrounding⟩
      · rw [if_neg hid, if_neg hid, add_zero, add_zero]
        exact ⟨h.shares d' hrow, h.losses d' hrow⟩

/-- A purchase or a sale changes no bound. -/
theorem withinBounds_hold (lotId : ℕ) (remainingQuantity : ℚ) (h : WithinBounds books) :
    WithinBounds (taxStep userId symbol books (.hold lotId remainingQuantity)) := by
  rw [withinBounds_iff] at h ⊢
  have hlots : (taxStep userId symbol books (.hold lotId remainingQuantity)).lots.rows.map
      (fun l => (l.id, l.quantity)) = books.lots.rows.map fun l => (l.id, l.quantity) :=
    Table.map_key_update _ _ fun _ => rfl
  rw [hlots]
  exact h

theorem withinBounds_step {event : TaxEvent} (hnew : ProcessesNew books event)
    (h : WithinBounds books) :
    WithinBounds (taxStep userId symbol books event) ↔ Fits userId symbol books event := by
  cases event with
  | hold lotId remainingQuantity =>
      exact iff_of_true (withinBounds_hold lotId remainingQuantity h) trivial
  | process id =>
      cases hd : books.dispositions.find? id with
      | none =>
          rw [taxStep, hd]
          apply iff_of_true h
          intro d hd'
          rw [hd] at hd'
          cases hd'
      | some d =>
          obtain rfl : d.id = id := Table.find?_key hd
          rw [taxStep, hd, Option.elim_some]
          by_cases hloss : d.realizedGainLoss < 0
          · exact withinBounds_process hd hnew hloss h
          · rw [processDisposition_of_gain (not_lt.mp hloss)]
            apply iff_of_true h
            intro d' hd' hloss'
            obtain rfl : d = d' := Option.some.inj (hd.symm.trans hd')
            exact absurd hloss' hloss

/-! ## Runs -/

def processedIds (events : List TaxEvent) : List ℕ :=
  events.filterMap fun
    | .process id => some id
    | .hold _ _ => none

theorem mem_foldl_applyMatch {id : ℕ} {days : WashSaleMatch → Int} {found : List WashSaleMatch}
    {w : Adjustment}
    (h : w ∈ (found.foldl (fun b m => applyMatch id (days m) b m) books).adjustments.rows) :
    w ∈ books.adjustments.rows ∨ w.dispositionId = id := by
  induction found generalizing books with
  | nil => exact Or.inl h
  | cons m found ih =>
      rcases ih h with hfirst | hrest
      · rw [applyMatch_adjustments] at hfirst
        rcases Table.mem_upsert hfirst with hold | rfl
        · exact Or.inl hold
        · exact Or.inr rfl
      · exact Or.inr hrest

/-- Only the disposition that is processed gets adjustments. -/
theorem mem_adjustments_step {id : ℕ} {w : Adjustment}
    (h : w ∈ (taxStep userId symbol books (.process id)).adjustments.rows) :
    w ∈ books.adjustments.rows ∨ w.dispositionId = id := by
  rw [taxStep] at h
  cases hd : books.dispositions.find? id with
  | none =>
      rw [hd] at h
      exact Or.inl h
  | some d =>
      obtain rfl : d.id = id := Table.find?_key hd
      rw [hd, Option.elim_some, processDisposition] at h
      split at h
      · exact mem_foldl_applyMatch h
      · exact Or.inl h

theorem eachStep_processesNew {events : List TaxEvent} (hnodup : (processedIds events).Nodup)
    (hfresh : ∀ w ∈ books.adjustments.rows, w.dispositionId ∉ processedIds events) :
    EachStep (taxStep userId symbol) ProcessesNew books events := by
  induction events generalizing books with
  | nil => trivial
  | cons event events ih =>
      cases event with
      | hold lotId remainingQuantity => exact ⟨trivial, ih hnodup hfresh⟩
      | process id =>
          have hids : processedIds (.process id :: events) = id :: processedIds events := rfl
          rw [hids, List.nodup_cons] at hnodup
          rw [hids] at hfresh
          constructor
          · intro w hw heq
            exact hfresh w hw (heq ▸ List.mem_cons_self)
          · apply ih hnodup.2
            intro w hw
            rcases mem_adjustments_step hw with hold | hnew
            · exact fun hmem => hfresh w hold (List.mem_cons_of_mem id hmem)
            · rw [hnew]
              exact hnodup.1

end Step

/-! ## Runs on sample books -/

def sampleLot (id : ℕ) (quantity remainingQuantity : ℚ) (acquiredAt : Timestamp)
    (hpos : 0 < quantity) : TaxLot :=
  ⟨id, "user-1", "AAPL", quantity, remainingQuantity, 100, 100 * remainingQuantity, acquiredAt,
    hpos⟩

def sampleLoss (id : ℕ) (disposedAt : Timestamp) : Disposition :=
  ⟨id, 1, 10, disposedAt, -100, 0, by norm_num⟩

/-- Two losses of ten shares, the second one dated after the first, and a lot of ten shares. -/
def twoLosses : TaxBooks where
  lots := ⟨[sampleLot 1 20 0 0 (by norm_num), sampleLot 2 10 10 86400 (by norm_num)], by decide⟩
  dispositions := ⟨[sampleLoss 1 172800, sampleLoss 2 259200], by decide⟩
  adjustments := .empty

/-- A loss of two on three shares, and three lots of one share. -/
def threeSmallLots : TaxBooks where
  lots := ⟨[sampleLot 1 3 0 0 (by norm_num), sampleLot 2 1 1 86400 (by norm_num),
    sampleLot 3 1 1 86400 (by norm_num), sampleLot 4 1 1 86400 (by norm_num)], by decide⟩
  dispositions := ⟨[⟨1, 1, 3, 172800, -2, 0, by norm_num⟩], by decide⟩
  adjustments := .empty

-- Each third of the loss is rounded up to the four places of its column.
example : dispositionLoss (run (taxStep "user-1" "AAPL") threeSmallLots [.process 1]) 1 =
    20001 / 10000 := by decide +kernel

end TradingPlatform.Tax
