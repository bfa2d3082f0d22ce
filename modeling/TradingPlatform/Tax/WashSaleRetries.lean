import TradingPlatform.Tax.WashSaleTotals

/-! # Wash sales that are processed again

The detection counts the rows of a disposition as shares in use when it is run
for the same disposition again: it looks for room beside what the first run has
recorded.
-/

namespace TradingPlatform.Tax

open Base

/-! ## What a run leaves to the next one -/

/-- A lot without its costs. -/
def TaxLot.holding (lot : TaxLot) : TaxLot := { lot with costPerShare := 0, totalCost := 0 }

/-- A disposition without its disallowed loss. -/
def Disposition.sale (d : Disposition) : Disposition := { d with washSaleDisallowed := 0 }

/-- Only costs and disallowed losses may differ. -/
structure SameTrades (books after : TaxBooks) : Prop where
  lots : after.lots.rows.map TaxLot.holding = books.lots.rows.map TaxLot.holding
  dispositions :
    after.dispositions.rows.map Disposition.sale = books.dispositions.rows.map Disposition.sale

section Trades

variable {books after : TaxBooks} {id : ℕ} {found : List WashSaleMatch}

theorem sameTrades_applyMatch (days : Int) (m : WashSaleMatch) :
    SameTrades books (applyMatch id days books m) := by
  by_cases hzero : deltaOf books id m = 0
  · rw [applyMatch_of_eq hzero]
    exact ⟨rfl, rfl⟩
  · rw [applyMatch_of_ne hzero]
    exact ⟨Table.map_key_update _ _ fun _ => rfl, Table.map_key_update _ _ fun _ => rfl⟩

theorem sameTrades_recordAll (days : WashSaleMatch → Int) :
    SameTrades books (recordAll id days found books) := by
  induction found generalizing books with
  | nil => exact ⟨rfl, rfl⟩
  | cons m found ih =>
      have hfirst := @sameTrades_applyMatch books id (days m) m
      have hrest := @ih (applyMatch id (days m) books m)
      exact ⟨hrest.lots.trans hfirst.lots, hrest.dispositions.trans hfirst.dispositions⟩

theorem SameTrades.find?_disposition (h : SameTrades books after) (id : ℕ) :
    (after.dispositions.find? id).map Disposition.sale =
      (books.dispositions.find? id).map Disposition.sale := by
  have hfind : ∀ t : Table ℕ Disposition (·.id), (t.find? id).map Disposition.sale =
      (t.rows.map Disposition.sale).find? fun d => d.id = id := by
    intro t
    rw [List.find?_map]
    rfl
  rw [hfind, hfind, h.dispositions]

theorem SameTrades.find?_lot (h : SameTrades books after) (lotId : ℕ) :
    (after.lots.find? lotId).map TaxLot.holding = (books.lots.find? lotId).map TaxLot.holding := by
  have hfind : ∀ t : Table ℕ TaxLot (·.id), (t.find? lotId).map TaxLot.holding =
      (t.rows.map TaxLot.holding).find? fun lot => lot.id = lotId := by
    intro t
    rw [List.find?_map]
    rfl
  rw [hfind, hfind, h.lots]

theorem SameTrades.replacementLots (h : SameTrades books after) (userId symbol : String)
    (saleDate : Timestamp) :
    (replacementLots after userId symbol saleDate).map TaxLot.holding =
      (replacementLots books userId symbol saleDate).map TaxLot.holding := by
  have hsort : ∀ b : TaxBooks, (Tax.replacementLots b userId symbol saleDate).map TaxLot.holding =
      ((b.lots.rows.map TaxLot.holding).filter fun l =>
        l.userId = userId && l.symbol = symbol &&
          saleDate - washSaleWindowDays * secondsPerDay ≤ l.acquiredAt &&
          l.acquiredAt ≤ saleDate + washSaleWindowDays * secondsPerDay &&
          0 < l.remainingQuantity).insertionSort fun l m => l.acquiredAt ≤ m.acquiredAt := by
    intro b
    rw [Tax.replacementLots, List.filter_map]
    apply List.map_insertionSort
    intro l _ m _
    rfl
  rw [hsort, hsort, h.lots]

theorem SameTrades.daysHeld (h : SameTrades books after) (id : ℕ) (saleDate : Timestamp) :
    daysHeld after id saleDate = daysHeld books id saleDate := by
  have hdispositions := h.find?_disposition id
  unfold Tax.daysHeld
  cases hd : books.dispositions.find? id with
  | none =>
      rw [hd, Option.map_none, Option.map_eq_none_iff] at hdispositions
      rw [hdispositions]
      rfl
  | some d =>
      rw [hd, Option.map_some] at hdispositions
      obtain ⟨d', hd', hsale⟩ := Option.map_eq_some_iff.mp hdispositions
      have hlotId : d'.sale.lotId = d.sale.lotId := by rw [hsale]
      change d'.lotId = d.lotId at hlotId
      have hlots := h.find?_lot d.lotId
      rw [hd', Option.bind_some, Option.bind_some, hlotId]
      cases hlot : books.lots.find? d.lotId with
      | none =>
          rw [hlot, Option.map_none, Option.map_eq_none_iff] at hlots
          rw [hlots]
      | some lot =>
          rw [hlot, Option.map_some] at hlots
          obtain ⟨lot', hlot', hholding⟩ := Option.map_eq_some_iff.mp hlots
          have hacquired : lot'.holding.acquiredAt = lot.holding.acquiredAt := by rw [hholding]
          change lot'.acquiredAt = lot.acquiredAt at hacquired
          rw [hlot']
          show (saleDate - lot'.acquiredAt) / _ = (saleDate - lot.acquiredAt) / _
          rw [hacquired]

theorem SameTrades.countsBy (h : SameTrades books after) (saleDate : Timestamp) (w : Adjustment) :
    countsBy after saleDate w = countsBy books saleDate w := by
  have hdate : ∀ b : TaxBooks, Tax.countsBy b saleDate w =
      ((b.dispositions.find? w.dispositionId).map Disposition.sale).all
        fun d => d.disposedAt ≤ saleDate := by
    intro b
    rw [Option.all_map]
    rfl
  rw [hdate, hdate, h.find?_disposition]

/-- The shares that the disposition has of a lot. -/
def ownShares (books : TaxBooks) (id lotId : ℕ) : ℚ :=
  (books.adjustments.find? (id, lotId)).elim 0 (·.matchingShares)

theorem sharesAlreadyUsed_applyMatch {saleDate : Timestamp} {m : WashSaleMatch} {days : Int}
    (hcounts : ∀ w : Adjustment, w.dispositionId = id → countsBy books saleDate w = true)
    (lotId : ℕ) :
    sharesAlreadyUsed (applyMatch id days books m) saleDate lotId =
      sharesAlreadyUsed books saleDate lotId +
        if lotId = m.replacementLotId then m.matchingShares - ownShares books id lotId else 0 := by
  have hsame := @sameTrades_applyMatch books id days m
  unfold sharesAlreadyUsed
  simp only [hsame.countsBy]
  rw [Table.sum_select, Table.sum_select, sum_applyMatch]
  have hnew := hcounts (adjustmentOf id days m) rfl
  have hlot : (adjustmentOf id days m).replacementLotId = m.replacementLotId := rfl
  have hshares : (adjustmentOf id days m).matchingShares = m.matchingShares := rfl
  cases hold : books.adjustments.find? (id, m.replacementLotId) with
  | none =>
      by_cases hother : lotId = m.replacementLotId
      · simp [hother, ownShares, hold, hnew, hlot, hshares]
      · simp [hother, hlot, Ne.symm hother]
  | some w =>
      have hkey : w.replacementLotId = m.replacementLotId :=
        congrArg Prod.snd (Table.find?_key hold)
      have hold' := hcounts w (congrArg Prod.fst (Table.find?_key hold))
      by_cases hother : lotId = m.replacementLotId
      · simp [hother, ownShares, hold, hnew, hlot, hshares, hkey, hold']
        ring
      · simp [hother, hlot, hkey, Ne.symm hother]

theorem sharesAlreadyUsed_recordAll {saleDate : Timestamp} {days : WashSaleMatch → Int}
    (hcounts : ∀ w : Adjustment, w.dispositionId = id → countsBy books saleDate w = true)
    (hnodup : (found.map (·.replacementLotId)).Nodup) (lotId : ℕ) :
    sharesAlreadyUsed (recordAll id days found books) saleDate lotId =
      match found.find? fun m => m.replacementLotId = lotId with
      | some m => sharesAlreadyUsed books saleDate lotId - ownShares books id lotId +
          m.matchingShares
      | none => sharesAlreadyUsed books saleDate lotId := by
  induction found generalizing books with
  | nil => rfl
  | cons m found ih =>
      rw [List.map_cons, List.nodup_cons] at hnodup
      have hsame := @sameTrades_applyMatch books id (days m) m
      rw [recordAll_cons, ih (fun w hw => (hsame.countsBy saleDate w).trans (hcounts w hw))
        hnodup.2, sharesAlreadyUsed_applyMatch hcounts]
      by_cases hlot : m.replacementLotId = lotId
      · have hlater := find?_later hnodup.1
        rw [hlot] at hlater
        simp [hlater, hlot]
        ring
      · have hfind : (m :: found).find? (fun m => m.replacementLotId = lotId) =
            found.find? fun m => m.replacementLotId = lotId := by
          simp [hlot]
        rw [hfind, if_neg (Ne.symm hlot), add_zero]
        have hown : ownShares (applyMatch id (days m) books m) id lotId =
            ownShares books id lotId := by
          have hkey : (id, lotId) ≠ (id, m.replacementLotId) := by
            simpa using Ne.symm hlot
          rw [ownShares, find?_applyMatch, if_neg hkey, ownShares]
        rw [hown]

end Trades

/-! ## The retry -/

section Retry

variable (userId symbol : String)

/-- The matches of a loss. -/
def matchesOf (books : TaxBooks) (d : Disposition) : List WashSaleMatch :=
  (amountsOf userId symbol books d).map
    (toMatch (lossPerShare d.realizedGainLoss d.quantity) symbol d.disposedAt)

def matchFor (d : Disposition) (lot : TaxLot) (shares : ℚ) : WashSaleMatch :=
  toMatch (lossPerShare d.realizedGainLoss d.quantity) symbol d.disposedAt (lot, shares)

/-- The shares that a run for the disposition matches to a lot. -/
def sharesMatched (books : TaxBooks) (d : Disposition) (lot : TaxLot) : ℚ :=
  share (availableShares books d.disposedAt) d.quantity
    (replacementLots books userId symbol d.disposedAt) lot

/-- What a lot has left beside the shares that a run has recorded for it. -/
def spareShares (books : TaxBooks) (d : Disposition) (lot : TaxLot) : ℚ :=
  if 0 < sharesMatched userId symbol books d lot then
    min lot.remainingQuantity (lot.quantity - (sharesAlreadyUsed books d.disposedAt lot.id -
      ownShares books d.id lot.id + sharesMatched userId symbol books d lot))
  else availableShares books d.disposedAt lot

/-- The shares that a second run matches to a lot. -/
def sharesRematched (books : TaxBooks) (d : Disposition) (lot : TaxLot) : ℚ :=
  share (spareShares userId symbol books d) d.quantity
    (replacementLots books userId symbol d.disposedAt) lot

variable {userId symbol} {books : TaxBooks} {d : Disposition}

theorem replacementLots_nodup (books : TaxBooks) (userId symbol : String) (saleDate : Timestamp) :
    (replacementLots books userId symbol saleDate).Nodup :=
  List.Nodup.of_map _ (replacementLots_ids_nodup books userId symbol saleDate)

theorem processDisposition_of_loss (h : d.realizedGainLoss < 0) :
    processDisposition userId symbol books d =
      recordAll d.id (fun m => daysHeld books d.id m.saleDate) (matchesOf userId symbol books d)
        books := by
  have hdetect : detectWashSales books userId symbol d.disposedAt d.realizedGainLoss d.quantity =
      .ok (matchesOf userId symbol books d) := by
    rw [detectWashSales, if_neg (not_le.mpr d.quantity_pos), if_neg (not_le.mpr h),
      matchLots_eq_allocate]
    rfl
  rw [processDisposition, hdetect]
  rfl

theorem matchesOf_ids_nodup :
    ((matchesOf userId symbol books d).map (·.replacementLotId)).Nodup := by
  rw [matchesOf, List.map_map]
  exact amountsOf_ids_nodup

theorem mem_matchesOf_iff {m : WashSaleMatch} :
    m ∈ matchesOf userId symbol books d ↔
      ∃ lot ∈ replacementLots books userId symbol d.disposedAt,
        0 < sharesMatched userId symbol books d lot ∧
          m = matchFor symbol d lot (sharesMatched userId symbol books d lot) := by
  have hamounts : ∀ p : TaxLot × ℚ, p ∈ amountsOf userId symbol books d ↔
      p.1 ∈ replacementLots books userId symbol d.disposedAt ∧
        0 < sharesMatched userId symbol books d p.1 ∧
          p.2 = sharesMatched userId symbol books d p.1 := fun p =>
    mem_allocate_iff_share (replacementLots_nodup books userId symbol d.disposedAt)
  rw [matchesOf, List.mem_map]
  constructor
  · intro ⟨p, hp, hm⟩
    obtain ⟨hlot, hpos, hshares⟩ := (hamounts p).mp hp
    refine ⟨p.1, hlot, hpos, ?_⟩
    rw [← hm, ← hshares]
    rfl
  · intro ⟨lot, hlot, hpos, hm⟩
    exact ⟨(lot, _), (hamounts _).mpr ⟨hlot, hpos, rfl⟩, hm.symm⟩

theorem find?_matchesOf {lot : TaxLot}
    (hlot : lot ∈ replacementLots books userId symbol d.disposedAt) :
    ((matchesOf userId symbol books d).find? fun m => m.replacementLotId = lot.id) =
      if 0 < sharesMatched userId symbol books d lot then
        some (matchFor symbol d lot (sharesMatched userId symbol books d lot))
      else none := by
  split
  · rename_i hpos
    exact find?_match matchesOf_ids_nodup (mem_matchesOf_iff.mpr ⟨lot, hlot, hpos, rfl⟩)
  · rename_i hnone
    rw [List.find?_eq_none]
    intro m hm
    obtain ⟨other, hother, hpos, rfl⟩ := mem_matchesOf_iff.mp hm
    have hne : other.id ≠ lot.id := by
      intro heq
      have hsame : other = lot := List.inj_on_of_nodup_map
        (replacementLots_ids_nodup books userId symbol d.disposedAt) hother hlot heq
      exact hnone (hsame ▸ hpos)
    rw [decide_eq_true_eq]
    exact hne

/-- The capacity of a lot for the second run. -/
theorem availableShares_retry (hd : books.dispositions.find? d.id = some d)
    (hloss : d.realizedGainLoss < 0) {lot : TaxLot}
    (hlot : lot ∈ replacementLots books userId symbol d.disposedAt) :
    availableShares (processDisposition userId symbol books d) d.disposedAt lot =
      spareShares userId symbol books d lot := by
  have hcounts : ∀ w : Adjustment, w.dispositionId = d.id →
      countsBy books d.disposedAt w = true := by
    intro w hw
    rw [countsBy, hw, hd]
    exact decide_eq_true (le_refl _)
  rw [processDisposition_of_loss hloss, availableShares,
    sharesAlreadyUsed_recordAll hcounts matchesOf_ids_nodup, find?_matchesOf hlot, spareShares]
  by_cases hpos : 0 < sharesMatched userId symbol books d lot
  · rw [if_pos hpos, if_pos hpos]
    rfl
  · rw [if_neg hpos, if_neg hpos]
    rfl

/-- The second run allocates the same sale to what the lots have spare. -/
theorem matchesOf_retry {d' : Disposition} (hd : books.dispositions.find? d.id = some d)
    (hloss : d.realizedGainLoss < 0) (hsale : d'.sale = d.sale) :
    matchesOf userId symbol (processDisposition userId symbol books d) d' =
      (allocate (spareShares userId symbol books d) d.quantity
        (replacementLots books userId symbol d.disposedAt)).map
          (toMatch (lossPerShare d.realizedGainLoss d.quantity) symbol d.disposedAt) := by
  have htrades : SameTrades books (processDisposition userId symbol books d) := by
    rw [processDisposition_of_loss hloss]
    exact sameTrades_recordAll _
  have hholdings := htrades.replacementLots userId symbol d.disposedAt
  generalize hafter : processDisposition userId symbol books d = after at hholdings ⊢
  have hmatches : ∀ lots : List TaxLot,
      (allocate (availableShares after d.disposedAt) d.quantity lots).map
          (toMatch (lossPerShare d.realizedGainLoss d.quantity) symbol d.disposedAt) =
        (allocate (availableShares after d.disposedAt) d.quantity (lots.map TaxLot.holding)).map
          (toMatch (lossPerShare d.realizedGainLoss d.quantity) symbol d.disposedAt) := by
    intro lots
    rw [allocate_map, List.map_map]
    rfl
  have hspare : ∀ lot ∈ replacementLots books userId symbol d.disposedAt,
      spareShares userId symbol books d lot = availableShares after d.disposedAt lot := by
    intro lot hlot
    rw [← hafter, availableShares_retry hd hloss hlot]
  have hsame : matchesOf userId symbol after d' =
      (matchesOf userId symbol after { d' with washSaleDisallowed := 0 }) := rfl
  rw [allocate_congr hspare, hmatches, ← hholdings, ← hmatches, hsame]
  change matchesOf userId symbol after d'.sale = _
  rw [hsale]
  rfl

/-- A lot that has shares to spare is reached by the second run only for what is recorded for
it already; a total that rounding would take down is positive. -/
def RetryRepeats (userId symbol : String) (books : TaxBooks) (d : Disposition) : Prop :=
  let after := processDisposition userId symbol books d
  ∀ lot ∈ replacementLots books userId symbol d.disposedAt,
    0 < sharesRematched userId symbol books d lot →
    let again := matchFor symbol d lot (sharesRematched userId symbol books d lot)
    (if 0 < sharesMatched userId symbol books d lot then
      sharesRematched userId symbol books d lot = sharesMatched userId symbol books d lot
    else
      books.adjustments.find? (d.id, lot.id) =
        some (adjustmentOf d.id (daysHeld books d.id d.disposedAt) again)) ∧
    (IsTie again → (∀ total ∈ disallowedOf after d.id, 0 < total) ∧
      ∀ cost ∈ costOf after lot.id, 0 < cost)

theorem mem_retry_iff {d' : Disposition} (hd : books.dispositions.find? d.id = some d)
    (hloss : d.realizedGainLoss < 0) (hsale : d'.sale = d.sale) {m : WashSaleMatch} :
    m ∈ matchesOf userId symbol (processDisposition userId symbol books d) d' ↔
      ∃ lot ∈ replacementLots books userId symbol d.disposedAt,
        0 < sharesRematched userId symbol books d lot ∧
          m = matchFor symbol d lot (sharesRematched userId symbol books d lot) := by
  have hamounts : ∀ p : TaxLot × ℚ, p ∈ allocate (spareShares userId symbol books d) d.quantity
      (replacementLots books userId symbol d.disposedAt) ↔
        p.1 ∈ replacementLots books userId symbol d.disposedAt ∧
          0 < sharesRematched userId symbol books d p.1 ∧
            p.2 = sharesRematched userId symbol books d p.1 := fun p =>
    mem_allocate_iff_share (replacementLots_nodup books userId symbol d.disposedAt)
  rw [matchesOf_retry hd hloss hsale, List.mem_map]
  constructor
  · intro ⟨p, hp, hm⟩
    obtain ⟨hlot, hpos, hshares⟩ := (hamounts p).mp hp
    refine ⟨p.1, hlot, hpos, ?_⟩
    rw [← hm, ← hshares]
    rfl
  · intro ⟨lot, hlot, hpos, hm⟩
    exact ⟨(lot, _), (hamounts _).mpr ⟨hlot, hpos, rfl⟩, hm.symm⟩

theorem matchesOf_amounts {m : WashSaleMatch} (hm : m ∈ matchesOf userId symbol books d) :
    0 ≤ m.disallowedLoss ∧ FitsDigits contextDigits m.disallowedLoss := by
  obtain ⟨lot, -, hpos, rfl⟩ := mem_matchesOf_iff.mp hm
  constructor
  · apply toPrecision_nonneg
    apply mul_nonneg hpos.le
    exact toPrecision_nonneg (div_nonneg (abs_nonneg _) d.quantity_pos.le)
  · exact fitsDigits_toPrecision (by decide) _

/-- What the first run has recorded of a lot. -/
theorem find?_processed (hloss : d.realizedGainLoss < 0) {lot : TaxLot}
    (hlot : lot ∈ replacementLots books userId symbol d.disposedAt) :
    (processDisposition userId symbol books d).adjustments.find? (d.id, lot.id) =
      if 0 < sharesMatched userId symbol books d lot then
        some (adjustmentOf d.id (daysHeld books d.id d.disposedAt)
          (matchFor symbol d lot (sharesMatched userId symbol books d lot)))
      else books.adjustments.find? (d.id, lot.id) := by
  rw [processDisposition_of_loss hloss, find?_recordAll matchesOf_ids_nodup, find?_matchesOf hlot]
  by_cases hpos : 0 < sharesMatched userId symbol books d lot
  · rw [if_pos hpos, if_pos hpos]
    rfl
  · rw [if_neg hpos, if_neg hpos]

theorem adjustmentOf_matchFor_inj (id : ℕ) (days : Int) (lot : TaxLot) {shares again : ℚ} :
    adjustmentOf id days (matchFor symbol d lot shares) =
      adjustmentOf id days (matchFor symbol d lot again) ↔ shares = again := by
  constructor
  · exact fun h => congrArg Adjustment.matchingShares h
  · exact fun h => h ▸ rfl

/-- A retry leaves the records as they are exactly when it repeats them. -/
theorem sameRecords_retry_iff (hcolumns : InColumns books)
    (hd : books.dispositions.find? d.id = some d) (hloss : d.realizedGainLoss < 0) :
    SameRecords (processDisposition userId symbol books d)
        (taxStep userId symbol (processDisposition userId symbol books d) (.process d.id)) ↔
      RetryRepeats userId symbol books d := by
  have hafter := @processDisposition_of_loss userId symbol books d hloss
  have htrades : SameTrades books (processDisposition userId symbol books d) := by
    rw [hafter]
    exact sameTrades_recordAll _
  have hcolumnsAfter : InColumns (processDisposition userId symbol books d) := by
    rw [hafter]
    exact inColumns_recordAll hcolumns
  have hfound := htrades.find?_disposition d.id
  rw [hd, Option.map_some] at hfound
  obtain ⟨d', hd', hsale⟩ := Option.map_eq_some_iff.mp hfound
  have hid : d'.id = d.id := Table.find?_key hd'
  have hloss' : d'.realizedGainLoss < 0 := by
    have hgain : d'.sale.realizedGainLoss = d.sale.realizedGainLoss := by rw [hsale]
    change d'.realizedGainLoss = d.realizedGainLoss at hgain
    rwa [hgain]
  have hretry : taxStep userId symbol (processDisposition userId symbol books d)
      (.process d.id) = recordAll d.id
        (fun m => daysHeld (processDisposition userId symbol books d) d.id m.saleDate)
        (matchesOf userId symbol (processDisposition userId symbol books d) d')
        (processDisposition userId symbol books d) := by
    rw [taxStep, hd', Option.elim_some, processDisposition_of_loss hloss', hid]
  rw [hretry, sameRecords_recordAll_iff hcolumnsAfter matchesOf_ids_nodup
    fun m hm => matchesOf_amounts hm]
  -- the recorded row against the one that the retry writes
  have hrow : ∀ lot ∈ replacementLots books userId symbol d.disposedAt,
      ((processDisposition userId symbol books d).adjustments.find? (d.id, lot.id) =
        some (adjustmentOf d.id
          (daysHeld (processDisposition userId symbol books d) d.id d.disposedAt)
          (matchFor symbol d lot (sharesRematched userId symbol books d lot))) ↔
      if 0 < sharesMatched userId symbol books d lot then
        sharesRematched userId symbol books d lot = sharesMatched userId symbol books d lot
      else
        books.adjustments.find? (d.id, lot.id) =
          some (adjustmentOf d.id (daysHeld books d.id d.disposedAt)
            (matchFor symbol d lot (sharesRematched userId symbol books d lot)))) := by
    intro lot hlot
    rw [find?_processed hloss hlot, htrades.daysHeld]
    split
    · rw [Option.some_inj, adjustmentOf_matchFor_inj]
      exact eq_comm
    · exact Iff.rfl
  constructor
  · intro h lot hlot hpos
    obtain ⟨hrecorded, htie⟩ := h _ ((mem_retry_iff hd hloss hsale).mpr ⟨lot, hlot, hpos, rfl⟩)
    exact ⟨(hrow lot hlot).mp hrecorded, htie⟩
  · intro h m hm
    obtain ⟨lot, hlot, hpos, rfl⟩ := (mem_retry_iff hd hloss hsale).mp hm
    obtain ⟨hrecorded, htie⟩ := h lot hlot hpos
    exact ⟨(hrow lot hlot).mpr hrecorded, htie⟩

end Retry

/-! ## Runs -/

/-- One detection with the recording of what it found. -/
structure WashSaleRun where
  userId : String
  symbol : String
  dispositionId : ℕ

def processRun (books : TaxBooks) (r : WashSaleRun) : TaxBooks :=
  taxStep r.userId r.symbol books (.process r.dispositionId)

/-- The differences that the run records are rounded like the amounts themselves. -/
def RunRoundsAlike (books : TaxBooks) (r : WashSaleRun) : Prop :=
  ∀ d ∈ books.dispositions.find? r.dispositionId, d.realizedGainLoss < 0 →
    ∀ lot ∈ replacementLots books r.userId r.symbol d.disposedAt,
      0 < sharesMatched r.userId r.symbol books d lot →
      RoundsAlike books d.id
        (matchFor r.symbol d lot (sharesMatched r.userId r.symbol books d lot))

instance RoundsAlike.decidable (books : TaxBooks) (id : ℕ) (m : WashSaleMatch) :
    Decidable (RoundsAlike books id m) :=
  inferInstanceAs (Decidable (_ = _))

instance RunRoundsAlike.decidable (books : TaxBooks) (r : WashSaleRun) :
    Decidable (RunRoundsAlike books r) :=
  inferInstanceAs (Decidable (∀ d ∈ books.dispositions.find? r.dispositionId, _))

theorem kept_processRun {initial : ℕ → ℚ} (hinitial : ∀ lotId, 0 ≤ initial lotId)
    (books : TaxBooks) (r : WashSaleRun) (h : Kept initial books)
    (hrounds : RunRoundsAlike books r) : Kept initial (processRun books r) := by
  have hrun : processRun books r = (books.dispositions.find? r.dispositionId).elim books
      (processDisposition r.userId r.symbol books) := rfl
  rw [hrun]
  cases hd : books.dispositions.find? r.dispositionId with
  | none => exact h
  | some d =>
      rw [Option.elim_some]
      by_cases hloss : d.realizedGainLoss < 0
      · rw [processDisposition_of_loss hloss]
        apply kept_recordAll h hinitial matchesOf_ids_nodup
        intro m hm
        refine ⟨(matchesOf_amounts hm).1, ?_⟩
        obtain ⟨lot, hlot, hpos, rfl⟩ := mem_matchesOf_iff.mp hm
        exact hrounds d hd hloss lot hlot hpos
      · rw [processDisposition_of_gain (not_lt.mp hloss)]
        exact h

/-- A retry is idempotent exactly when it repeats what is recorded; the totals are those of the
rows in every state of runs that round alike. -/
theorem retry_repeats_and_conserves (books : TaxBooks) :
    (∀ (userId symbol : String) (d : Disposition), InColumns books →
      books.dispositions.find? d.id = some d → d.realizedGainLoss < 0 →
      let after := processDisposition userId symbol books d
      (SameRecords after (taxStep userId symbol after (.process d.id)) ↔
        RetryRepeats userId symbol books d)) ∧
    ∀ (initial : ℕ → ℚ) (runs : List WashSaleRun), (∀ lotId, 0 ≤ initial lotId) →
      Kept initial books → EachStep processRun RunRoundsAlike books runs →
      EveryState processRun (Conserves initial) books runs := by
  constructor
  · intro userId symbol d hcolumns hd hloss
    exact sameRecords_retry_iff hcolumns hd hloss
  · intro initial runs hinitial hkept hrounds
    have hevery := everyState_of_eachStep (kept_processRun hinitial) hkept hrounds
    exact hevery.mono fun _ h => h.toConserves

/-! ## Retries on sample books -/

theorem ten_pos : (0 : ℚ) < 10 := by norm_num

theorem twenty_pos : (0 : ℚ) < 20 := by norm_num

/-- A loss of ten shares, and a lot that has room for it twice. -/
def wideLot : TaxBooks where
  lots := ⟨[sampleLot 1 10 0 0 ten_pos, sampleLot 2 20 20 86400 twenty_pos], by decide⟩
  dispositions := ⟨[sampleLoss 1 172800], List.nodup_singleton _⟩
  adjustments := .empty

def wideCost (lotId : ℕ) : ℚ := if lotId = 2 then 2000 else 0

theorem inColumns_wideLot : InColumns wideLot where
  dispositions := by
    intro d hd
    obtain rfl := List.mem_singleton.mp hd
    exact atScale_zero
  lots := by
    intro lot hlot
    rcases List.mem_pair.mp hlot with rfl | rfl
    · exact ⟨0, by norm_num [sampleLot]⟩
    · exact ⟨20000000, by norm_num [sampleLot]⟩
  adjustments := fun w hw => absurd hw List.not_mem_nil

theorem kept_wideLot : Kept wideCost wideLot where
  columns := inColumns_wideLot
  nonneg := fun w hw => absurd hw List.not_mem_nil
  disallowed := by decide +kernel
  costs := by decide +kernel

theorem wide_lot_is_matched_again :
    let after := processDisposition "user-1" "AAPL" wideLot (sampleLoss 1 172800)
    SameRecords after (taxStep "user-1" "AAPL" after (.process 1)) ∧
      EveryState processRun (Conserves wideCost) wideLot
        [⟨"user-1", "AAPL", 1⟩, ⟨"user-1", "AAPL", 1⟩] := by
  have hlots : replacementLots wideLot "user-1" "AAPL" 172800 =
      [sampleLot 2 20 20 86400 twenty_pos] := by decide +kernel
  constructor
  · apply ((retry_repeats_and_conserves wideLot).1 "user-1" "AAPL" (sampleLoss 1 172800)
      inColumns_wideLot (by decide +kernel) (by decide +kernel)).mpr
    intro lot hlot _ again
    obtain rfl := List.mem_singleton.mp (hlots ▸ hlot)
    have hagain : sharesRematched "user-1" "AAPL" wideLot (sampleLoss 1 172800)
        (sampleLot 2 20 20 86400 twenty_pos) = 10 := by decide +kernel
    have hmatched : sharesMatched "user-1" "AAPL" wideLot (sampleLoss 1 172800)
        (sampleLot 2 20 20 86400 twenty_pos) = 10 := by decide +kernel
    have htie : ¬IsTie again := by
      unfold again IsTie
      rw [hagain]
      decide +kernel
    constructor
    · rw [hagain, hmatched, if_pos (by norm_num)]
    · exact fun h => absurd h htie
  · apply (retry_repeats_and_conserves wideLot).2 wideCost _ _ kept_wideLot
    · decide +kernel
    · intro lotId
      unfold wideCost
      split <;> norm_num

/-- Two lots of ten shares, and a loss of ten. -/
def spareLots : TaxBooks where
  lots := ⟨[sampleLot 1 10 0 0 ten_pos, sampleLot 2 10 10 86400 ten_pos,
    sampleLot 3 10 10 86400 ten_pos], by decide⟩
  dispositions := ⟨[sampleLoss 1 172800], List.nodup_singleton _⟩
  adjustments := .empty

/-- The retry finds the first lot used by the loss itself and disallows the loss once more. -/
theorem retry_disallows_twice :
    let after := processDisposition "user-1" "AAPL" spareLots (sampleLoss 1 172800)
    let again := taxStep "user-1" "AAPL" after (.process 1)
    disallowedOf after 1 = some 100 ∧ disallowedOf again 1 = some 200 ∧
      costOf after 3 = some 1000 ∧ costOf again 3 = some 1100 ∧ ¬SameRecords after again := by
  intro after again
  have hfirst : disallowedOf after 1 = some 100 := by decide +kernel
  have hsecond : disallowedOf again 1 = some 200 := by decide +kernel
  refine ⟨hfirst, hsecond, by decide +kernel, by decide +kernel, ?_⟩
  intro hsame
  have htotal := hsame.disallowed 1
  rw [hfirst, hsecond] at htotal
  norm_num at htotal

end TradingPlatform.Tax
