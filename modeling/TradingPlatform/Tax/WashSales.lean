import TradingPlatform.Base.Rounding
import TradingPlatform.Base.Table
import Mathlib.Algebra.Order.Ring.Rat
import Mathlib.Data.List.Sort

/-! # Wash sales

Lots, dispositions and wash sale adjustments of the tax tables, the detection of
replacement lots for a loss, and the statements that record what was found.
Share quantities have no more places than their columns and are stored as they
are; amounts of money are rounded by the arithmetic context and by the columns.
-/

namespace TradingPlatform.Tax

open Base

/-- Seconds on one time line. -/
abbrev Timestamp := Int

def secondsPerDay : Int := 86400

def washSaleWindowDays : Int := 30

/-- Significant digits of the arithmetic context. -/
def contextDigits : ℕ := 28

structure TaxLot where
  id : ℕ
  userId : String
  symbol : String
  quantity : ℚ
  remainingQuantity : ℚ
  costPerShare : ℚ
  totalCost : ℚ
  acquiredAt : Timestamp
  quantity_pos : 0 < quantity
  deriving DecidableEq

structure Disposition where
  id : ℕ
  lotId : ℕ
  quantity : ℚ
  disposedAt : Timestamp
  realizedGainLoss : ℚ
  washSaleDisallowed : ℚ
  quantity_pos : 0 < quantity
  deriving DecidableEq

/-- A row of `tax_wash_sale_adjustments`. -/
structure Adjustment where
  dispositionId : ℕ
  replacementLotId : ℕ
  matchingShares : ℚ
  disallowedLoss : ℚ
  holdingPeriodAdjustmentDays : Int

def Adjustment.key (w : Adjustment) : ℕ × ℕ := (w.dispositionId, w.replacementLotId)

structure TaxBooks where
  lots : Table ℕ TaxLot (·.id)
  dispositions : Table ℕ Disposition (·.id)
  adjustments : Table (ℕ × ℕ) Adjustment Adjustment.key

/-! ## Detection -/

/-- A replacement found for a loss; the disposition is filled in when it is applied. -/
structure WashSaleMatch where
  replacementLotId : ℕ
  symbol : String
  disallowedLoss : ℚ
  matchingShares : ℚ
  saleDate : Timestamp
  replacementDate : Timestamp

inductive TaxError where
  /-- `ValueError("shares_sold must be positive, got ...")` -/
  | sharesNotPositive
  deriving DecidableEq, Repr

/-- The disposition of an adjustment is dated on or before the sale, or is missing. -/
def countsBy (books : TaxBooks) (saleDate : Timestamp) (w : Adjustment) : Bool :=
  (books.dispositions.find? w.dispositionId).all fun d => d.disposedAt ≤ saleDate

/-- The column `shares_already_used` of the query. -/
def sharesAlreadyUsed (books : TaxBooks) (saleDate : Timestamp) (lotId : ℕ) : ℚ :=
  ((books.adjustments.select fun w => w.replacementLotId = lotId).map fun w =>
    if countsBy books saleDate w then w.matchingShares else 0).sum

/-- Open lots bought within the window, oldest first. -/
def replacementLots (books : TaxBooks) (userId symbol : String) (saleDate : Timestamp) :
    List TaxLot :=
  (books.lots.select fun l =>
    l.userId = userId && l.symbol = symbol &&
      saleDate - washSaleWindowDays * secondsPerDay ≤ l.acquiredAt &&
      l.acquiredAt ≤ saleDate + washSaleWindowDays * secondsPerDay &&
      0 < l.remainingQuantity).insertionSort fun l m => l.acquiredAt ≤ m.acquiredAt

def availableShares (books : TaxBooks) (saleDate : Timestamp) (lot : TaxLot) : ℚ :=
  min lot.remainingQuantity (lot.quantity - sharesAlreadyUsed books saleDate lot.id)

def lossPerShare (lossAmount sharesSold : ℚ) : ℚ :=
  toPrecision contextDigits (|lossAmount| / sharesSold)

def matchLots (available : TaxLot → ℚ) (perShare : ℚ) (symbol : String) (saleDate : Timestamp) :
    ℚ → List TaxLot → List WashSaleMatch
  | _, [] => []
  | remainingShares, lot :: rest =>
      if remainingShares ≤ 0 then []
      else if available lot ≤ 0 then
        matchLots available perShare symbol saleDate remainingShares rest
      else
        let matchingShares := min (available lot) remainingShares
        { replacementLotId := lot.id
          symbol
          disallowedLoss := toPrecision contextDigits (matchingShares * perShare)
          matchingShares
          saleDate
          replacementDate := lot.acquiredAt } ::
          matchLots available perShare symbol saleDate (remainingShares - matchingShares) rest

def detectWashSales (books : TaxBooks) (userId symbol : String) (saleDate : Timestamp)
    (lossAmount sharesSold : ℚ) : Except TaxError (List WashSaleMatch) :=
  if sharesSold ≤ 0 then .error .sharesNotPositive
  else if 0 ≤ lossAmount then .ok []
  else .ok (matchLots (availableShares books saleDate) (lossPerShare lossAmount sharesSold) symbol
    saleDate sharesSold (replacementLots books userId symbol saleDate))

/-! ## Recording -/

structure WashSaleAdjustment where
  lotId : ℕ
  disallowedLoss : ℚ
  basisAdjustment : ℚ
  holdingPeriodAdjustmentDays : Int

/-- Whole days from the purchase of the lot that was sold to the sale. -/
def daysHeld (books : TaxBooks) (lossDispositionId : ℕ) (saleDate : Timestamp) : Int :=
  match (books.dispositions.find? lossDispositionId).bind fun d => books.lots.find? d.lotId with
  | some originalLot => (saleDate - originalLot.acquiredAt) / secondsPerDay
  | none => 0

def Disposition.disallow (delta : ℚ) (d : Disposition) : Disposition :=
  { d with washSaleDisallowed := toScale 4 (d.washSaleDisallowed + delta) }

def TaxLot.addBasis (delta : ℚ) (lot : TaxLot) : TaxLot :=
  { lot with
    totalCost := toScale 4 (lot.totalCost + delta)
    costPerShare :=
      if 0 < lot.remainingQuantity then
        toScale 8 ((lot.totalCost + delta) / lot.remainingQuantity)
      else lot.costPerShare }

def adjustmentOf (lossDispositionId : ℕ) (days : Int) (m : WashSaleMatch) : Adjustment where
  dispositionId := lossDispositionId
  replacementLotId := m.replacementLotId
  matchingShares := m.matchingShares
  disallowedLoss := toScale 4 m.disallowedLoss
  holdingPeriodAdjustmentDays := days

def applyMatch (lossDispositionId : ℕ) (days : Int) (books : TaxBooks) (m : WashSaleMatch) :
    TaxBooks :=
  let oldDisallowed := (books.adjustments.find? (lossDispositionId, m.replacementLotId)).elim 0
    (·.disallowedLoss)
  let deltaDisallowed := toPrecision contextDigits (m.disallowedLoss - oldDisallowed)
  let adjustments := books.adjustments.upsert (adjustmentOf lossDispositionId days m)
  if deltaDisallowed = 0 then { books with adjustments }
  else
    { adjustments
      dispositions := books.dispositions.update lossDispositionId (.disallow deltaDisallowed)
        fun _ => rfl
      lots := books.lots.update m.replacementLotId (.addBasis deltaDisallowed) fun _ => rfl }

/-- The days held are the same for all matches, which share one sale date. -/
def applyWashSaleAdjustments (books : TaxBooks) (found : List WashSaleMatch)
    (lossDispositionId : ℕ) : TaxBooks × List WashSaleAdjustment :=
  let days (m : WashSaleMatch) := daysHeld books lossDispositionId m.saleDate
  (found.foldl (fun b m => applyMatch lossDispositionId (days m) b m) books,
    found.map fun m => ⟨m.replacementLotId, m.disallowedLoss, m.disallowedLoss, days m⟩)

end TradingPlatform.Tax
