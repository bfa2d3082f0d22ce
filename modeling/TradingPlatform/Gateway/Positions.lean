import TradingPlatform.Gateway.Schema
import Mathlib.Tactic.NormNum

/-! # Position updates

The arithmetic of one fill on a position, and the statement that stores it. A
position keeps its average entry price positive while it is open, which is the
check constraint of the table; a fill at a positive price never runs into it.
-/

namespace TradingPlatform.Gateway

open Base

/-! ## The arithmetic -/

/-- Profit on the closed quantity; zero unless the fill goes against the position. -/
def getRealizedPnl (oldQty : Int) (oldAvgPrice fillPrice : ℚ) (side : Side) (qtyClosed : Int) :
    ℚ :=
  if side = .sell ∧ 0 < oldQty then (fillPrice - oldAvgPrice) * qtyClosed
  else if side = .buy ∧ oldQty < 0 then (oldAvgPrice - fillPrice) * qtyClosed
  else 0

/-- New quantity, average price and realised profit. -/
def calculatePositionUpdate (oldQty : Int) (oldAvgPrice oldRealizedPl : ℚ) (fillQty : Int)
    (fillPrice : ℚ) (side : Side) : Int × ℚ × ℚ :=
  let signedFillQty := side.sign * fillQty
  let newQty := oldQty + signedFillQty
  let isAddingToPosition := (0 < oldQty ∧ side = .buy) ∨ (oldQty < 0 ∧ side = .sell)
  let pnl := getRealizedPnl oldQty oldAvgPrice fillPrice side
  if newQty = 0 then
    (newQty, 0, oldRealizedPl + pnl |signedFillQty|)
  else if oldQty = 0 then
    (newQty, fillPrice, oldRealizedPl)
  else if isAddingToPosition then
    (newQty, (oldAvgPrice * |oldQty| + fillPrice * |signedFillQty|) / |newQty|, oldRealizedPl)
  else if oldQty * newQty < 0 then
    (newQty, fillPrice, oldRealizedPl + pnl |oldQty|)
  else
    (newQty, oldAvgPrice, oldRealizedPl + pnl |signedFillQty|)

example : calculatePositionUpdate 50 100 0 100 120 .sell = (-50, 120, 1000) := by
  decide +kernel

theorem calculatePositionUpdate_qty (oldQty : Int) (oldAvg oldPl : ℚ) (fillQty : Int)
    (price : ℚ) (side : Side) :
    (calculatePositionUpdate oldQty oldAvg oldPl fillQty price side).1 =
      oldQty + side.sign * fillQty := by
  simp only [calculatePositionUpdate]
  split_ifs <;> rfl

/-- Closing a position books exactly the price difference on the closed quantity. -/
theorem calculatePositionUpdate_close (oldQty : Int) (oldAvg oldPl : ℚ) (fillQty : Int)
    (price : ℚ) (side : Side) (hfill : 0 < fillQty) (hclose : oldQty + side.sign * fillQty = 0) :
    (calculatePositionUpdate oldQty oldAvg oldPl fillQty price side).2.2 =
      oldPl + (price - oldAvg) * oldQty := by
  simp only [calculatePositionUpdate, if_pos hclose]
  cases side with
  | buy =>
      have hold : oldQty = -fillQty := by
        simp only [Side.sign] at hclose
        omega
      have hneg : -fillQty < 0 := by omega
      simp only [getRealizedPnl, Side.sign, one_mul, abs_of_pos hfill, hold, hneg]
      simp only [reduceCtorEq, false_and, if_false, true_and, if_true]
      push_cast
      ring
  | sell =>
      have hold : oldQty = fillQty := by
        simp only [Side.sign] at hclose
        omega
      simp only [getRealizedPnl, Side.sign, hold, hfill]
      simp [abs_of_pos hfill]

/-- A fill at a positive price leaves an open position with a positive average price. -/
theorem calculatePositionUpdate_avg_pos {oldQty : Int} {oldAvg : ℚ} (oldPl : ℚ)
    (fillQty : Int) {price : ℚ} (side : Side) (hold : 0 < oldAvg ∨ oldQty = 0)
    (hprice : 0 < price) :
    0 < (calculatePositionUpdate oldQty oldAvg oldPl fillQty price side).2.1 ∨
      (calculatePositionUpdate oldQty oldAvg oldPl fillQty price side).1 = 0 := by
  rw [calculatePositionUpdate_qty]
  simp only [calculatePositionUpdate]
  split_ifs with hzero hopen hadd hflip
  · exact Or.inr hzero
  · exact Or.inl hprice
  · left
    have havg : 0 < oldAvg := hold.resolve_right hopen
    have hqty : (0 : ℚ) < |(oldQty : ℚ)| := abs_pos.mpr (by exact_mod_cast hopen)
    have hnew : (0 : ℚ) < |((oldQty + side.sign * fillQty : Int) : ℚ)| :=
      abs_pos.mpr (by exact_mod_cast hzero)
    simp only [Int.cast_abs]
    apply div_pos _ hnew
    apply add_pos_of_pos_of_nonneg
    · exact mul_pos havg hqty
    · exact mul_nonneg hprice.le (abs_nonneg _)
  · exact Or.inl hprice
  · exact Or.inl (hold.resolve_right hopen)

/-! ## The arithmetic on fractional quantities -/

/-- The variant that rebuilds the history of a position from its trades; it returns the
profit of the one trade. -/
def calculatePositionUpdateDecimal (oldQty oldAvgPrice fillQty fillPrice : ℚ) (side : Side) :
    ℚ × ℚ × ℚ :=
  let signedFillQty := side.sign * fillQty
  let newQty := oldQty + signedFillQty
  let isAddingToPosition := (0 < oldQty ∧ side = .buy) ∨ (oldQty < 0 ∧ side = .sell)
  let pnl (qtyClosed : ℚ) : ℚ :=
    if side = .sell ∧ 0 < oldQty then (fillPrice - oldAvgPrice) * qtyClosed
    else if side = .buy ∧ oldQty < 0 then (oldAvgPrice - fillPrice) * qtyClosed
    else 0
  if newQty = 0 then
    (newQty, 0, pnl |signedFillQty|)
  else if oldQty = 0 then
    (newQty, fillPrice, 0)
  else if isAddingToPosition then
    (newQty, (oldAvgPrice * |oldQty| + fillPrice * |signedFillQty|) / |newQty|, 0)
  else if oldQty * newQty < 0 then
    (newQty, fillPrice, pnl |oldQty|)
  else
    (newQty, oldAvgPrice, pnl |signedFillQty|)

/-- On whole shares the two variants agree. -/
theorem calculatePositionUpdate_eq_decimal (oldQty : Int) (oldAvg oldPl : ℚ) (fillQty : Int)
    (price : ℚ) (side : Side) :
    let whole := calculatePositionUpdate oldQty oldAvg oldPl fillQty price side
    let rebuilt := calculatePositionUpdateDecimal oldQty oldAvg fillQty price side
    (whole.1 : ℚ) = rebuilt.1 ∧ whole.2.1 = rebuilt.2.1 ∧ whole.2.2 = oldPl + rebuilt.2.2 := by
  have hnew : ((oldQty : ℚ) + side.sign * fillQty) =
      ((oldQty + side.sign * fillQty : Int) : ℚ) := by
    push_cast
    ring
  have hprod : ((oldQty : ℚ) * ((oldQty + side.sign * fillQty : Int) : ℚ)) =
      ((oldQty * (oldQty + side.sign * fillQty) : Int) : ℚ) := by
    push_cast
    ring
  simp only [calculatePositionUpdate, calculatePositionUpdateDecimal, getRealizedPnl, hnew, hprod,
    Int.cast_eq_zero, Int.cast_pos, Int.cast_lt_zero]
  split_ifs <;> simp

/-! ## The statement -/

def getPositionForUpdate (db : Database) (symbol : String) : Option Position :=
  db.positions.find? symbol

/-- The row to store; `none` when it would violate the check constraint. -/
def checkedPosition (symbol : String) (update : Int × ℚ × ℚ) : Option Position :=
  if h : 0 < update.2.1 ∨ update.1 = 0 then
    some ⟨symbol, update.1, update.2.1, update.2.2, h⟩
  else
    none

def positionAfterFill (db : Database) (symbol : String) (fillQty : Int) (fillPrice : ℚ)
    (side : Side) : Option Position :=
  match db.positions.find? symbol with
  | some current =>
      checkedPosition symbol (calculatePositionUpdate current.qty current.avgEntryPrice
        current.realizedPl fillQty fillPrice side)
  | none => checkedPosition symbol (calculatePositionUpdate 0 0 0 fillQty fillPrice side)

def updatePositionOnFillWithConn (db : Database) (symbol : String) (fillQty : Int)
    (fillPrice : ℚ) (side : Side) : Option (Database × Position) :=
  (positionAfterFill db symbol fillQty fillPrice side).map fun p =>
    ({ db with positions := db.positions.upsert p }, p)

theorem checkedPosition_eq_some {symbol : String} {update : Int × ℚ × ℚ} {p : Position}
    (h : checkedPosition symbol update = some p) : p.symbol = symbol ∧ p.qty = update.1 := by
  unfold checkedPosition at h
  split at h
  · cases h
    exact ⟨rfl, rfl⟩
  · cases h

theorem positionAfterFill_spec {db : Database} {symbol : String} {fillQty : Int}
    {fillPrice : ℚ} {side : Side} {p : Position}
    (h : positionAfterFill db symbol fillQty fillPrice side = some p) :
    p.symbol = symbol ∧ p.qty = db.positionQty symbol + side.sign * fillQty := by
  unfold positionAfterFill at h
  unfold Database.positionQty
  cases hcurrent : db.positions.find? symbol with
  | none =>
      rw [hcurrent] at h
      obtain ⟨hsymbol, hqty⟩ := checkedPosition_eq_some h
      exact ⟨hsymbol, by rw [hqty, calculatePositionUpdate_qty]⟩
  | some current =>
      rw [hcurrent] at h
      obtain ⟨hsymbol, hqty⟩ := checkedPosition_eq_some h
      exact ⟨hsymbol, by rw [hqty, calculatePositionUpdate_qty]⟩

/-- The check constraint does not stop a fill at a positive price. -/
theorem positionAfterFill_isSome (db : Database) (symbol : String) (fillQty : Int)
    {fillPrice : ℚ} (side : Side) (hprice : 0 < fillPrice) :
    (positionAfterFill db symbol fillQty fillPrice side).isSome = true := by
  unfold positionAfterFill
  cases hcurrent : db.positions.find? symbol with
  | none =>
      have hflat : 0 < (0 : ℚ) ∨ (0 : Int) = 0 := Or.inr rfl
      have havg := calculatePositionUpdate_avg_pos 0 fillQty side hflat hprice
      simp only [checkedPosition, dif_pos havg]
      rfl
  | some p =>
      have havg := calculatePositionUpdate_avg_pos p.realizedPl fillQty side p.avg_pos
        hprice
      simp only [checkedPosition, dif_pos havg]
      rfl

theorem positionQty_upsert (db : Database) (p : Position) (symbol : String) :
    Database.positionQty { db with positions := db.positions.upsert p } symbol =
      if symbol = p.symbol then p.qty else db.positionQty symbol := by
  simp only [Database.positionQty, Table.find?_upsert]
  split_ifs <;> rfl

/-- A booked fill moves its own symbol by the signed quantity and no other one, and it
touches positions only. -/
theorem updatePositionOnFillWithConn_spec {db db' : Database} {symbol : String}
    {fillQty : Int} {fillPrice : ℚ} {side : Side} {p : Position}
    (h : updatePositionOnFillWithConn db symbol fillQty fillPrice side = some (db', p)) :
    db'.orders = db.orders ∧ db'.trades = db.trades ∧
      db'.positionQty symbol = db.positionQty symbol + side.sign * fillQty ∧
      ∀ other ≠ symbol, db'.positionQty other = db.positionQty other := by
  simp only [updatePositionOnFillWithConn, Option.map_eq_some_iff, Prod.mk.injEq] at h
  obtain ⟨p', hp', hdb, -⟩ := h
  obtain ⟨hsymbol, hqty⟩ := positionAfterFill_spec hp'
  rw [← hdb]
  refine ⟨rfl, rfl, ?_, ?_⟩
  · rw [positionQty_upsert, hsymbol, if_pos rfl, hqty]
  · intro other hne
    rw [positionQty_upsert, hsymbol, if_neg hne]

end TradingPlatform.Gateway
