import TradingPlatform.Gateway.AlpacaFills
import TradingPlatform.Gateway.CostAccounting

/-! # Replaying the trades

The loop that rebuilds the profit of each trade goes through the same positions
as the fills did when they were booked, and rewriting the profits changes nothing
that the loop reads.
-/

namespace TradingPlatform.Gateway

open Base

/-- Where the loop of `recalculate_trade_realized_pnl` leaves the quantity and the average. -/
def replayPosition : ℚ × ℚ → List Trade → ℚ × ℚ
  | position, [] => position
  | (positionQty, avgPrice), t :: rest =>
      if t.qty ≤ 0 ∨ t.price ≤ 0 then replayPosition (positionQty, avgPrice) rest
      else
        let (newQty, newAvg, _) :=
          calculatePositionUpdateDecimal positionQty avgPrice t.qty.toRat t.price.toRat t.side
        replayPosition (newQty, newAvg) rest

/-- The trade is the record of a fill. -/
structure Records (t : Trade) (fill : PricedFill) : Prop where
  side : t.side = fill.side
  qty : t.qty.toRat = fill.fillQty
  price : t.price.toRat = fill.fillPrice

/-! ## One pass -/

theorem not_skipped (t : Trade) : ¬(t.qty ≤ 0 ∨ t.price ≤ 0) := by
  intro h
  have hqty := t.qty_pos
  have hprice := t.price_pos
  rw [Decimal.lt_iff] at hqty hprice
  rcases h with h | h
  · rw [Decimal.le_iff] at h
    exact absurd hqty (not_lt.mpr h)
  · rw [Decimal.le_iff] at h
    exact absurd hprice (not_lt.mpr h)

/-- From one position, the loop and the bookings stay in step. -/
theorem replay_from {rows : List Trade} {fills : List PricedFill}
    (h : List.Forall₂ Records rows fills) (position : ℤ × ℚ × ℚ) :
    replayPosition (position.1, position.2.1) rows =
        (((run applyFill position fills).1 : ℚ), (run applyFill position fills).2.1) ∧
      position.2.2 + ((replayTrades true (position.1, position.2.1) rows).map Prod.snd).sum =
        (run applyFill position fills).2.2 := by
  induction h generalizing position with
  | nil => simp [replayPosition, replayTrades]
  | @cons t fill rows fills hrecords _ ih =>
      obtain ⟨hqty, havg, hrealized⟩ := calculatePositionUpdate_eq_decimal position.1 position.2.1
        position.2.2 fill.fillQty fill.fillPrice fill.side
      obtain ⟨hposition, hsum⟩ := ih (applyFill position fill)
      rw [replayPosition, if_neg (not_skipped t), replayTrades, if_neg (not_skipped t),
        hrecords.qty, hrecords.price, hrecords.side]
      simp only [applyFill] at hposition hsum ⊢
      rw [hqty, havg] at hposition hsum
      refine ⟨hposition, ?_⟩
      rw [hrealized] at hsum
      simp only [Bool.true_or, if_true, List.map_cons, List.sum_cons, ← add_assoc]
      exact hsum

/-! ## A second pass -/

/-- A new profit for a trade, if there is one. -/
def Trade.withProfit (updates : List (String × ℚ)) (t : Trade) : Trade :=
  { t with realizedPnl := (updates.lookup t.tradeId).getD t.realizedPnl }

theorem replayTrades_withProfit (updates : List (String × ℚ)) (updateAll : Bool)
    (position : ℚ × ℚ) (rows : List Trade) :
    replayTrades updateAll position (rows.map (Trade.withProfit updates)) =
      replayTrades updateAll position rows := by
  induction rows generalizing position with
  | nil => rfl
  | cons t rows ih =>
      rw [List.map_cons, replayTrades, replayTrades]
      simp only [ih]
      rfl

theorem withProfit_withProfit (updates : List (String × ℚ)) (t : Trade) :
    (t.withProfit updates).withProfit updates = t.withProfit updates := by
  unfold Trade.withProfit
  cases updates.lookup t.tradeId <;> rfl

/-- The trades of the symbol, in the order of the loop. -/
def tradesOf (db : Database) (strategyId symbol : String) : List Trade :=
  (db.trades.select fun t =>
    t.strategyId = strategyId && t.symbol = symbol && !t.superseded).insertionSort
      fun t u => t.before u

theorem recalculate_rows (db : Database) (strategyId symbol : String) (updateAll : Bool) :
    (recalculateTradeRealizedPnl db strategyId symbol updateAll).1.trades.rows =
      db.trades.rows.map (Trade.withProfit
        (replayTrades updateAll (0, 0) (tradesOf db strategyId symbol))) := rfl

theorem tradesOf_recalculate (db : Database) (strategyId symbol : String) (updateAll : Bool) :
    tradesOf (recalculateTradeRealizedPnl db strategyId symbol updateAll).1 strategyId symbol =
      (tradesOf db strategyId symbol).map (Trade.withProfit
        (replayTrades updateAll (0, 0) (tradesOf db strategyId symbol))) := by
  rw [tradesOf, Table.select, recalculate_rows, List.filter_map]
  exact (List.map_insertionSort (fun t u : Trade => t.before u = true)
    (fun t u : Trade => t.before u = true)
    (Trade.withProfit (replayTrades updateAll (0, 0) (tradesOf db strategyId symbol))) _
    fun _ _ _ _ => Iff.rfl).symm

/-- A second recalculation finds every profit as the first one left it. -/
theorem recalculate_twice (db : Database) (strategyId symbol : String) (updateAll : Bool) :
    (recalculateTradeRealizedPnl (recalculateTradeRealizedPnl db strategyId symbol updateAll).1
      strategyId symbol updateAll).1.trades.rows =
      (recalculateTradeRealizedPnl db strategyId symbol updateAll).1.trades.rows := by
  rw [recalculate_rows, tradesOf_recalculate, replayTrades_withProfit, recalculate_rows,
    List.map_map]
  apply List.map_congr_left
  intro t _
  exact withProfit_withProfit _ t

/-- Forty-one shares bought at 99, and ninety-one sold at 119. -/
def flipFills : List PricedFill :=
  [⟨41, 99, .buy, by decide, by norm_num⟩, ⟨91, 119, .sell, by decide, by norm_num⟩]

def flipTrade (tradeId : String) (side : Side) (qty price : Decimal) (qty_pos : 0 < qty)
    (price_pos : 0 < price) : Trade :=
  ⟨tradeId, "o-" ++ tradeId, none, "alpha", "AAPL", side, qty, price, 0, 0, none, false, false,
    qty_pos, price_pos⟩

def flipTrades : List Trade :=
  [flipTrade "1" .buy 41 99 (by decide) (by decide),
    flipTrade "2" .sell 91 119 (by decide) (by decide)]

end TradingPlatform.Gateway
