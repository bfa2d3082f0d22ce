import TradingPlatform.Gateway.Fills

/-! # Synthetic fills

Reconciliation closes the gap between the filled quantity that the broker
reports and the fills an order lists by one synthetic fill. Its id names the
reported quantity and the gap.
-/

namespace TradingPlatform.Gateway

open Base

/-! ## The gap -/

/-- Real and synthetic quantity of the fills that are not superseded. -/
def countFill (totals : Decimal × Decimal) (fill : FillRecord) : Decimal × Decimal :=
  if fill.superseded then totals
  else if fill.synthetic then (totals.1, totals.2 + fill.fillQty)
  else (totals.1 + fill.fillQty, totals.2)

def fillTotals (fills : List FillRecord) : Decimal × Decimal := fills.foldl countFill (0, 0)

def missingQty (filledQty : Decimal) (fills : List FillRecord) : Decimal :=
  filledQty - (fillTotals fills).1 - (fillTotals fills).2

/-- `str(d).replace(".", "_")`. -/
def fillIdPart (d : Decimal) : String :=
  String.ofList (d.str.toList.map fun c => if c = '.' then '_' else c)

def syntheticFillId (clientOrderId source : String) (filledQty missing : Decimal) : String :=
  clientOrderId ++ "_" ++ source ++ "_" ++ fillIdPart filledQty ++ "_" ++ fillIdPart missing

/-- Whole shares are stored as an integer, a fraction with all its digits. -/
def storedQty (missing : Decimal) : Decimal :=
  if missing.isIntegral then .ofInt missing.trunc else missing

def calculateSyntheticFill (clientOrderId : String) (filledQty filledAvgPrice : Decimal)
    (timestamp : Timestamp) (existingFills : List FillRecord) (source : String) :
    Option FillRecord :=
  let missing := missingQty filledQty existingFills
  if filledQty ≤ (fillTotals existingFills).1 then none
  else if missing ≤ 0 then none
  else
    some
      { fillId := syntheticFillId clientOrderId source filledQty missing
        fillQty := storedQty missing
        fillPrice := filledAvgPrice
        realizedPl := 0
        timestamp := some timestamp
        synthetic := true
        superseded := false
        source := some source
        feeCurrency := "USD" }

/-! ## The two backfills -/

/-- What the broker reports of an order. -/
structure BrokerFills where
  filledQty : Option Decimal
  filledAvgPrice : Option Decimal
  updatedAt : Option Timestamp
  createdAt : Option Timestamp

/-- Appends the synthetic fill under the name that is stored for its source, and reports one as
injected whatever the append returns. -/
def injectSyntheticFill (db : Database) (clientOrderId : String) (filledQty filledAvgPrice :
    Decimal) (timestamp : Timestamp) (existingFills : List FillRecord)
    (source storedSource : String) (now : Timestamp) : Database × Bool :=
  match calculateSyntheticFill clientOrderId filledQty filledAvgPrice timestamp existingFills
      source with
  | none => (db, false)
  | some fill =>
      ((appendFillToOrderMetadata db clientOrderId { fill with source := some storedSource } now).1,
        true)

def backfillFillMetadata (db : Database) (clientOrderId : String) (brokerOrder : BrokerFills)
    (updatedAt : Option Timestamp) (cachedOrder : Option OrderRow) (now : Timestamp) :
    Database × Bool :=
  let timestamp := (updatedAt <|> brokerOrder.updatedAt <|> brokerOrder.createdAt).getD now
  match brokerOrder.filledAvgPrice with
  | none => (db, false)
  | some filledAvgPrice =>
      match cachedOrder <|> db.orders.find? clientOrderId with
      | none => (db, false)
      | some order =>
          injectSyntheticFill db clientOrderId (brokerOrder.filledQty.getD 0) filledAvgPrice
            timestamp order.metadata.fills "recon" "reconciliation_backfill" now

def backfillFillMetadataFromOrder (db : Database) (order : OrderRow) (now : Timestamp) :
    Database × Bool :=
  match order.filledAvgPrice with
  | none => (db, false)
  | some filledAvgPrice =>
      match db.orders.find? order.clientOrderId with
      | none => (db, false)
      | some locked =>
          injectSyntheticFill db order.clientOrderId order.filledQty filledAvgPrice
            (order.filledAt.getD order.updatedAt) locked.metadata.fills "recon_db"
            "reconciliation_db_backfill" now

/-! ## Values -/

def realQty (fills : List FillRecord) : ℚ :=
  ((fills.filter fun f => !f.superseded && !f.synthetic).map fun f => f.fillQty.toRat).sum

def syntheticQty (fills : List FillRecord) : ℚ :=
  ((fills.filter fun f => !f.superseded && f.synthetic).map fun f => f.fillQty.toRat).sum

theorem foldl_countFill (fills : List FillRecord) (totals : Decimal × Decimal) :
    (fills.foldl countFill totals).1.toRat = totals.1.toRat + realQty fills ∧
      (fills.foldl countFill totals).2.toRat = totals.2.toRat + syntheticQty fills := by
  induction fills generalizing totals with
  | nil => simp [realQty, syntheticQty]
  | cons f fills ih =>
      rw [List.foldl_cons, (ih _).1, (ih _).2, countFill]
      cases hsup : f.superseded <;> cases hsyn : f.synthetic <;>
        simp [realQty, syntheticQty, hsup, hsyn, add_assoc]

theorem fillTotals_real (fills : List FillRecord) :
    (fillTotals fills).1.toRat = realQty fills := by
  rw [fillTotals, (foldl_countFill fills (0, 0)).1, Decimal.toRat_zero, zero_add]

theorem fillTotals_synthetic (fills : List FillRecord) :
    (fillTotals fills).2.toRat = syntheticQty fills := by
  rw [fillTotals, (foldl_countFill fills (0, 0)).2, Decimal.toRat_zero, zero_add]

theorem activeQty_split (fills : List FillRecord) :
    activeQty fills = realQty fills + syntheticQty fills := by
  induction fills with
  | nil => simp [realQty, syntheticQty]
  | cons f fills ih =>
      rw [activeQty_cons, ih]
      cases hsup : f.superseded <;> cases hsyn : f.synthetic <;>
        simp [realQty, syntheticQty, hsup, hsyn] <;> ring

theorem missingQty_toRat (filledQty : Decimal) (fills : List FillRecord) :
    (missingQty filledQty fills).toRat = filledQty.toRat - activeQty fills := by
  rw [missingQty, Decimal.toRat_sub, Decimal.toRat_sub, fillTotals_real, fillTotals_synthetic,
    activeQty_split]
  ring

theorem storedQty_toRat (missing : Decimal) : (storedQty missing).toRat = missing.toRat := by
  unfold storedQty
  split
  · rename_i h
    exact Decimal.toRat_trunc h
  · rfl

/-- A synthetic fill is exactly the gap, and there is one exactly when the reported quantity
exceeds the real fills and all the active ones. -/
theorem calculateSyntheticFill_eq_some {cid source : String} {filledQty price : Decimal}
    {timestamp : Timestamp} {fills : List FillRecord} {fill : FillRecord}
    (h : calculateSyntheticFill cid filledQty price timestamp fills source = some fill) :
    activeQty fills < filledQty.toRat ∧ fill.synthetic = true ∧ fill.superseded = false ∧
      fill.fillQty.toRat = filledQty.toRat - activeQty fills ∧
      fill.fillId = syntheticFillId cid source filledQty (missingQty filledQty fills) := by
  simp only [calculateSyntheticFill] at h
  split_ifs at h with hreal hmissing
  obtain rfl := Option.some.inj h
  refine ⟨?_, rfl, rfl, ?_, rfl⟩
  · rw [Decimal.le_iff, missingQty_toRat, Decimal.toRat_zero, not_le] at hmissing
    linarith
  · rw [storedQty_toRat, missingQty_toRat]

theorem calculateSyntheticFill_eq_none (cid source : String) (filledQty price : Decimal)
    (timestamp : Timestamp) (fills : List FillRecord) :
    calculateSyntheticFill cid filledQty price timestamp fills source = none ↔
      filledQty.toRat ≤ realQty fills ∨ filledQty.toRat ≤ activeQty fills := by
  simp only [calculateSyntheticFill]
  split_ifs with hreal hmissing
  · rw [Decimal.le_iff, fillTotals_real] at hreal
    exact iff_of_true rfl (Or.inl hreal)
  · rw [Decimal.le_iff, missingQty_toRat, Decimal.toRat_zero] at hmissing
    exact iff_of_true rfl (Or.inr (by linarith))
  · rw [Decimal.le_iff, fillTotals_real, not_le] at hreal
    rw [Decimal.le_iff, missingQty_toRat, Decimal.toRat_zero, not_le] at hmissing
    refine iff_of_false (by simp) ?_
    rw [not_or, not_le, not_le]
    exact ⟨hreal, by linarith⟩

end TradingPlatform.Gateway
