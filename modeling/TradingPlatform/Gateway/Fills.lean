import TradingPlatform.Base.Like
import TradingPlatform.Base.Text
import TradingPlatform.Gateway.Schema
import Mathlib.Algebra.BigOperators.Group.List.Basic

/-! # Appending a fill

One fill goes to two places: the `fills` list in the metadata of its order and
the `trades` table. A real fill makes the synthetic fills of its order obsolete
in both, by the `synthetic` entry in the metadata and by the `synthetic` column
or a pattern on the trade id in the table.
-/

namespace TradingPlatform.Gateway

open Base

/-! ## The metadata -/

def Metadata.hasFill (m : Metadata) (fillId : String) : Bool :=
  m.fills.any fun f => f.fillId = fillId

def FillRecord.supersedeSynthetic (f : FillRecord) : FillRecord :=
  if f.synthetic then { f with superseded := true } else f

/-- The list grows at the end, the total by the profit; a real fill then marks every
synthetic one as superseded. -/
def Metadata.appendFill (m : Metadata) (fill : FillRecord) : Metadata :=
  let fills := m.fills ++ [fill]
  { fills := if fill.synthetic then fills else fills.map FillRecord.supersedeSynthetic
    totalRealizedPl := m.totalRealizedPl + fill.realizedPl }

def OrderRow.withFill (r : OrderRow) (fill : FillRecord) (now : Timestamp) : OrderRow :=
  { r with
    metadata := r.metadata.appendFill fill
    updatedAt := now }

/-! ## The trades table -/

def tradeFromFill (order : OrderRow) (fill : FillRecord)
    (h : 0 < fill.fillQty ∧ 0 < fill.fillPrice) : Trade where
  tradeId := strip fill.fillId
  clientOrderId := order.clientOrderId
  brokerOrderId := order.brokerOrderId
  strategyId := order.strategyId
  symbol := order.symbol
  side := order.side
  qty := fill.fillQty
  price := fill.fillPrice
  executedAt := (fill.timestamp <|> order.filledAt).getD order.updatedAt
  realizedPnl := fill.realizedPl
  source := fill.source
  synthetic := fill.synthetic
  superseded := fill.superseded
  qty_pos := h.1
  price_pos := h.2

/-- The trade ids that the statement takes for those of synthetic fills. -/
def looksSynthetic (tradeId : String) : Bool :=
  sqlLike "%_recon_%" tradeId || sqlLike "%_recon_db_%" tradeId

/-- The underscores of the patterns are wildcards: any text with `recon` strictly inside it
matches. -/
theorem looksSynthetic_iff (tradeId : String) : looksSynthetic tradeId = true ↔
    ∃ pre before after post,
      tradeId.toList = pre ++ before :: ("recon".toList ++ after :: post) := by
  have hrecon : likeTokens "%_recon_%".toList =
      .anyText :: .anyChar :: (litTokens "recon".toList ++ [.anyChar, .anyText]) := by decide
  have hreconDb : likeTokens "%_recon_db_%".toList = .anyText :: .anyChar ::
      (litTokens "recon".toList ++ .anyChar :: [.lit 'd', .lit 'b', .anyChar, .anyText]) := by
    decide
  rw [looksSynthetic, sqlLike, sqlLike, Bool.or_eq_true, like_iff, like_iff, hrecon, hreconDb]
  constructor
  · intro h
    rcases h with h | h
    · exact like_word_between.mp h
    · exact word_of_like h
  · intro h
    exact Or.inl (like_word_between.mpr h)

/-- The trades of the order that a real fill supersedes. -/
def supersededByReal (clientOrderId : String) (t : Trade) : Bool :=
  t.clientOrderId = clientOrderId && !t.superseded && (t.synthetic || looksSynthetic t.tradeId)

/-- The update of the trades of an order on the arrival of a real fill. -/
def supersedeTrade (clientOrderId : String) (t : Trade) : Trade :=
  if supersededByReal clientOrderId t then { t with superseded := true } else t

/-- A blank id or a quantity or price that is not positive adds no trade; a trade id that is
taken leaves the row in place and is no error. -/
def insertTradeFromFill (trades : Table String Trade (·.tradeId)) (order : OrderRow)
    (fill : FillRecord) : Table String Trade (·.tradeId) :=
  if strip fill.fillId = "" then trades
  else if h : 0 < fill.fillQty ∧ 0 < fill.fillPrice then
    let inserted := (trades.insert (tradeFromFill order fill h)).getD trades
    if fill.synthetic then inserted
    else
      inserted.updateWhere (supersededByReal order.clientOrderId)
        (fun t => { t with superseded := true }) (fun _ => rfl)
  else trades

/-- The four outcomes: nothing, or one insert that may find its id taken, with the update of
the order's trades after a real fill. -/
theorem insertTradeFromFill_cases (trades : Table String Trade (·.tradeId)) (order : OrderRow)
    (fill : FillRecord) :
    insertTradeFromFill trades order fill = trades ∨
      ∃ h, strip fill.fillId ≠ "" ∧ (insertTradeFromFill trades order fill).rows =
        if fill.synthetic then ((trades.insert (tradeFromFill order fill h)).getD trades).rows
        else ((trades.insert (tradeFromFill order fill h)).getD trades).rows.map
          (supersedeTrade order.clientOrderId) := by
  unfold insertTradeFromFill
  by_cases hid : strip fill.fillId = ""
  · rw [if_pos hid]
    exact Or.inl rfl
  · rw [if_neg hid]
    by_cases h : 0 < fill.fillQty ∧ 0 < fill.fillPrice
    · rw [dif_pos h]
      refine Or.inr ⟨h, hid, ?_⟩
      cases hsynthetic : fill.synthetic <;> rfl
    · rw [dif_neg h]
      exact Or.inl rfl

theorem insertTradeFromFill_rows_of_fresh {trades : Table String Trade (·.tradeId)}
    (order : OrderRow) {fill : FillRecord} (hid : strip fill.fillId ≠ "")
    (h : 0 < fill.fillQty ∧ 0 < fill.fillPrice)
    (hfresh : strip fill.fillId ∉ trades.rows.map (·.tradeId)) :
    (insertTradeFromFill trades order fill).rows =
      if fill.synthetic then trades.rows ++ [tradeFromFill order fill h]
      else (trades.rows ++ [tradeFromFill order fill h]).map
        (supersedeTrade order.clientOrderId) := by
  cases hins : trades.insert (tradeFromFill order fill h) with
  | none => exact absurd (Table.insert_eq_none.mp hins) hfresh
  | some inserted =>
      have hrows := Table.insert_rows hins
      simp only [insertTradeFromFill, if_neg hid, dif_pos h, hins, Option.getD_some]
      split
      · exact hrows
      · rw [← hrows]
        rfl

theorem supersedeTrade_tradeId (clientOrderId : String) (t : Trade) :
    (supersedeTrade clientOrderId t).tradeId = t.tradeId := by
  unfold supersedeTrade
  split <;> rfl

/-- Whatever the fill, at most one row is added, under the stripped id. -/
theorem insertTradeFromFill_ids (trades : Table String Trade (·.tradeId)) (order : OrderRow)
    (fill : FillRecord) :
    (insertTradeFromFill trades order fill).rows.map (·.tradeId) = trades.rows.map (·.tradeId) ∨
      (insertTradeFromFill trades order fill).rows.map (·.tradeId) =
        trades.rows.map (·.tradeId) ++ [strip fill.fillId] := by
  rcases insertTradeFromFill_cases trades order fill with hsame | ⟨h, -, hrows⟩
  · rw [hsame]
    exact Or.inl rfl
  · have hids : (insertTradeFromFill trades order fill).rows.map (·.tradeId) =
        ((trades.insert (tradeFromFill order fill h)).getD trades).rows.map (·.tradeId) := by
      rw [hrows]
      split
      · rfl
      · rw [List.map_map]
        apply List.map_congr_left
        intro t _
        exact supersedeTrade_tradeId order.clientOrderId t
    rw [hids]
    cases hins : trades.insert (tradeFromFill order fill h) with
    | none => exact Or.inl rfl
    | some inserted =>
        right
        rw [Option.getD_some, Table.insert_rows hins, List.map_append]
        rfl

/-! ## The append -/

/-- The order takes a fill once, and no fill without an id. -/
def acceptsFill (r : OrderRow) (fill : FillRecord) : Bool :=
  fill.fillId ≠ "" && !r.metadata.hasFill fill.fillId

def appendFillToOrderMetadata (db : Database) (clientOrderId : String) (fill : FillRecord)
    (now : Timestamp) : Database × Option OrderRow :=
  if fill.fillId = "" then (db, none)
  else
    match db.orders.find? clientOrderId with
    | none => (db, none)
    | some r =>
        if r.metadata.hasFill fill.fillId then (db, none)
        else
          ({ db.updateOrder clientOrderId (·.withFill fill now) with
              trades := insertTradeFromFill db.trades (r.withFill fill now) fill },
            some (r.withFill fill now))

/-- Everything an append can do. -/
theorem appendFill_cases (db : Database) (cid : String) (fill : FillRecord) (now : Timestamp) :
    (∃ r, db.orders.find? cid = some r ∧ acceptsFill r fill = true ∧
      appendFillToOrderMetadata db cid fill now =
        ({ db.updateOrder cid (·.withFill fill now) with
            trades := insertTradeFromFill db.trades (r.withFill fill now) fill },
          some (r.withFill fill now))) ∨
      ((∀ r, db.orders.find? cid = some r → acceptsFill r fill = false) ∧
        appendFillToOrderMetadata db cid fill now = (db, none)) := by
  unfold appendFillToOrderMetadata
  by_cases hid : fill.fillId = ""
  · right
    rw [if_pos hid]
    exact ⟨fun r _ => by simp [acceptsFill, hid], rfl⟩
  · rw [if_neg hid]
    cases hr : db.orders.find? cid with
    | none =>
        right
        refine ⟨?_, rfl⟩
        intro r h
        cases h
    | some r =>
        by_cases hdup : r.metadata.hasFill fill.fillId = true
        · right
          refine ⟨?_, if_pos hdup⟩
          intro r' hr'
          obtain rfl := Option.some.inj hr'
          simp [acceptsFill, hdup]
        · left
          refine ⟨r, rfl, ?_, if_neg hdup⟩
          simp [acceptsFill, hid, hdup]

/-- A rejected fill changes nothing. -/
theorem appendFill_of_not_accepts {db : Database} {cid : String} {r : OrderRow}
    (hr : db.orders.find? cid = some r) {fill : FillRecord}
    (hrejects : ¬ acceptsFill r fill = true) (now : Timestamp) :
    (appendFillToOrderMetadata db cid fill now).1 = db := by
  rcases appendFill_cases db cid fill now with ⟨r', hr', h, -⟩ | ⟨-, h⟩
  · rw [hr, Option.some.injEq] at hr'
    exact absurd (hr' ▸ h) hrejects
  · rw [h]

/-- The effect on the row of the order. -/
theorem appendFill_find? (db : Database) (cid : String) (fill : FillRecord) (now : Timestamp) :
    (appendFillToOrderMetadata db cid fill now).1.orders.find? cid =
      (db.orders.find? cid).map fun r =>
        if acceptsFill r fill then r.withFill fill now else r := by
  rcases appendFill_cases db cid fill now with ⟨r, hr, haccepts, h⟩ | ⟨hrejects, h⟩
  · rw [h]
    simp only [updateOrder_find?, hr, Option.map_some, if_pos haccepts]
    rfl
  · rw [h]
    cases hr : db.orders.find? cid with
    | none => rfl
    | some r => simp [hrejects r hr]

/-- Frame: other orders, positions and the high-water marks are left alone. -/
theorem appendFill_frame (db : Database) (cid : String) (fill : FillRecord) (now : Timestamp) :
    (∀ cid' ≠ cid, (appendFillToOrderMetadata db cid fill now).1.orders.find? cid' =
        db.orders.find? cid') ∧
      (appendFillToOrderMetadata db cid fill now).1.positions = db.positions ∧
      (appendFillToOrderMetadata db cid fill now).1.highWaterMark = db.highWaterMark := by
  rcases appendFill_cases db cid fill now with ⟨r, -, -, h⟩ | ⟨-, h⟩
  · rw [h]
    exact ⟨fun _ hne => updateOrder_find?_ne db cid _ hne, rfl, rfl⟩
  · rw [h]
    exact ⟨fun _ _ => rfl, rfl, rfl⟩

/-! ## Active quantities -/

/-- What a list of fills still counts. -/
def activeQty (fills : List FillRecord) : ℚ :=
  ((fills.filter fun f => !f.superseded).map fun f => f.fillQty.toRat).sum

def Database.activeTrades (db : Database) (clientOrderId : String) : List Trade :=
  db.trades.select fun t => t.clientOrderId = clientOrderId && !t.superseded

def Database.activeTradeQty (db : Database) (clientOrderId : String) : ℚ :=
  ((db.activeTrades clientOrderId).map fun t => t.qty.toRat).sum

@[simp] theorem activeQty_nil : activeQty [] = 0 := rfl

@[simp] theorem activeQty_cons (f : FillRecord) (fills : List FillRecord) :
    activeQty (f :: fills) = (if f.superseded then 0 else f.fillQty.toRat) + activeQty fills := by
  cases h : f.superseded <;> simp [activeQty, h]

@[simp] theorem activeQty_append (fills more : List FillRecord) :
    activeQty (fills ++ more) = activeQty fills + activeQty more := by
  simp [activeQty]

/-! ## What an append adds to the trades -/

/-- The active quantity of an order in a list of trades. -/
def tradeQty (clientOrderId : String) (trades : List Trade) : ℚ :=
  ((trades.filter fun t => t.clientOrderId = clientOrderId && !t.superseded).map
    fun t => t.qty.toRat).sum

@[simp] theorem tradeQty_nil (cid : String) : tradeQty cid [] = 0 := rfl

@[simp] theorem tradeQty_cons (cid : String) (t : Trade) (trades : List Trade) :
    tradeQty cid (t :: trades) =
      (if t.clientOrderId = cid ∧ t.superseded = false then t.qty.toRat else 0) +
        tradeQty cid trades := by
  by_cases h : t.clientOrderId = cid ∧ t.superseded = false
  · simp [tradeQty, h]
  · rw [if_neg h, zero_add, tradeQty, List.filter_cons_of_neg (by simpa using h)]
    rfl

@[simp] theorem tradeQty_append (cid : String) (trades more : List Trade) :
    tradeQty cid (trades ++ more) = tradeQty cid trades + tradeQty cid more := by
  simp [tradeQty]

theorem activeTradeQty_eq (db : Database) (cid : String) :
    db.activeTradeQty cid = tradeQty cid db.trades.rows := rfl

/-- Superseding trades never adds to a total. -/
theorem tradeQty_supersede_le (cid cid' : String) (trades : List Trade) :
    tradeQty cid (trades.map (supersedeTrade cid')) ≤ tradeQty cid trades := by
  induction trades with
  | nil => exact le_refl _
  | cons t trades ih =>
      have hpos : 0 < t.qty.toRat := by
        have hqty := (Decimal.lt_iff _ _).mp t.qty_pos
        rwa [Decimal.toRat_zero] at hqty
      rw [List.map_cons, tradeQty_cons, tradeQty_cons]
      apply add_le_add _ ih
      unfold supersedeTrade
      split
      · rw [if_neg (by simp)]
        split
        · exact hpos.le
        · exact le_refl _
      · exact le_refl _

/-- An insert adds at most the quantity of the fill, and that to its own order only. -/
theorem tradeQty_insertTradeFromFill_le (trades : Table String Trade (·.tradeId))
    (order : OrderRow) (fill : FillRecord) (cid : String)
    (hqty : order.clientOrderId = cid → 0 ≤ fill.fillQty.toRat) :
    tradeQty cid (insertTradeFromFill trades order fill).rows ≤
      tradeQty cid trades.rows + if order.clientOrderId = cid then fill.fillQty.toRat else 0 := by
  have hnonneg : 0 ≤ if order.clientOrderId = cid then fill.fillQty.toRat else (0 : ℚ) := by
    split
    · rename_i horder
      exact hqty horder
    · exact le_refl _
  rcases insertTradeFromFill_cases trades order fill with hsame | ⟨h, -, hrows⟩
  · rw [hsame]
    linarith
  · have hinserted : tradeQty cid
        ((trades.insert (tradeFromFill order fill h)).getD trades).rows ≤
        tradeQty cid trades.rows +
          if order.clientOrderId = cid then fill.fillQty.toRat else 0 := by
      cases hins : trades.insert (tradeFromFill order fill h) with
      | none =>
          rw [Option.getD_none]
          linarith
      | some inserted =>
          rw [Option.getD_some, Table.insert_rows hins, tradeQty_append, tradeQty_cons,
            tradeQty_nil, add_zero]
          apply add_le_add (le_refl _)
          have hcid : (tradeFromFill order fill h).clientOrderId = order.clientOrderId := rfl
          have hq : (tradeFromFill order fill h).qty = fill.fillQty := rfl
          rw [hcid, hq]
          by_cases horder : order.clientOrderId = cid
          · rw [if_pos horder]
            split
            · exact le_refl _
            · exact hqty horder
          · rw [if_neg horder, if_neg fun hboth => horder hboth.1]
    rw [hrows]
    split
    · exact hinserted
    · exact le_trans (tradeQty_supersede_le cid _ _) hinserted

theorem activeTradeQty_append_le (db : Database) (cid cid' : String) (fill : FillRecord)
    (now : Timestamp) (hqty : cid' = cid → 0 ≤ fill.fillQty.toRat) :
    (appendFillToOrderMetadata db cid' fill now).1.activeTradeQty cid ≤
      db.activeTradeQty cid + if cid' = cid then fill.fillQty.toRat else 0 := by
  rcases appendFill_cases db cid' fill now with ⟨r, hr, -, h⟩ | ⟨-, h⟩
  · have hclient : r.clientOrderId = cid' := Table.find?_key hr
    rw [h, activeTradeQty_eq, activeTradeQty_eq, ← hclient]
    apply tradeQty_insertTradeFromFill_le
    intro hcid
    exact hqty (hclient ▸ hcid)
  · rw [h]
    have hnonneg : 0 ≤ if cid' = cid then fill.fillQty.toRat else (0 : ℚ) := by
      split
      · rename_i hcid
        exact hqty hcid
      · exact le_refl _
    linarith

end TradingPlatform.Gateway
