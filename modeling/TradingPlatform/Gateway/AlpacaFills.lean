import TradingPlatform.Gateway.Fills
import TradingPlatform.Gateway.OrderWrites
import TradingPlatform.Gateway.Positions
import Mathlib.Data.List.Sort
import Mathlib.Data.Prod.Lex

/-! # Backfill from account activities

The second way fills come in: reconciliation pages through the executions that
the broker lists, matches them to orders by broker id, appends each one under
its activity id and rebuilds the realised profit of the trades concerned. The
broker's answer to one request is a parameter.
-/

namespace TradingPlatform.Gateway

open Base

/-- A FILL activity. -/
structure Activity where
  id : Option String
  orderId : Option String
  symbol : String
  side : String
  qty : Decimal
  price : Decimal
  transactionTime : Option Timestamp
  activityTime : Option Timestamp

/-- Answer to a request with bounds, page size and page token; `none` when it raises. -/
abbrev ActivityApi := Option Timestamp → Timestamp → Nat → Option String → Option (List Activity)

/-! ## Paging -/

/-- The token is the id of the last activity of the page before, which a page may repeat. -/
def newActivities (pageToken : Option String) (rawPage : List Activity) : List Activity :=
  match pageToken with
  | some lastActivityId => rawPage.filter fun item => item.id ≠ some lastActivityId
  | none => rawPage

theorem mem_newActivities {pageToken : Option String} {rawPage : List Activity} {a : Activity}
    (h : a ∈ newActivities pageToken rawPage) : a ∈ rawPage := by
  cases pageToken with
  | none => exact h
  | some last => exact List.mem_of_mem_filter h

/-- One more than a page when the first item of the answer is known already. -/
def requestSize (pageSize : Nat) (pageToken : Option String) : Nat :=
  pageSize + if pageToken.isSome then 1 else 0

def fetchActivities (api : ActivityApi) (after : Option Timestamp) (until_ : Timestamp)
    (pageSize : Nat) : Nat → Option String → Option (List Activity)
  | 0, _ => some []
  | pages + 1, pageToken => do
      let rawPage ← api after until_ (requestSize pageSize pageToken) pageToken
      let page := newActivities pageToken rawPage
      if rawPage.length < requestSize pageSize pageToken then return page
      match (rawPage.getLast?.bind (·.id)).filter (· ≠ "") with
      | none => return page
      | some lastId =>
          let rest ← fetchActivities api after until_ pageSize pages (some lastId)
          return page ++ rest

/-- Nothing is made up: every activity fetched was in an answer. -/
theorem mem_fetchActivities {api : ActivityApi} {after : Option Timestamp} {until_ : Timestamp}
    {pageSize pages : Nat} {pageToken : Option String} {fills : List Activity}
    (h : fetchActivities api after until_ pageSize pages pageToken = some fills) {a : Activity}
    (ha : a ∈ fills) : ∃ size token page, api after until_ size token = some page ∧ a ∈ page := by
  induction pages generalizing pageToken fills with
  | zero =>
      obtain rfl := Option.some.inj h
      cases ha
  | succ pages ih =>
      simp only [fetchActivities, Option.bind_eq_bind, Option.bind_eq_some_iff] at h
      obtain ⟨rawPage, hraw, h⟩ := h
      split at h
      · obtain rfl := Option.some.inj h
        exact ⟨_, _, rawPage, hraw, mem_newActivities ha⟩
      · split at h
        · obtain rfl := Option.some.inj h
          exact ⟨_, _, rawPage, hraw, mem_newActivities ha⟩
        · rw [Option.bind_eq_some_iff] at h
          obtain ⟨rest, hrest, h⟩ := h
          obtain rfl := Option.some.inj h
          rcases List.mem_append.mp ha with hfirst | hlater
          · exact ⟨_, _, rawPage, hraw, mem_newActivities hfirst⟩
          · exact ih hrest hlater

/-! ## Matching -/

/-- The order of a broker id; the column is unique, and of several rows the last would win. -/
def orderByBrokerId (db : Database) (brokerId : String) : Option OrderRow :=
  (db.orders.select fun r => r.brokerOrderId = some brokerId).getLast?

def activityOrder (db : Database) (a : Activity) : Option OrderRow :=
  a.orderId.bind (orderByBrokerId db)

/-- The activity's own id, or one made from its fields when that is blank. -/
def activityFillId (generateFillId : Activity → String) (a : Activity) : String :=
  let fillId := strip (a.id.getD "")
  if fillId = "" then generateFillId a else fillId

def activityFill (generateFillId : Activity → String) (a : Activity) : FillRecord where
  fillId := activityFillId generateFillId a
  fillQty := a.qty
  fillPrice := a.price
  realizedPl := 0
  timestamp := a.transactionTime <|> a.activityTime
  synthetic := false
  superseded := false
  source := some "alpaca_activity"
  feeCurrency := "USD"

/-- `fills_by_client`, read in its insertion order. -/
def groupByClient {β : Type} (items : List (String × β)) : List (String × β) :=
  (items.map (·.1)).eraseDups.flatMap fun client => items.filter fun item => item.1 = client

theorem mem_groupByClient {β : Type} {items : List (String × β)} {item : String × β} :
    item ∈ groupByClient items ↔ item ∈ items := by
  rw [groupByClient, List.mem_flatMap]
  constructor
  · rintro ⟨client, -, hitem⟩
    exact List.mem_of_mem_filter hitem
  · intro h
    have hclient : item.1 ∈ (items.map (·.1)).eraseDups :=
      List.mem_eraseDups.mpr (List.mem_map_of_mem h)
    exact ⟨item.1, hclient, List.mem_filter.mpr ⟨h, by simp⟩⟩

/-! ## Rebuilding the profit -/

def updateSources : List String :=
  ["alpaca_activity", "reconciliation_backfill", "reconciliation_db_backfill"]

/-- `ORDER BY executed_at ASC, trade_id ASC`. -/
def Trade.before (t u : Trade) : Bool :=
  t.executedAt < u.executedAt || (t.executedAt = u.executedAt && t.tradeId ≤ u.tradeId)

/-- Replays the trades over a flat position; the profit of each trade to rewrite. -/
def replayTrades (updateAll : Bool) : ℚ × ℚ → List Trade → List (String × ℚ)
  | _, [] => []
  | (positionQty, avgPrice), t :: rest =>
      if t.qty ≤ 0 ∨ t.price ≤ 0 then replayTrades updateAll (positionQty, avgPrice) rest
      else
        let (newQty, newAvg, realizedDelta) :=
          calculatePositionUpdateDecimal positionQty avgPrice t.qty.toRat t.price.toRat t.side
        let shouldUpdate := updateAll || t.synthetic || t.source.any (· ∈ updateSources)
        let later := replayTrades updateAll (newQty, newAvg) rest
        if shouldUpdate then (t.tradeId, realizedDelta) :: later else later

def recalculateTradeRealizedPnl (db : Database) (strategyId symbol : String)
    (updateAll : Bool) : Database × Nat :=
  let rows := (db.trades.select fun t =>
    t.strategyId = strategyId && t.symbol = symbol && !t.superseded).insertionSort
      fun t u => t.before u
  let updates := replayTrades updateAll (0, 0) rows
  ({ db with
      trades := db.trades.updateWhere (fun _ => true)
        (fun t => { t with realizedPnl := (updates.lookup t.tradeId).getD t.realizedPnl })
        (fun _ => rfl) },
    updates.length)

/-! ## The backfill -/

structure BackfillConfig where
  lookback : Option Int
  recalcAllTrades : Bool
  enabled : Bool
  initialLookback : Int
  pageSize : Nat
  maxPages : Nat
  overlap : Int

inductive BackfillReply where
  | disabled
  | apiError
  | ok (fillsSeen fillsInserted unmatched pnlUpdates : Nat)
  deriving DecidableEq, Repr

/-- The lower bound of the requests. -/
def backfillAfter (config : BackfillConfig) (lastCheck : Option Timestamp) (now : Timestamp) :
    Timestamp :=
  match config.lookback, lastCheck with
  | some lookback, _ => now - lookback
  | none, some last => last - config.overlap
  | none, none => now - config.initialLookback

/-- What a run of the backfill fetches. -/
def fetched (db : Database) (api : ActivityApi) (config : BackfillConfig) (now : Timestamp) :
    List Activity :=
  (fetchActivities api (some (backfillAfter config (db.highWaterMark "alpaca_fills") now)) now
    config.pageSize config.maxPages none).getD []

/-- Appends one fill and counts it when the append returns an order. -/
def insertFill (now : Timestamp) (acc : Database × Nat) (item : String × FillRecord) :
    Database × Nat :=
  let (db', updated) := appendFillToOrderMetadata acc.1 item.1 item.2 now
  (db', acc.2 + updated.toList.length)

def matchedFills (generateFillId : Activity → String) (db : Database) (fills : List Activity) :
    List (String × FillRecord) :=
  fills.filterMap fun a =>
    (activityOrder db a).map fun order => (order.clientOrderId, activityFill generateFillId a)

def affectedPairs (db : Database) (fills : List Activity) : List (String × String) :=
  (fills.filterMap fun a => (activityOrder db a).map fun order =>
    (order.strategyId, order.symbol)).eraseDups

def recalculateAll (updateAll : Bool) (acc : Database × Nat) (pair : String × String) :
    Database × Nat :=
  let (db', updated) := recalculateTradeRealizedPnl acc.1 pair.1 pair.2 updateAll
  (db', acc.2 + updated)

def setReconciliationHighWaterMark (db : Database) (lastCheckTime : Timestamp)
    (name : String) : Database :=
  { db with
    highWaterMark := fun n => if n = name then some lastCheckTime else db.highWaterMark n }

def backfillAlpacaFills (generateFillId : Activity → String) (db : Database) (api : ActivityApi)
    (config : BackfillConfig) (now : Timestamp) : Database × BackfillReply :=
  if !config.enabled && config.lookback.isNone then (db, .disabled)
  else
    let after := backfillAfter config (db.highWaterMark "alpaca_fills") now
    match fetchActivities api (some after) now config.pageSize config.maxPages none with
    | none => (db, .apiError)
    | some [] => (setReconciliationHighWaterMark db now "alpaca_fills", .ok 0 0 0 0)
    | some fills =>
        let matched := matchedFills generateFillId db fills
        let (booked, inserted) := (groupByClient matched).foldl (insertFill now) (db, 0)
        let (rebuilt, pnlUpdates) :=
          (affectedPairs db fills).foldl (recalculateAll config.recalcAllTrades) (booked, 0)
        (setReconciliationHighWaterMark rebuilt now "alpaca_fills",
          .ok fills.length inserted (fills.length - matched.length) pnlUpdates)

/-- The fills that a run appends, in order. -/
def appendedFills (generateFillId : Activity → String) (db : Database) (api : ActivityApi)
    (config : BackfillConfig) (now : Timestamp) : List (String × FillRecord) :=
  groupByClient (matchedFills generateFillId db (fetched db api config now))

/-- A run that gets its answers: appends, rebuilt profits, and the mark at now. -/
theorem backfillAlpacaFills_db (generateFillId : Activity → String) {db : Database}
    {api : ActivityApi} {config : BackfillConfig} {now : Timestamp}
    (henabled : config.enabled = true) {fills : List Activity}
    (hfetch : fetchActivities api (some (backfillAfter config (db.highWaterMark "alpaca_fills")
      now)) now config.pageSize config.maxPages none = some fills) :
    (backfillAlpacaFills generateFillId db api config now).1 =
      setReconciliationHighWaterMark
        ((affectedPairs db fills).foldl (recalculateAll config.recalcAllTrades)
          (((appendedFills generateFillId db api config now).foldl (insertFill now) (db, 0)).1,
            0)).1 now "alpaca_fills" := by
  have hfetched : fetched db api config now = fills := by rw [fetched, hfetch]; rfl
  rw [appendedFills, hfetched, backfillAlpacaFills, if_neg (by simp [henabled])]
  simp only [hfetch]
  cases fills with
  | nil => rfl
  | cons a fills => rfl

/-! ## What a run leaves alone -/

theorem appendFill_brokerIds (db : Database) (clientOrderId : String) (fill : FillRecord)
    (now : Timestamp) :
    (appendFillToOrderMetadata db clientOrderId fill now).1.orders.rows.map (·.brokerOrderId) =
      db.orders.rows.map (·.brokerOrderId) := by
  rcases appendFill_cases db clientOrderId fill now with ⟨r, -, -, h⟩ | ⟨-, h⟩
  · rw [h]
    exact Table.map_key_update _ _ fun _ => rfl
  · rw [h]

theorem foldl_insertFill_brokerIds (now : Timestamp) (items : List (String × FillRecord))
    (acc : Database × Nat) :
    (items.foldl (insertFill now) acc).1.orders.rows.map (·.brokerOrderId) =
      acc.1.orders.rows.map (·.brokerOrderId) := by
  induction items generalizing acc with
  | nil => rfl
  | cons item items ih =>
      rw [List.foldl_cons, ih]
      exact appendFill_brokerIds acc.1 item.1 item.2 now

theorem foldl_recalculateAll_orders (updateAll : Bool) (pairs : List (String × String))
    (acc : Database × Nat) : (pairs.foldl (recalculateAll updateAll) acc).1.orders =
      acc.1.orders := by
  induction pairs generalizing acc with
  | nil => rfl
  | cons pair pairs ih =>
      rw [List.foldl_cons, ih]
      rfl

theorem orderByBrokerId_isSome {db : Database} {brokerId : String} :
    (orderByBrokerId db brokerId).isSome ↔
      some brokerId ∈ db.orders.rows.map (·.brokerOrderId) := by
  rw [orderByBrokerId, Table.select, Option.isSome_iff_ne_none, ne_eq, List.getLast?_eq_none_iff,
    List.filter_eq_nil_iff]
  simp

/-- No order appears, vanishes or changes its broker id. -/
theorem orderByBrokerId_backfill (generateFillId : Activity → String) {db : Database}
    {api : ActivityApi} {config : BackfillConfig} {now : Timestamp}
    (henabled : config.enabled = true) {fills : List Activity}
    (hfetch : fetchActivities api (some (backfillAfter config (db.highWaterMark "alpaca_fills")
      now)) now config.pageSize config.maxPages none = some fills) (brokerId : String) :
    (orderByBrokerId (backfillAlpacaFills generateFillId db api config now).1 brokerId).isSome ↔
      (orderByBrokerId db brokerId).isSome := by
  rw [orderByBrokerId_isSome, orderByBrokerId_isSome,
    backfillAlpacaFills_db generateFillId henabled hfetch, setReconciliationHighWaterMark,
    foldl_recalculateAll_orders, foldl_insertFill_brokerIds]

end TradingPlatform.Gateway
