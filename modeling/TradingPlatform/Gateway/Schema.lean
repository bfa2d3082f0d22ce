import TradingPlatform.Base.Decimal
import TradingPlatform.Base.Table

/-! # Tables of the execution gateway

The rows of `orders`, `positions` and `trades` with the columns that the
gateway's writers touch, and the status vocabulary with its two derived
attributes. Instants are integers on one time line. Column defaults are those of
the migrations.
-/

namespace TradingPlatform.Gateway

open Base

abbrev Timestamp := Int

/-! ## Status vocabulary -/

inductive OrderStatus where
  | pendingNew | new | accepted | partiallyFilled | filled | canceled | rejected | expired
  | replaced | doneForDay | stopped | suspended | pendingCancel | pendingReplace | calculated
  | submitted | submittedUnconfirmed | dryRun | failed | scheduled
  | blockedKillSwitch | blockedCircuitBreaker
  deriving DecidableEq, Repr

def terminalStatuses : List OrderStatus :=
  [.filled, .canceled, .expired, .failed, .rejected, .replaced, .doneForDay,
    .blockedKillSwitch, .blockedCircuitBreaker]

/-- `status in TERMINAL_STATUSES`. -/
def OrderStatus.terminal (s : OrderStatus) : Bool := s ∈ terminalStatuses

/-- The table `_STATUS_RANKS`; a status it does not list has rank 0. -/
def statusRankFor : OrderStatus → Int
  | .pendingNew | .dryRun => 1
  | .submitted | .submittedUnconfirmed | .new | .accepted => 2
  | .pendingCancel | .pendingReplace | .calculated | .stopped | .suspended
  | .partiallyFilled => 3
  | .canceled | .expired | .failed | .rejected | .replaced | .doneForDay
  | .blockedKillSwitch | .blockedCircuitBreaker => 4
  | .filled => 5
  | .scheduled => 0

/-- Terminal statuses are the ones of the two highest ranks. -/
theorem terminal_iff_rank (s : OrderStatus) : s.terminal = true ↔ 4 ≤ statusRankFor s := by
  cases s <;> decide

/-- Source priorities: a lower number wins a tie. -/
def sourcePriorityManual : Int := 1
def sourcePriorityReconciliation : Int := 2
def sourcePriorityWebhook : Int := 3

/-! ## Orders -/

inductive Side where
  | buy | sell
  deriving DecidableEq, Repr

/-- The sign a fill of this side has in a position. -/
def Side.sign : Side → Int
  | .buy => 1
  | .sell => -1

inductive OrderType where
  | market | limit | stop | stopLimit
  deriving DecidableEq, Repr

inductive TimeInForce where
  | day | gtc | ioc | fok
  deriving DecidableEq, Repr

/-- A price column: NULL or positive. -/
abbrev Price := { d : Decimal // 0 < d }

structure OrderRequest where
  symbol : String
  side : Side
  qty : Int
  orderType : OrderType
  limitPrice : Option Price
  stopPrice : Option Price
  timeInForce : TimeInForce
  qty_pos : 0 < qty
  deriving DecidableEq

/-- The charset and length that a caller-supplied `client_order_id` must have. -/
def clientOrderIdPattern (s : String) : Bool :=
  let cs := s.toList
  1 ≤ cs.length && cs.length ≤ 24 && cs.all fun c => c.isAlphanum || c = '_' || c = '-'

/-- One entry of `metadata.fills`. -/
structure FillRecord where
  fillId : String
  fillQty : Decimal
  fillPrice : Decimal
  realizedPl : ℚ
  timestamp : Option Timestamp
  synthetic : Bool
  superseded : Bool
  source : Option String
  feeCurrency : String
  deriving DecidableEq

structure Metadata where
  fills : List FillRecord
  totalRealizedPl : ℚ
  deriving DecidableEq

structure OrderRow extends OrderRequest where
  clientOrderId : String
  strategyId : String
  status : OrderStatus
  brokerOrderId : Option String
  errorMessage : Option String
  createdAt : Timestamp
  updatedAt : Timestamp
  submittedAt : Option Timestamp
  filledAt : Option Timestamp
  filledQty : Decimal
  filledAvgPrice : Option Price
  metadata : Metadata
  parentOrderId : Option String
  sliceNum : Option Nat
  totalSlices : Option Nat
  scheduledTime : Option Timestamp
  replacedOrderId : Option String
  lastUpdatedAt : Option Timestamp
  isTerminal : Bool
  sourcePriority : Int
  statusRank : Option Int
  brokerEventId : Option String
  deriving DecidableEq

theorem OrderRow.zero_lt_qty (row : OrderRow) : 0 < row.qty := row.toOrderRequest.qty_pos

/-- A row as an INSERT leaves it that names none of the columns with a default. -/
def OrderRow.defaults (request : OrderRequest) (clientOrderId strategyId : String)
    (status : OrderStatus) (now : Timestamp) : OrderRow :=
  { request with
    clientOrderId, strategyId, status
    brokerOrderId := none
    errorMessage := none
    createdAt := now
    updatedAt := now
    submittedAt := none
    filledAt := none
    filledQty := 0
    filledAvgPrice := none
    metadata := ⟨[], 0⟩
    parentOrderId := none
    sliceNum := none
    totalSlices := none
    scheduledTime := none
    replacedOrderId := none
    lastUpdatedAt := none
    isTerminal := false
    sourcePriority := 2
    statusRank := none
    brokerEventId := none }

/-- A small market order, for concrete runs. -/
def sampleRequest (side : Side) (qty : Int) (qty_pos : 0 < qty) : OrderRequest :=
  ⟨"AAPL", side, qty, .market, none, none, .day, qty_pos⟩

def tenShares : OrderRequest := sampleRequest .buy 10 (by decide)

def samplePrice : Price := ⟨100, by decide⟩

/-! ## Positions and trades -/

/-- A position row; its last field is the table's check constraint, as are those of a trade. -/
structure Position where
  symbol : String
  qty : Int
  avgEntryPrice : ℚ
  realizedPl : ℚ
  avg_pos : 0 < avgEntryPrice ∨ qty = 0

structure Trade where
  tradeId : String
  clientOrderId : String
  brokerOrderId : Option String
  strategyId : String
  symbol : String
  side : Side
  qty : Decimal
  price : Decimal
  executedAt : Timestamp
  realizedPnl : ℚ
  source : Option String
  synthetic : Bool
  superseded : Bool
  qty_pos : 0 < qty
  price_pos : 0 < price
  deriving DecidableEq

structure Database where
  orders : Table String OrderRow (·.clientOrderId)
  positions : Table String Position (·.symbol)
  trades : Table String Trade (·.tradeId)
  highWaterMark : String → Option Timestamp

def Database.empty : Database := ⟨.empty, .empty, .empty, fun _ => none⟩

/-- No statement assigns the key column. -/
def OrderRow.keepingKey (f : OrderRow → OrderRow) (r : OrderRow) : OrderRow :=
  { f r with clientOrderId := r.clientOrderId }

theorem OrderRow.keepingKey_clientOrderId (f : OrderRow → OrderRow) (r : OrderRow) :
    (OrderRow.keepingKey f r).clientOrderId = r.clientOrderId := rfl

/-- Rewrite the row of one order. -/
def Database.updateOrder (db : Database) (clientOrderId : String) (f : OrderRow → OrderRow) :
    Database :=
  { db with
    orders := db.orders.update clientOrderId (.keepingKey f) (OrderRow.keepingKey_clientOrderId f) }

/-- The net quantity of a symbol; a symbol without a row is flat. -/
def Database.positionQty (db : Database) (symbol : String) : Int :=
  match db.positions.find? symbol with
  | some p => p.qty
  | none => 0

section UpdateOrder

variable (db : Database) (cid : String) (f : OrderRow → OrderRow)

@[simp] theorem updateOrder_find? : (db.updateOrder cid f).orders.find? cid =
    (db.orders.find? cid).map (.keepingKey f) :=
  Table.find?_update _ _ _ (OrderRow.keepingKey_clientOrderId f)

theorem updateOrder_find?_ne {cid' : String} (hne : cid' ≠ cid) :
    (db.updateOrder cid f).orders.find? cid' = db.orders.find? cid' :=
  Table.find?_update_ne _ _ (OrderRow.keepingKey_clientOrderId f) hne

end UpdateOrder

end TradingPlatform.Gateway
