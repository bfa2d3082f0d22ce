import TradingPlatform.Gateway.Fills
import TradingPlatform.Gateway.OrderWrites
import TradingPlatform.Gateway.Positions

/-! # Order webhooks and cancellation

The two routes that change an order after it was submitted. A webhook with fill
information runs in one transaction: it moves the position by the whole shares
that the order row does not count yet, appends the fill and only then asks for
the conflict-resolving update. Every other webhook asks for the update alone.

A payload is modelled after authentication and the parsing of its numbers and
instants; a field that is absent, empty or does not parse is `none`.
-/

namespace TradingPlatform.Gateway

open Base

/-! ## Payloads -/

inductive EventType where
  | fill | partialFill | other
  deriving DecidableEq, Repr

/-- The `order` object of a payload. A status outside the vocabulary is `none`. -/
structure OrderData where
  clientOrderId : Option String
  id : Option String
  status : Option OrderStatus
  filledQty : Option Decimal
  filledAvgPrice : Option Price
  updatedAt : Option Timestamp
  filledAt : Option Timestamp
  createdAt : Option Timestamp

structure OrderEvent where
  event : EventType
  order : OrderData
  price : Option Decimal
  timestamp : Option Timestamp
  filledAt : Option Timestamp
  executionId : Option String

/-- The first candidate that parsed. -/
def parseWebhookTimestamp (candidates : List (Option Timestamp)) (default : Timestamp) :
    Timestamp :=
  (candidates.findSome? id).getD default

/-- Quantity and average price of an event that takes the fill path. -/
def OrderEvent.fillInfo? (e : OrderEvent) : Option (Decimal × Price) :=
  match e.event, e.order.filledQty, e.order.filledAvgPrice with
  | .fill, some qty, some avgPrice => some (qty, avgPrice)
  | .partialFill, some qty, some avgPrice => some (qty, avgPrice)
  | _, _, _ => none

/-- The cumulative quantity an event reports, zero when it reports none. -/
def OrderEvent.reportedQty (e : OrderEvent) : Decimal := e.order.filledQty.getD 0

def OrderEvent.statusTimestamp (e : OrderEvent) (now : Timestamp) : Timestamp :=
  parseWebhookTimestamp [e.order.updatedAt, e.timestamp, e.order.createdAt] now

def OrderEvent.fillTimestamp (e : OrderEvent) (now : Timestamp) : Timestamp :=
  parseWebhookTimestamp [e.timestamp, e.filledAt, e.order.filledAt] now

/-- The broker timestamp of an event, on the path that the event takes. -/
def OrderEvent.brokerUpdatedAt (e : OrderEvent) (now : Timestamp) : Timestamp :=
  if e.fillInfo?.isSome then
    parseWebhookTimestamp [e.order.updatedAt, e.timestamp, e.order.filledAt] (e.fillTimestamp now)
  else
    e.statusTimestamp now

/-- `status_rank_for(order_status or "")`. -/
def OrderEvent.statusRank (e : OrderEvent) : Int := e.order.status.elim 0 statusRankFor

/-- What the guard of the conflict-resolving update gets to see of an event. -/
def OrderEvent.key (e : OrderEvent) (now : Timestamp) : CasKey :=
  ⟨e.brokerUpdatedAt now, e.statusRank, e.reportedQty, sourcePriorityWebhook⟩

/-! ## The handler -/

inductive WebhookReply where
  | ok | missingClientOrderId | orderNotFound | orderReplaced
  deriving DecidableEq, Repr

/-- The update under the status that the event reports. A status outside the vocabulary gets
as far as the guard: where it passes, the row that comes back is no valid order. -/
def writeReportedStatus (db : Database) (clientOrderId : String) (e : OrderEvent)
    (now : Timestamp) (write : OrderStatus → Except WriteError (Database × Option OrderRow)) :
    Except WriteError (Database × Option OrderRow) :=
  match e.order.status with
  | some status => write status
  | none =>
      match db.orders.find? clientOrderId with
      | none => .ok (db, none)
      | some r => if casAccepts r (e.key now) then .error .validationError else .ok (db, none)

def statusUpdate (e : OrderEvent) (now : Timestamp) (status : OrderStatus) : CasUpdate where
  status := status
  brokerUpdatedAt := e.statusTimestamp now
  statusRank := statusRankFor status
  sourcePriority := sourcePriorityWebhook
  filledQty := some e.reportedQty
  filledAvgPrice := e.order.filledAvgPrice
  filledAt := none
  brokerOrderId := e.order.id
  brokerEventId := e.executionId
  errorMessage := none

def handleStatusEvent (db : Database) (clientOrderId : String) (e : OrderEvent)
    (now : Timestamp) : Except WriteError (Database × WebhookReply) := do
  if (getOrderByClientId db clientOrderId).any (·.status = .replaced) then
    return (db, .orderReplaced)
  let (db', updated) ← writeReportedStatus db clientOrderId e now fun status =>
    .ok (updateOrderStatusCas db clientOrderId (statusUpdate e now status) now)
  return (db', if updated.isSome then .ok else .orderNotFound)

def webhookFill (clientOrderId : String) (filledQty : Decimal) (incrementalFillQty : Int)
    (perFillPrice : Decimal) (realizedDelta : ℚ) (fillTimestamp : Timestamp) : FillRecord where
  fillId := clientOrderId ++ "_" ++ toString filledQty.trunc
  fillQty := .ofInt incrementalFillQty
  fillPrice := perFillPrice
  realizedPl := realizedDelta
  timestamp := some fillTimestamp
  synthetic := false
  superseded := false
  source := none
  feeCurrency := "USD"

/-- Moves the position and appends the fill; nothing without an increment of whole shares. -/
def bookFill (db : Database) (order : OrderRow) (e : OrderEvent) (filledQty : Decimal)
    (perFillPrice : Decimal) (now : Timestamp) : Except WriteError Database :=
  let incrementalFillQty := filledQty.trunc - order.filledQty.trunc
  if 0 < incrementalFillQty then
    let oldRealized := (getPositionForUpdate db order.symbol).elim 0 (·.realizedPl)
    match updatePositionOnFillWithConn db order.symbol incrementalFillQty perFillPrice.toRat
        order.side with
    | none => .error .checkViolation
    | some (db', position) =>
        .ok (appendFillToOrderMetadata db' order.clientOrderId
          (webhookFill order.clientOrderId filledQty incrementalFillQty perFillPrice
            (position.realizedPl - oldRealized) (e.fillTimestamp now)) now).1
  else
    .ok db

def fillUpdate (e : OrderEvent) (filledQty : Decimal) (filledAvgPrice : Price)
    (now : Timestamp) (status : OrderStatus) : ConnUpdate where
  status := status
  filledQty := some filledQty
  filledAvgPrice := filledAvgPrice
  filledAt := if status = .filled then some (e.fillTimestamp now) else none
  brokerOrderId := e.order.id
  brokerUpdatedAt := some (e.brokerUpdatedAt now)
  statusRank := some (statusRankFor status)
  sourcePriority := some sourcePriorityWebhook
  brokerEventId := e.executionId

def handleFillEvent (db : Database) (clientOrderId : String) (e : OrderEvent)
    (filledQty : Decimal) (filledAvgPrice : Price) (now : Timestamp) :
    Except WriteError (Database × WebhookReply) := do
  match db.orders.find? clientOrderId with
  | none => return (db, .orderNotFound)
  | some order =>
      if order.status = .replaced then
        return (db, .orderReplaced)
      let booked ← bookFill db order e filledQty (e.price.getD filledAvgPrice) now
      -- The result of the update is not looked at: a refused one keeps the booking.
      let (db', _) ← writeReportedStatus booked clientOrderId e now fun status =>
        updateOrderStatusWithConn booked clientOrderId
          (fillUpdate e filledQty filledAvgPrice now status) now
      return (db', .ok)

def handleOrderWebhook (db : Database) (e : OrderEvent) (now : Timestamp) :
    Except WriteError (Database × WebhookReply) :=
  match e.order.clientOrderId with
  | none => .ok (db, .missingClientOrderId)
  | some clientOrderId =>
      match e.fillInfo? with
      | none => handleStatusEvent db clientOrderId e now
      | some (filledQty, filledAvgPrice) =>
          handleFillEvent db clientOrderId e filledQty filledAvgPrice now

/-! ## Cancellation -/

inductive CancelReply where
  | orderNotFound
  | alreadyTerminal (status : OrderStatus)
  | brokerError
  | canceled (status : OrderStatus)
  deriving DecidableEq, Repr

def cancelUpdate (order : OrderRow) (now : Timestamp) : CasUpdate where
  status := .canceled
  brokerUpdatedAt := now
  statusRank := statusRankFor .canceled
  sourcePriority := sourcePriorityManual
  filledQty := some order.filledQty
  filledAvgPrice := order.filledAvgPrice
  filledAt := order.filledAt
  brokerOrderId := order.brokerOrderId
  brokerEventId := none
  errorMessage := none

/-- `brokerOk` is false when the broker call is impossible or raises. -/
def cancelOrder (db : Database) (clientOrderId : String) (brokerOk : Bool) (now : Timestamp) :
    Database × CancelReply :=
  match getOrderByClientId db clientOrderId with
  | none => (db, .orderNotFound)
  | some order =>
      if order.status.terminal then (db, .alreadyTerminal order.status)
      else if !brokerOk then (db, .brokerError)
      else
        let (db', updated) := updateOrderStatusCas db clientOrderId (cancelUpdate order now) now
        (db', .canceled (updated.elim .canceled (·.status)))

/-! ## What a webhook does -/

/-- The conflict-resolving update that a fill event asks for. -/
def fillCas (e : OrderEvent) (filledQty : Decimal) (filledAvgPrice : Price) (now : Timestamp)
    (status : OrderStatus) : CasUpdate where
  status := status
  brokerUpdatedAt := e.brokerUpdatedAt now
  statusRank := statusRankFor status
  sourcePriority := sourcePriorityWebhook
  filledQty := some filledQty
  filledAvgPrice := some filledAvgPrice
  filledAt := if status = .filled then some (e.fillTimestamp now) else none
  brokerOrderId := e.order.id
  brokerEventId := e.executionId
  errorMessage := none

theorem fillInfo?_reportedQty {e : OrderEvent} {filledQty : Decimal} {filledAvgPrice : Price}
    (h : e.fillInfo? = some (filledQty, filledAvgPrice)) : e.reportedQty = filledQty := by
  unfold OrderEvent.fillInfo? at h
  split at h
  · rename_i qty avgPrice _ hqty _
    cases h
    rw [OrderEvent.reportedQty, hqty, Option.getD_some]
  · rename_i qty avgPrice _ hqty _
    cases h
    rw [OrderEvent.reportedQty, hqty, Option.getD_some]
  · cases h

theorem statusUpdate_key {e : OrderEvent} (hinfo : e.fillInfo? = none) {status : OrderStatus}
    (hstatus : e.order.status = some status) (now : Timestamp) :
    (statusUpdate e now status).key = e.key now := by
  simp [CasUpdate.key, CasUpdate.newFilledQty, statusUpdate, OrderEvent.key,
    OrderEvent.brokerUpdatedAt, OrderEvent.statusRank, hinfo, hstatus]

theorem fillCas_key {e : OrderEvent} {filledQty : Decimal} {filledAvgPrice : Price}
    (hinfo : e.fillInfo? = some (filledQty, filledAvgPrice)) {status : OrderStatus}
    (hstatus : e.order.status = some status) (now : Timestamp) :
    (fillCas e filledQty filledAvgPrice now status).key = e.key now := by
  simp [CasUpdate.key, CasUpdate.newFilledQty, fillCas, OrderEvent.key,
    OrderEvent.statusRank, fillInfo?_reportedQty hinfo, hstatus]

/-- A status event leaves the database as it is or makes one conflict-resolving update. -/
theorem committed_statusEvent {db : Database} {cid : String} {e : OrderEvent} {now : Timestamp}
    {r : OrderRow} (hr : db.orders.find? cid = some r) :
    committed db (handleStatusEvent db cid e now) =
      if r.status = .replaced then db
      else
        match e.order.status with
        | none => db
        | some status => (updateOrderStatusCas db cid (statusUpdate e now status) now).1 := by
  unfold handleStatusEvent writeReportedStatus
  simp only [getOrderByClientId, hr, Option.any_some, decide_eq_true_eq]
  by_cases hreplaced : r.status = .replaced
  · rw [if_pos hreplaced, if_pos hreplaced]
    rfl
  · rw [if_neg hreplaced, if_neg hreplaced]
    cases e.order.status with
    | some status => rfl
    | none =>
        by_cases haccepts : casAccepts r (e.key now) = true
        · simp only [if_pos haccepts]
          rfl
        · simp only [if_neg haccepts]
          rfl

/-- Without fill information a webhook moves no position. -/
theorem statusWebhook_positions (db : Database) {e : OrderEvent} (hinfo : e.fillInfo? = none)
    (now : Timestamp) :
    (committed db (handleOrderWebhook db e now)).positions = db.positions := by
  unfold handleOrderWebhook
  cases hcid : e.order.clientOrderId with
  | none => rfl
  | some cid =>
      simp only [hinfo]
      cases hr : db.orders.find? cid with
      | some r =>
          rw [committed_statusEvent hr]
          split
          · rfl
          · split
            · rfl
            · exact (updateOrderStatusCas_frame db cid _ now).2.1
      | none =>
          cases hstatus : e.order.status <;>
            simp [handleStatusEvent, writeReportedStatus, getOrderByClientId, hr, hstatus,
              updateOrderStatusCas, committed, bind, Except.bind, pure, Except.pure]

theorem cancelOrder_positions (db : Database) (cid : String) (brokerOk : Bool)
    (now : Timestamp) : (cancelOrder db cid brokerOk now).1.positions = db.positions := by
  unfold cancelOrder
  split
  · rfl
  · split
    · rfl
    · split
      · rfl
      · exact (updateOrderStatusCas_frame db cid _ now).2.1

/-- Everything the booking of a fill can do. -/
theorem bookFill_cases (db : Database) (r : OrderRow) (e : OrderEvent) (qty price : Decimal)
    (now : Timestamp) :
    (qty.trunc ≤ r.filledQty.trunc ∧ bookFill db r e qty price now = .ok db) ∨
      (r.filledQty.trunc < qty.trunc ∧
        positionAfterFill db r.symbol (qty.trunc - r.filledQty.trunc) price.toRat r.side = none ∧
        bookFill db r e qty price now = .error .checkViolation) ∨
      ∃ moved position realizedDelta, r.filledQty.trunc < qty.trunc ∧
        updatePositionOnFillWithConn db r.symbol (qty.trunc - r.filledQty.trunc) price.toRat
          r.side = some (moved, position) ∧
        bookFill db r e qty price now = .ok (appendFillToOrderMetadata moved r.clientOrderId
          (webhookFill r.clientOrderId qty (qty.trunc - r.filledQty.trunc) price realizedDelta
            (e.fillTimestamp now)) now).1 := by
  unfold bookFill
  by_cases hincr : 0 < qty.trunc - r.filledQty.trunc
  · right
    have hlt : r.filledQty.trunc < qty.trunc := by omega
    simp only [if_pos hincr]
    cases hmoved : updatePositionOnFillWithConn db r.symbol (qty.trunc - r.filledQty.trunc)
        price.toRat r.side with
    | none =>
        left
        rw [updatePositionOnFillWithConn, Option.map_eq_none_iff] at hmoved
        exact ⟨hlt, hmoved, rfl⟩
    | some moved =>
        right
        exact ⟨moved.1, moved.2, _, hlt, rfl, rfl⟩
  · left
    rw [if_neg hincr]
    exact ⟨by omega, rfl⟩

/-- A fill event leaves the database as it is, or books and then updates. -/
theorem committed_fillEvent {db : Database} {cid : String} {e : OrderEvent} {qty : Decimal}
    {avgPrice : Price} {now : Timestamp} {r : OrderRow} (hr : db.orders.find? cid = some r) :
    committed db (handleFillEvent db cid e qty avgPrice now) =
      if r.status = .replaced then db
      else
        match bookFill db r e qty (e.price.getD avgPrice) now with
        | .error _ => db
        | .ok booked =>
            match e.order.status with
            | none =>
                if (booked.orders.find? cid).any (casAccepts · (e.key now)) then db else booked
            | some status =>
                (updateOrderStatusCas booked cid (fillCas e qty avgPrice now status) now).1 := by
  unfold handleFillEvent writeReportedStatus
  simp only [hr]
  by_cases hreplaced : r.status = .replaced
  · rw [if_pos hreplaced, if_pos hreplaced]
    rfl
  · rw [if_neg hreplaced, if_neg hreplaced]
    cases bookFill db r e qty (e.price.getD avgPrice) now with
    | error err => rfl
    | ok booked =>
        cases e.order.status with
        | some status => rfl
        | none =>
            simp only [bind, Except.bind]
            cases booked.orders.find? cid with
            | none => rfl
            | some r' =>
                by_cases haccepts : casAccepts r' (e.key now) = true
                · simp only [Option.any_some, haccepts]
                  rfl
                · simp only [Option.any_some, haccepts]
                  rfl

end TradingPlatform.Gateway
