import TradingPlatform.Gateway.OrderWrites
import TradingPlatform.Risk.PositionReservation

/-! # Submission of an order

The route from its reservation gate on; the gates before it reserve and write
nothing. A submission stops wherever it touches Redis, the database or the
broker, and `respond` is one segment of it: the phase says where the handler is,
the answer what it gets there.
-/

namespace TradingPlatform.Gateway

open Base Risk Risk.PositionReservation

structure SubmitConfig where
  strategyId : String
  dryRun : Bool
  alpaca : Bool
  maxPositionSize : ℤ
  reservation : PositionReservation

/-! ## Where a submission is -/

inductive SubmitReply where
  | positionLimitExceeded (message : String) (maxPositionSize : ℤ)
  | idempotencyCheckFailed
  | clientOrderIdTaken
  | alreadyExists (order : OrderRow) (message : String)
  | fatFingerRejected
  | brokerNotInitialized
  | orderInvalid (detail : String)
  | brokerValidation (detail : String)
  | orderRejected (detail : String)
  | brokerUnreachable (detail : String)
  | unexpectedError
  | notFoundAfterInsertion
  | submitted (status : OrderStatus) (brokerOrderId : Option String) (message : String)
  /-- An exception that the route lets through. -/
  | unhandled
  deriving DecidableEq

/-- The terminal status a failed submission is given, with its error message and reply. -/
structure Rejection where
  status : OrderStatus
  errorMessage : Option String
  reply : SubmitReply
  deriving DecidableEq

/-- What is left to do once the reservation is released. -/
inductive AfterRelease where
  | reply (reply : SubmitReply)
  | readExisting
  | reject (rejection : Rejection)
  | readInserted
  deriving DecidableEq

inductive Phase where
  | reserved
  | idempotencyChecked
  | fatFingerChecked
  | inserted
  | accepted (brokerOrderId : Option String)
  | releasing (next : AfterRelease)
  | confirmed (brokerOrderId : Option String)
  | rejecting (rejection : Rejection)
  | readingExisting
  | readingInserted (brokerOrderId : Option String)
  | ended (reply : SubmitReply)
  /-- The process died under the handler. -/
  | crashed
  deriving DecidableEq

/-- The handler still has to settle its reservation. -/
def Phase.holding : Phase → Bool
  | .reserved | .idempotencyChecked | .fatFingerChecked | .inserted | .accepted _
  | .releasing _ => true
  | .confirmed _ | .rejecting _ | .readingExisting | .readingInserted _ | .ended _
  | .crashed => false

def Phase.finished : Phase → Bool
  | .ended _ | .crashed => true
  | _ => false

structure Submission where
  token : String
  clientOrderId : String
  order : OrderRequest
  phase : Phase
  deriving DecidableEq

def Submission.enter (sub : Submission) (phase : Phase) : Submission := { sub with phase }

theorem Submission.enter_token (sub : Submission) (phase : Phase) :
    (sub.enter phase).token = sub.token := rfl

def Submission.delta (sub : Submission) : ℤ := reservationDelta sub.order.side sub.order.qty

/-! ## What it is answered -/

inductive FatFingerOutcome where
  | passed | breached | raised
  deriving DecidableEq

inductive BrokerReply where
  | accepted (brokerOrderId : Option String)
  | valueError (e : String)
  | validationError (e : String)
  | rejectionError (e : String)
  | connectionError (e : String)
  | otherError
  deriving DecidableEq

/-- The flags say that a call raises before it has an effect. -/
inductive Answer where
  | lookup (raised : Bool)
  | fatFinger (outcome : FatFingerOutcome)
  | insert (raised : Bool)
  | broker (reply : BrokerReply)
  | release
  | confirm (raised : Bool)
  | write (raised : Bool)
  | read
  deriving DecidableEq

/-! ## One segment -/

def samePrice : Option Price → Option Price → Bool
  | none, none => true
  | some a, some b => a.1.sameValue b.1
  | _, _ => false

def idempotencyPayloadMatches (order : OrderRequest) (existing : OrderRow) (strategyId : String) :
    Bool :=
  order.symbol = existing.symbol && order.side = existing.side && order.qty = existing.qty &&
    order.orderType = existing.orderType && samePrice order.limitPrice existing.limitPrice &&
    samePrice order.stopPrice existing.stopPrice && order.timeInForce = existing.timeInForce &&
    strategyId = existing.strategyId

def existingReply (cfg : SubmitConfig) (order : OrderRequest) (existing : OrderRow)
    (message : String) : SubmitReply :=
  if idempotencyPayloadMatches order existing cfg.strategyId then .alreadyExists existing message
  else .clientOrderIdTaken

/-- The exception handlers around the broker call. -/
def afterBroker : BrokerReply → Phase
  | .accepted brokerOrderId => .accepted brokerOrderId
  | .valueError e =>
      .releasing (.reject ⟨.rejected, some ("Order validation failed: " ++ e),
        .orderInvalid ("Order validation failed: " ++ e)⟩)
  | .validationError e =>
      .releasing (.reject ⟨.rejected, none, .brokerValidation ("Order validation failed: " ++ e)⟩)
  | .rejectionError e =>
      .releasing (.reject ⟨.rejected, none, .orderRejected ("Order rejected by broker: " ++ e)⟩)
  | .connectionError e =>
      .releasing (.reject ⟨.failed, some ("Broker connection error: " ++ e),
        .brokerUnreachable ("Broker connection error: " ++ e)⟩)
  | .otherError => .releasing (.reply .unexpectedError)

def AfterRelease.phase : AfterRelease → Phase
  | .reply r => .ended r
  | .readExisting => .readingExisting
  | .reject rejection => .rejecting rejection
  | .readInserted => .readingInserted none

def Rejection.update (rejection : Rejection) (now : Timestamp) : CasUpdate where
  status := rejection.status
  brokerUpdatedAt := now
  statusRank := statusRankFor rejection.status
  sourcePriority := sourcePriorityManual
  filledQty := some 0
  filledAvgPrice := none
  filledAt := none
  brokerOrderId := none
  brokerEventId := none
  errorMessage := rejection.errorMessage

/-- What the insert leads to. -/
def insertSubmitted (cfg : SubmitConfig) (db : Database) (sub : Submission) (now : Timestamp) :
    Database × Phase :=
  match createOrder db sub.clientOrderId cfg.strategyId sub.order
      (if cfg.dryRun then .dryRun else .pendingNew) none none now with
  | .error .uniqueViolation => (db, .releasing .readExisting)
  | .error _ => (db, .releasing (.reply .unhandled))
  | .ok (db', _) =>
      (db', if cfg.dryRun then .releasing .readInserted
        else if cfg.alpaca then .inserted
        else .releasing (.reply .brokerNotInitialized))

/-- An answer that the phase does not wait for changes nothing. -/
def respond (cfg : SubmitConfig) (keys : SymbolKeys) (db : Database) (sub : Submission)
    (answer : Answer) (now : Timestamp) : SymbolKeys × Database × Phase :=
  match sub.phase, answer with
  | .reserved, .lookup true => (keys, db, .releasing (.reply .idempotencyCheckFailed))
  | .reserved, .lookup false =>
      match getOrderByClientId db sub.clientOrderId with
      | some existing =>
          (keys, db, .releasing (.reply
            (existingReply cfg sub.order existing "Order already exists (idempotent retry)")))
      | none => (keys, db, .idempotencyChecked)
  | .idempotencyChecked, .fatFinger .passed => (keys, db, .fatFingerChecked)
  | .idempotencyChecked, .fatFinger .breached =>
      (keys, db, .releasing (.reply .fatFingerRejected))
  -- No handler surrounds the fat-finger context: the reservation stays.
  | .idempotencyChecked, .fatFinger .raised => (keys, db, .ended .unhandled)
  | .fatFingerChecked, .insert true => (keys, db, .releasing (.reply .unhandled))
  | .fatFingerChecked, .insert false => (keys, insertSubmitted cfg db sub now)
  | .inserted, .broker reply => (keys, db, afterBroker reply)
  | .releasing next, .release => ((release keys sub.token).2, db, next.phase)
  | .accepted _, .confirm true => (keys, db, .ended .unexpectedError)
  | .accepted brokerOrderId, .confirm false =>
      ((confirm keys sub.token).2, db, .confirmed brokerOrderId)
  -- The update after acceptance is best effort.
  | .confirmed brokerOrderId, .write true => (keys, db, .readingInserted brokerOrderId)
  | .confirmed brokerOrderId, .write false =>
      (keys, (updateOrderStatus db sub.clientOrderId .pendingNew brokerOrderId none none none
        now).1, .readingInserted brokerOrderId)
  | .rejecting _, .write true => (keys, db, .ended .unhandled)
  | .rejecting rejection, .write false =>
      (keys, (updateOrderStatusCas db sub.clientOrderId (rejection.update now) now).1,
        .ended rejection.reply)
  | .readingExisting, .read =>
      (keys, db, .ended
        ((getOrderByClientId db sub.clientOrderId).elim .unhandled fun existing =>
          existingReply cfg sub.order existing "Order already exists (concurrent retry)"))
  | .readingInserted brokerOrderId, .read =>
      (keys, db, .ended
        ((getOrderByClientId db sub.clientOrderId).elim .notFoundAfterInsertion fun row =>
          .submitted row.status brokerOrderId
            (if cfg.dryRun then "Order logged (DRY_RUN mode)" else "Order submitted")))
  | phase, _ => (keys, db, phase)

/-- The reservation gate, with the position of the database as the fallback. -/
def reserveForOrder (cfg : SubmitConfig) (keys : SymbolKeys) (db : Database)
    (order : OrderRequest) (clientOrderId token : String) : SymbolKeys × Submission :=
  let (result, keys') := cfg.reservation.reserve keys token order.side order.qty
    cfg.maxPositionSize (db.positionQty order.symbol)
  (keys', ⟨token, clientOrderId, order,
    if result.success then .reserved
    else .ended (.positionLimitExceeded result.reason cfg.maxPositionSize)⟩)

/-- A refused order ends there; a granted one is in the aggregate and has a token. -/
theorem reserveForOrder_cases (cfg : SubmitConfig) (keys : SymbolKeys) (db : Database)
    (order : OrderRequest) (clientOrderId token : String) :
    (∃ reply, reserveForOrder cfg keys db order clientOrderId token =
      (keys, ⟨token, clientOrderId, order, .ended reply⟩)) ∨
    reserveForOrder cfg keys db order clientOrderId token =
      (⟨some (reservedPosition keys (db.positionQty order.symbol) +
          reservationDelta order.side order.qty),
        keys.tokens.upsert
          ⟨token, reservationDelta order.side order.qty, cfg.reservation.ttl⟩⟩,
        ⟨token, clientOrderId, order, .reserved⟩) := by
  unfold reserveForOrder
  rcases reserve_cases cfg.reservation keys token order.side order.qty cfg.maxPositionSize
    (db.positionQty order.symbol) with ⟨-, hfailed, hkeys⟩ | ⟨-, hok, hkeys⟩
  · left
    simp [hfailed, hkeys]
  · right
    simp [hok, hkeys]

end TradingPlatform.Gateway
