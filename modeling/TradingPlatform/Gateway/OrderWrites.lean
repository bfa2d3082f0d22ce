import TradingPlatform.Gateway.Schema
import Mathlib.Data.List.Sort

/-! # Writers and readers of the orders table

Every method of the database client that changes a status, as a function on the
database. The conflict-resolving update is split into its guard `casAccepts`,
its assignment `casApply` and the row-level effect `casUpdate`; the methods look
the row up, run the statement and hand the new row back.

A statement that the server refuses changes nothing. The refusals a method
documents are modelled as errors; the remaining column constraints are not.
-/

namespace TradingPlatform.Gateway

open Base

inductive WriteError where
  /-- A row would break a check constraint. -/
  | checkViolation
  /-- `UniqueViolation` -/
  | uniqueViolation
  /-- A referenced order does not exist. -/
  | foreignKeyViolation
  /-- Placeholders and parameters of a statement differ in number. -/
  | programmingError
  /-- The returned row is no valid `OrderDetail`. -/
  | validationError
  deriving DecidableEq, Repr

/-- What a call leaves behind: an error rolls its transaction back. -/
def committed {β : Type} (db : Database) (outcome : Except WriteError (Database × β)) :
    Database :=
  match outcome with
  | .ok (db', _) => db'
  | .error _ => db

/-! ## Inserts -/

def insertOrder (db : Database) (row : OrderRow) : Except WriteError (Database × OrderRow) :=
  match db.orders.insert row with
  | some orders => .ok ({ db with orders }, row)
  | none => .error .uniqueViolation

theorem insertOrder_positions {db db' : Database} {row r : OrderRow}
    (h : insertOrder db row = .ok (db', r)) : db'.positions = db.positions := by
  unfold insertOrder at h
  cases hinsert : db.orders.insert row with
  | none =>
      rw [hinsert] at h
      cases h
  | some orders =>
      rw [hinsert] at h
      cases h
      rfl

def createOrder (db : Database) (clientOrderId strategyId : String) (request : OrderRequest)
    (status : OrderStatus) (brokerOrderId errorMessage : Option String) (now : Timestamp) :
    Except WriteError (Database × OrderRow) :=
  insertOrder db
    { OrderRow.defaults request clientOrderId strategyId status now with
      brokerOrderId
      errorMessage
      submittedAt := if status = .dryRun then none else some now }

/-- A database with one accepted order for ten shares, for concrete runs. -/
def acceptedOrder (clientOrderId : String) : Database :=
  committed .empty (createOrder .empty clientOrderId "alpha" tenShares
    .accepted (some "b-1") none 0)

def acceptedRow (clientOrderId : String) : OrderRow :=
  { OrderRow.defaults tenShares clientOrderId "alpha" .accepted 0 with
    brokerOrderId := some "b-1"
    submittedAt := some 0 }

/-- Placeholders in the `VALUES` list of the parent insert. -/
def parentInsertPlaceholders : Nat := 11

/-- Entries of the parameter tuple of the parent insert. -/
def parentInsertParameters : Nat := 12

/-- The parent insert names fifteen columns, but the value for one of them is missing from
its `VALUES` list, so the driver refuses the statement. -/
def createParentOrder (db : Database) (clientOrderId strategyId : String)
    (request : OrderRequest) (totalSlices : Nat) (status : OrderStatus) (metadata : Metadata)
    (now : Timestamp) : Except WriteError (Database × OrderRow) :=
  if parentInsertPlaceholders = parentInsertParameters then
    insertOrder db
      { OrderRow.defaults request clientOrderId strategyId status now with
        totalSlices := some totalSlices
        metadata }
  else
    .error .programmingError

def createChildSlice (db : Database) (clientOrderId parentOrderId : String) (sliceNum : Nat)
    (strategyId : String) (request : OrderRequest) (scheduledTime : Timestamp)
    (status : OrderStatus) (now : Timestamp) : Except WriteError (Database × OrderRow) :=
  if (db.orders.find? parentOrderId).isNone then
    .error .foreignKeyViolation
  else if db.orders.rows.any fun r =>
      r.parentOrderId = some parentOrderId && r.sliceNum = some sliceNum then
    .error .uniqueViolation
  else
    insertOrder db
      { OrderRow.defaults request clientOrderId strategyId status now with
        parentOrderId := some parentOrderId
        sliceNum := some sliceNum
        scheduledTime := some scheduledTime }

def insertReplacementOrder (db : Database) (clientOrderId replacedOrderId strategyId : String)
    (request : OrderRequest) (status : OrderStatus) (brokerOrderId : Option String)
    (now : Timestamp) : Except WriteError (Database × OrderRow) :=
  if (db.orders.find? replacedOrderId).isNone then
    .error .foreignKeyViolation
  else
    insertOrder db
      { OrderRow.defaults request clientOrderId strategyId status now with
        replacedOrderId := some replacedOrderId
        brokerOrderId
        submittedAt := some now }

/-! ## The conflict-resolving update -/

/-- What the guard of the update compares. -/
structure CasKey where
  brokerUpdatedAt : Timestamp
  statusRank : Int
  filledQty : Decimal
  sourcePriority : Int

structure CasUpdate where
  status : OrderStatus
  brokerUpdatedAt : Timestamp
  statusRank : Int
  sourcePriority : Int
  filledQty : Option Decimal
  filledAvgPrice : Option Price
  filledAt : Option Timestamp
  brokerOrderId : Option String
  brokerEventId : Option String
  errorMessage : Option String
  deriving DecidableEq

/-- `new_filled_qty`: a missing quantity counts as zero. -/
def CasUpdate.newFilledQty (u : CasUpdate) : Decimal := u.filledQty.getD 0

def CasUpdate.key (u : CasUpdate) : CasKey :=
  ⟨u.brokerUpdatedAt, u.statusRank, u.newFilledQty, u.sourcePriority⟩

/-- `is_terminal = FALSE OR status = 'filled'`. -/
def casUnlocked (r : OrderRow) : Bool := !r.isTerminal || r.status = .filled

/-- The five disjuncts that compare the row with the update. A comparison with a NULL rank is
not true. -/
def casNewer (r : OrderRow) (k : CasKey) : Bool :=
  match r.lastUpdatedAt with
  | none => true
  | some t =>
      t < k.brokerUpdatedAt ||
      (t = k.brokerUpdatedAt &&
        match r.statusRank with
        | none => false
        | some rank =>
            rank < k.statusRank ||
            (rank = k.statusRank &&
              (r.filledQty < k.filledQty ||
                (r.filledQty.sameValue k.filledQty && k.sourcePriority < r.sourcePriority))))

def casAccepts (r : OrderRow) (k : CasKey) : Bool := casUnlocked r && casNewer r k

def casApply (r : OrderRow) (u : CasUpdate) (now : Timestamp) : OrderRow :=
  { r with
    status := u.status
    lastUpdatedAt := some u.brokerUpdatedAt
    statusRank := some u.statusRank
    sourcePriority := u.sourcePriority
    brokerEventId := u.brokerEventId <|> r.brokerEventId
    brokerOrderId := u.brokerOrderId <|> r.brokerOrderId
    filledQty := .greatest r.filledQty u.newFilledQty
    filledAvgPrice := u.filledAvgPrice <|> r.filledAvgPrice
    filledAt := u.filledAt <|> r.filledAt
    errorMessage := u.errorMessage
    isTerminal := u.status.terminal
    updatedAt := now }

/-- The effect of the update on the row it addresses. -/
def casUpdate (r : OrderRow) (u : CasUpdate) (now : Timestamp) : OrderRow :=
  if casAccepts r u.key then casApply r u now else r

/-- Returns the new row, nothing when the order is missing or the guard fails. -/
def updateOrderStatusCas (db : Database) (clientOrderId : String) (u : CasUpdate)
    (now : Timestamp) : Database × Option OrderRow :=
  match db.orders.find? clientOrderId with
  | none => (db, none)
  | some r =>
      if casAccepts r u.key then
        (db.updateOrder clientOrderId (casApply · u now), some (casApply r u now))
      else
        (db, none)

/-! ## The unconditional updates -/

def updateOrderStatus (db : Database) (clientOrderId : String) (status : OrderStatus)
    (brokerOrderId : Option String) (filledQty : Option Decimal)
    (filledAvgPrice : Option Price) (errorMessage : Option String) (now : Timestamp) :
    Database × Option OrderRow :=
  let filledAt := if status = .filled ∧ filledQty.isSome then some now else none
  let db' := db.updateOrder clientOrderId fun r =>
    { r with
      status
      brokerOrderId := brokerOrderId <|> r.brokerOrderId
      filledQty := filledQty.getD r.filledQty
      filledAvgPrice := filledAvgPrice <|> r.filledAvgPrice
      errorMessage
      filledAt := filledAt <|> r.filledAt
      lastUpdatedAt := some now
      statusRank := some (statusRankFor status)
      isTerminal := status.terminal
      updatedAt := now }
  (db', db'.orders.find? clientOrderId)

/-- Arguments of the transactional update; the last four choose between its two branches. -/
structure ConnUpdate where
  status : OrderStatus
  filledQty : Option Decimal
  filledAvgPrice : Price
  filledAt : Option Timestamp
  brokerOrderId : Option String
  brokerUpdatedAt : Option Timestamp
  statusRank : Option Int
  sourcePriority : Option Int
  brokerEventId : Option String

/-- The conflict-resolving update that a call with all three ordering fields makes. -/
def ConnUpdate.cas? (u : ConnUpdate) : Option CasUpdate :=
  match u.brokerUpdatedAt, u.statusRank, u.sourcePriority with
  | some brokerUpdatedAt, some statusRank, some sourcePriority =>
      some
        { status := u.status
          brokerUpdatedAt
          statusRank
          sourcePriority
          filledQty := u.filledQty
          filledAvgPrice := some u.filledAvgPrice
          filledAt := u.filledAt
          brokerOrderId := u.brokerOrderId
          brokerEventId := u.brokerEventId
          errorMessage := none }
  | _, _, _ => none

/-- Without the ordering fields the status is overwritten and `is_terminal` is not; a NULL
quantity is stored and then rejected by the row model. -/
def updateOrderStatusWithConn (db : Database) (clientOrderId : String) (u : ConnUpdate)
    (now : Timestamp) : Except WriteError (Database × Option OrderRow) :=
  match u.cas? with
  | some cas => .ok (updateOrderStatusCas db clientOrderId cas now)
  | none =>
      match db.orders.find? clientOrderId, u.filledQty with
      | none, _ => .ok (db, none)
      | some _, none => .error .validationError
      | some _, some filledQty =>
          let db' := db.updateOrder clientOrderId fun r =>
            { r with
              status := u.status
              filledQty
              filledAvgPrice := some u.filledAvgPrice
              filledAt := u.filledAt <|> r.filledAt
              brokerOrderId := u.brokerOrderId <|> r.brokerOrderId
              updatedAt := now }
          .ok (db', db'.orders.find? clientOrderId)

def updateOrderStatusSimpleWithConn (db : Database) (clientOrderId : String)
    (status : OrderStatus) (now : Timestamp) : Database × Option OrderRow :=
  let db' := db.updateOrder clientOrderId fun r =>
    { r with
      status
      statusRank := some (statusRankFor status)
      isTerminal := status.terminal
      updatedAt := now }
  (db', db'.orders.find? clientOrderId)

/-- The slices a cancellation of the parent reaches. -/
def pendingSlice (parentOrderId : String) (r : OrderRow) : Bool :=
  r.parentOrderId = some parentOrderId && r.status = .pendingNew

/-- Sets the status and nothing derived from it; returns the number of rows. -/
def cancelPendingSlices (db : Database) (parentOrderId : String) (now : Timestamp) :
    Database × Nat :=
  ({ db with
      orders := db.orders.updateWhere (pendingSlice parentOrderId)
        (fun r => { r with status := .canceled, updatedAt := now }) (fun _ => rfl) },
    (db.orders.select (pendingSlice parentOrderId)).length)

def updateOrderScheduledTime (db : Database) (clientOrderId : String) (scheduledTime : Timestamp)
    (now : Timestamp) : Database × Option OrderRow :=
  let db' := db.updateOrder clientOrderId fun r =>
    { r with
      scheduledTime := some scheduledTime
      updatedAt := now }
  (db', db'.orders.find? clientOrderId)

/-! ## Readers -/

def getOrderByClientId (db : Database) (clientOrderId : String) : Option OrderRow :=
  db.orders.find? clientOrderId

/-- Rows with `is_terminal = FALSE`, created no later than the cutoff, oldest first. -/
def getNonTerminalOrders (db : Database) (createdBefore : Option Timestamp) : List OrderRow :=
  (db.orders.select fun r =>
    !r.isTerminal && createdBefore.all fun cutoff => r.createdAt ≤ cutoff).insertionSort
      fun a b => a.createdAt ≤ b.createdAt

/-- `ORDER BY slice_num`: a NULL comes last. -/
def sliceOrder (a b : OrderRow) : Bool :=
  match a.sliceNum, b.sliceNum with
  | some m, some n => m ≤ n
  | none, some _ => false
  | _, none => true

/-- `ORDER BY scheduled_time NULLS LAST, slice_num`. -/
def pendingOrder (a b : OrderRow) : Bool :=
  match a.scheduledTime, b.scheduledTime with
  | some t, some u => t < u || (t = u && sliceOrder a b)
  | some _, none => true
  | none, some _ => false
  | none, none => sliceOrder a b

def getPendingChildSlices (db : Database) : List OrderRow :=
  (db.orders.select fun r => r.parentOrderId.isSome && r.status = .pendingNew).insertionSort
    fun a b => pendingOrder a b

def getSlicesByParentId (db : Database) (parentOrderId : String) : List OrderRow :=
  (db.orders.select fun r => r.parentOrderId = some parentOrderId).insertionSort
    fun a b => sliceOrder a b

def countNonTerminalChildren (db : Database) (parentOrderId : String) : Nat :=
  (db.orders.select fun r => r.parentOrderId = some parentOrderId && !r.isTerminal).length

/-! ## What the conflict-resolving update does -/

theorem casAccepts_iff (r : OrderRow) (k : CasKey) :
    casAccepts r k = true ↔ casUnlocked r = true ∧ casNewer r k = true := by
  rw [casAccepts, Bool.and_eq_true]

theorem casUpdate_of_accepts {r : OrderRow} {u : CasUpdate} (h : casAccepts r u.key = true)
    (now : Timestamp) : casUpdate r u now = casApply r u now := if_pos h

theorem casUpdate_of_not_accepts {r : OrderRow} {u : CasUpdate}
    (h : ¬ casAccepts r u.key = true) (now : Timestamp) : casUpdate r u now = r := if_neg h

/-- The filled quantity never decreases. -/
theorem casUpdate_filledQty_mono (r : OrderRow) (u : CasUpdate) (now : Timestamp) :
    r.filledQty ≤ (casUpdate r u now).filledQty := by
  rw [Decimal.le_iff]
  by_cases h : casAccepts r u.key = true
  · rw [casUpdate_of_accepts h]
    simp [casApply]
  · rw [casUpdate_of_not_accepts h]

theorem updateOrderStatusCas_find? (db : Database) (cid : String) (u : CasUpdate)
    (now : Timestamp) : (updateOrderStatusCas db cid u now).1.orders.find? cid =
      (db.orders.find? cid).map (casUpdate · u now) := by
  unfold updateOrderStatusCas
  cases hr : db.orders.find? cid with
  | none => simpa using hr
  | some r =>
      by_cases h : casAccepts r u.key = true
      · simp only [if_pos h, Option.map_some, casUpdate_of_accepts h]
        rw [updateOrder_find?, hr]
        rfl
      · simp only [if_neg h, Option.map_some, casUpdate_of_not_accepts h]
        exact hr

/-- Frame: other orders, positions and trades are left alone. -/
theorem updateOrderStatusCas_frame (db : Database) (cid : String) (u : CasUpdate)
    (now : Timestamp) :
    (∀ cid' ≠ cid, (updateOrderStatusCas db cid u now).1.orders.find? cid' =
        db.orders.find? cid') ∧
      (updateOrderStatusCas db cid u now).1.positions = db.positions ∧
      (updateOrderStatusCas db cid u now).1.trades = db.trades := by
  unfold updateOrderStatusCas
  split
  · exact ⟨fun _ _ => rfl, rfl, rfl⟩
  · split
    · exact ⟨fun _ hne => updateOrder_find?_ne db cid _ hne, rfl, rfl⟩
    · exact ⟨fun _ _ => rfl, rfl, rfl⟩

end TradingPlatform.Gateway
