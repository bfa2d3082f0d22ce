import TradingPlatform.Base.Transaction
import TradingPlatform.Gateway.OrderWrites

/-! # Order modifications

The table of modifications and the three phases of a modification: the pending
record, the replacement at the broker, and the transaction that completes the
record, marks the original as replaced and inserts the replacement. A failure of
the third phase marks the record, if that still works.
-/

namespace TradingPlatform.Gateway

open Base

/-! ## Records -/

inductive ModificationStatus where
  | pending | completed | failed | submittedUnconfirmed
  deriving DecidableEq, Repr

/-- The new values of the fields that a modification changes. -/
structure Changes where
  qty : Option { n : Int // 0 < n }
  limitPrice : Option Price
  stopPrice : Option Price
  timeInForce : Option TimeInForce
  deriving DecidableEq

structure Modification where
  modificationId : String
  originalClientOrderId : String
  newClientOrderId : String
  originalBrokerOrderId : Option String
  newBrokerOrderId : Option String
  modificationSeq : Nat
  idempotencyKey : String
  status : ModificationStatus
  errorMessage : Option String
  modifiedAt : Timestamp
  modifiedBy : String
  reason : Option String
  changes : Changes
  deriving DecidableEq

/-- The last field is the foreign key. -/
structure Store where
  db : Database
  modifications : Table String Modification (·.modificationId)
  original_exists : ∀ m ∈ modifications.rows,
    (db.orders.find? m.originalClientOrderId).isSome

/-- No order disappears. -/
def KeepsOrders (db db' : Database) : Prop :=
  ∀ cid, (db.orders.find? cid).isSome → (db'.orders.find? cid).isSome

/-- Any change to the orders that deletes none. -/
def Store.withDb (s : Store) (db : Database) (keeps : KeepsOrders s.db db) : Store where
  db
  modifications := s.modifications
  original_exists m hm := keeps _ (s.original_exists m hm)

/-- No statement assigns the key columns. -/
def Modification.keepingKeys (f : Modification → Modification) (m : Modification) :
    Modification :=
  { f m with
    modificationId := m.modificationId
    originalClientOrderId := m.originalClientOrderId }

theorem Modification.keepingKeys_id (f : Modification → Modification) (m : Modification) :
    (Modification.keepingKeys f m).modificationId = m.modificationId := rfl

def Store.updateModification (s : Store) (modificationId : String)
    (f : Modification → Modification) : Store where
  db := s.db
  modifications := s.modifications.update modificationId (.keepingKeys f)
    (Modification.keepingKeys_id f)
  original_exists m hm := by
    obtain ⟨x, hx, rfl⟩ := Table.mem_updateWhere.mp hm
    split
    · exact s.original_exists x hx
    · exact s.original_exists x hx

@[simp] theorem updateModification_find? (s : Store) (id : String)
    (f : Modification → Modification) : (s.updateModification id f).modifications.find? id =
      (s.modifications.find? id).map (.keepingKeys f) :=
  Table.find?_update _ _ _ (Modification.keepingKeys_id f)

theorem updateModification_find?_ne (s : Store) {id id' : String}
    (f : Modification → Modification) (hne : id' ≠ id) :
    (s.updateModification id f).modifications.find? id' = s.modifications.find? id' :=
  Table.find?_update_ne _ _ (Modification.keepingKeys_id f) hne

/-! ## Statements -/

def finalizeModification (s : Store) (modificationId : String)
    (newBrokerOrderId : Option String) (status : ModificationStatus)
    (newClientOrderId : Option String) (now : Timestamp) : Store :=
  s.updateModification modificationId fun m =>
    { m with
      newBrokerOrderId
      newClientOrderId := newClientOrderId.getD m.newClientOrderId
      status
      modifiedAt := now
      errorMessage := none }

def updateModificationStatus (s : Store) (modificationId : String)
    (status : ModificationStatus) (errorMessage : Option String) (now : Timestamp) : Store :=
  s.updateModification modificationId fun m => { m with status, errorMessage, modifiedAt := now }

/-- Pending records older than the cutoff, oldest first. -/
def getPendingModificationsOlderThan (s : Store) (cutoff : Timestamp) : List Modification :=
  (s.modifications.select fun m => m.status = .pending && m.modifiedAt < cutoff).insertionSort
    fun a b => a.modifiedAt ≤ b.modifiedAt

theorem updateOrder_keepsOrders (db : Database) (cid : String) (f : OrderRow → OrderRow) :
    KeepsOrders db (db.updateOrder cid f) := by
  intro k hk
  by_cases h : k = cid
  · subst h
    rw [updateOrder_find?, Option.isSome_map]
    exact hk
  · rw [updateOrder_find?_ne _ _ _ h]
    exact hk

def markReplaced (s : Store) (clientOrderId : String) (now : Timestamp) : Store :=
  s.withDb (updateOrderStatusSimpleWithConn s.db clientOrderId .replaced now).1
    (updateOrder_keepsOrders s.db clientOrderId _)

/-- What the broker says of an order; a status outside the gateway's vocabulary is unknown. -/
inductive BrokerStatus where
  | absent
  | known (status : OrderStatus)
  | unknown (text : String)
  deriving DecidableEq, Repr

/-- `status or "pending_new"` -/
def BrokerStatus.orDefault : BrokerStatus → Option OrderStatus
  | .absent => some .pendingNew
  | .known status => some status
  | .unknown _ => none

structure BrokerOrder where
  id : String
  clientOrderId : String
  status : BrokerStatus
  deriving DecidableEq

def brokerIdTaken (db : Database) (brokerOrderId : String) : Bool :=
  db.orders.rows.any fun r => r.brokerOrderId = some brokerOrderId

/-- `client_order_id or new_client_id` -/
def BrokerOrder.idOr (b : BrokerOrder) (newClientOrderId : String) : String :=
  if b.clientOrderId = "" then newClientOrderId else b.clientOrderId

def replacementRow (clientOrderId replacedOrderId strategyId : String) (request : OrderRequest)
    (status : OrderStatus) (brokerOrderId : String) (now : Timestamp) : OrderRow :=
  { OrderRow.defaults request clientOrderId strategyId status now with
    replacedOrderId := some replacedOrderId
    brokerOrderId := some brokerOrderId
    submittedAt := some now }

/-- The insert under both unique constraints of the orders. A status outside the vocabulary is
stored and then refused by the row model. -/
def insertReplacement (db : Database) (clientOrderId replacedOrderId strategyId : String)
    (request : OrderRequest) (b : BrokerOrder) (now : Timestamp) : Except WriteError Database :=
  if brokerIdTaken db b.id then .error .uniqueViolation
  else if (db.orders.find? clientOrderId).isSome then .error .uniqueViolation
  else match b.status.orDefault with
    | none => .error .validationError
    | some status =>
        (insertReplacementOrder db clientOrderId replacedOrderId strategyId request status
          (some b.id) now).map (·.1)

section InsertReplacement

variable {db : Database} {cid replaced strategy : String} {request : OrderRequest}
  {b : BrokerOrder} {now : Timestamp}

theorem insertReplacement_ok {db' : Database}
    (h : insertReplacement db cid replaced strategy request b now = .ok db') :
    brokerIdTaken db b.id = false ∧ db.orders.find? cid = none ∧
      ∃ status, b.status.orDefault = some status ∧
        db.orders.insert (replacementRow cid replaced strategy request status b.id now) =
          some db'.orders := by
  unfold insertReplacement at h
  split at h
  · cases h
  · rename_i htaken
    split at h
    · cases h
    · rename_i hknown
      split at h
      · cases h
      · rename_i status hstatus
        refine ⟨by simpa using htaken, by simpa using hknown, status, hstatus, ?_⟩
        unfold insertReplacementOrder insertOrder at h
        split at h
        · cases h
        · split at h
          · rename_i orders hinsert
            cases h
            exact hinsert
          · cases h

theorem insertReplacement_of_fresh (strategy : String) (request : OrderRequest) (now : Timestamp)
    {status : OrderStatus}
    (hid : brokerIdTaken db b.id = false) (hnew : db.orders.find? cid = none)
    (hstatus : b.status.orDefault = some status) (hreplaced : (db.orders.find? replaced).isSome) :
    ∃ db', insertReplacement db cid replaced strategy request b now = .ok db' := by
  have hfresh : (db.orders.find? cid).isSome = false := by rw [hnew, Option.isSome_none]
  have hexists : (db.orders.find? replaced).isNone = false := by
    rw [← Option.not_isSome, hreplaced]
    rfl
  unfold insertReplacement insertReplacementOrder insertOrder
  simp only [hid, hfresh, hstatus, hexists, Bool.false_eq_true, if_false]
  split
  · exact ⟨_, rfl⟩
  · rename_i hnone
    have hmem := Table.insert_eq_none.mp hnone
    obtain ⟨r, hr, hkey⟩ := List.mem_map.mp hmem
    exact absurd hkey (Table.find?_eq_none.mp hnew r hr)

theorem insertReplacement_keepsOrders {db' : Database}
    (h : insertReplacement db cid replaced strategy request b now = .ok db') :
    KeepsOrders db db' := by
  obtain ⟨-, -, status, -, hinsert⟩ := insertReplacement_ok h
  intro k hk
  rw [Table.find?_insert hinsert]
  split
  · rfl
  · exact hk

end InsertReplacement

def insertReplacementIn (s : Store) (clientOrderId replacedOrderId strategyId : String)
    (request : OrderRequest) (b : BrokerOrder) (now : Timestamp) : Except WriteError Store :=
  match h : insertReplacement s.db clientOrderId replacedOrderId strategyId request b now with
  | .ok db => .ok (s.withDb db (insertReplacement_keepsOrders h))
  | .error e => .error e

theorem insertReplacementIn_ok {s s' : Store} {cid replaced strategy : String}
    {request : OrderRequest} {b : BrokerOrder} {now : Timestamp}
    (h : insertReplacementIn s cid replaced strategy request b now = .ok s') :
    insertReplacement s.db cid replaced strategy request b now = .ok s'.db ∧
      s'.modifications = s.modifications := by
  unfold insertReplacementIn at h
  split at h
  · rename_i db hdb
    cases h
    exact ⟨hdb, rfl⟩
  · cases h

/-! ## The transaction of the third phase -/

/-- The three statements, before the commit. -/
def replacementStatements (s : Store) (modificationId originalId newId strategyId : String)
    (request : OrderRequest) (b : BrokerOrder) (now : Timestamp) :
    Transaction Store × Except (Option WriteError) Unit :=
  ((Transaction.start s).execute fun s =>
      finalizeModification s modificationId (some b.id) .completed (some newId) now).execute
    (fun s => markReplaced s originalId now) |>.attempt
    fun s => insertReplacementIn s newId originalId strategyId request b now

/-- What becomes of the third phase. -/
inductive Ending where
  | crashed
  | reached
  /-- Some statement fails for want of a connection; the mark may fail as well. -/
  | disconnected (marked : Bool)
  deriving DecidableEq

/-- Any exception rolls the transaction back, and the record is marked if that still works. -/
def finalizeModificationInDb (s : Store) (modificationId originalId newId strategyId : String)
    (request : OrderRequest) (b : BrokerOrder) (ending : Ending) (now : Timestamp) : Store :=
  let mark (s : Store) :=
    updateModificationStatus s modificationId .submittedUnconfirmed (some "db_finalize_failed") now
  match ending with
  | .crashed => s
  | .disconnected marked => if marked then mark s else s
  | .reached =>
      match replacementStatements s modificationId originalId newId strategyId request b now with
      | (t, .ok ()) => t.commit
      | (t, .error _) => mark t.rollback

/-! ## The three phases -/

/-- The order as the broker now has it: the original with the changed fields replaced. -/
def replacementRequest (original : OrderRow) (changes : Changes) : OrderRequest where
  symbol := original.symbol
  side := original.side
  qty := changes.qty.elim original.qty (·.val)
  orderType := original.orderType
  limitPrice := changes.limitPrice <|> original.limitPrice
  stopPrice := changes.stopPrice <|> original.stopPrice
  timeInForce := changes.timeInForce.getD original.timeInForce
  qty_pos := by
    cases changes.qty with
    | none => exact original.qty_pos
    | some qty => exact qty.property

/-- One more than the highest number given to a modification of the order. -/
def getNextModificationSeq (s : Store) (clientOrderId : String) : Nat :=
  ((s.modifications.select fun m => m.originalClientOrderId = clientOrderId).map
    (·.modificationSeq)).foldl max 0 + 1

/-- The unique constraints are on the id, the number and the idempotency key. -/
def insertPendingModification (s : Store) (m : Modification) : Except WriteError Store :=
  if hfk : (s.db.orders.find? m.originalClientOrderId).isSome then
    if s.modifications.rows.any fun x =>
        x.originalClientOrderId = m.originalClientOrderId &&
          (x.modificationSeq = m.modificationSeq || x.idempotencyKey = m.idempotencyKey) then
      .error .uniqueViolation
    else match hinsert : s.modifications.insert m with
      | none => .error .uniqueViolation
      | some modifications =>
          .ok
            { db := s.db
              modifications
              original_exists := by
                intro x hx
                rcases (Table.mem_insert hinsert).mp hx with hold | rfl
                · exact s.original_exists x hold
                · exact hfk }
  else .error .foreignKeyViolation

structure ModifyCall where
  modificationId : String
  idempotencyKey : String
  modifiedBy : String
  reason : Option String
  changes : Changes

def ModifyCall.record (call : ModifyCall) (digest : String → String) (s : Store)
    (order : OrderRow) (now : Timestamp) : Modification :=
  let seq := getNextModificationSeq s order.clientOrderId
  { modificationId := call.modificationId
    originalClientOrderId := order.clientOrderId
    newClientOrderId := digest (order.clientOrderId ++ ":mod:" ++ toString seq)
    originalBrokerOrderId := order.brokerOrderId
    newBrokerOrderId := none
    modificationSeq := seq
    idempotencyKey := call.idempotencyKey
    status := .pending
    errorMessage := none
    modifiedAt := now
    modifiedBy := call.modifiedBy
    reason := call.reason
    changes := call.changes }

/-- An eligible modification: `reply` is the broker's answer to the replacement, and `ending`
what becomes of the third phase. -/
def modifyOrder (digest : String → String) (s : Store) (order : OrderRow) (call : ModifyCall)
    (reply : Except String BrokerOrder) (ending : Ending) (now : Timestamp) : Store :=
  let m := call.record digest s order now
  match insertPendingModification s m with
  | .error _ => s
  | .ok s =>
      match reply with
      | .error message => updateModificationStatus s m.modificationId .failed (some message) now
      | .ok b =>
          finalizeModificationInDb s m.modificationId order.clientOrderId
            (b.idOr m.newClientOrderId) order.strategyId (replacementRequest order call.changes)
            b ending now

end TradingPlatform.Gateway
