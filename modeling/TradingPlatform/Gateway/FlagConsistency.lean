import TradingPlatform.Base.Run
import TradingPlatform.Gateway.OrderWrites

/-! # The derived terminal flag

`is_terminal` is a second record of `status in TERMINAL_STATUSES`, kept by hand
in every writer. This module says which runs of the writers keep the two
columns together, and that the readers, which look at the flag only, are exact
on a database just when they do.
-/

namespace TradingPlatform.Gateway

open Base

/-! ## One writer, one call -/

inductive DbWrite where
  | createOrder (clientOrderId strategyId : String) (request : OrderRequest)
      (status : OrderStatus) (brokerOrderId errorMessage : Option String)
  | createParentOrder (clientOrderId strategyId : String) (request : OrderRequest)
      (totalSlices : Nat) (status : OrderStatus) (metadata : Metadata)
  | createChildSlice (clientOrderId parentOrderId : String) (sliceNum : Nat)
      (strategyId : String) (request : OrderRequest) (scheduledTime : Timestamp)
      (status : OrderStatus)
  | insertReplacementOrder (clientOrderId replacedOrderId strategyId : String)
      (request : OrderRequest) (status : OrderStatus) (brokerOrderId : Option String)
  | cancelPendingSlices (parentOrderId : String)
  | updateOrderStatus (clientOrderId : String) (status : OrderStatus)
      (brokerOrderId : Option String) (filledQty : Option Decimal)
      (filledAvgPrice : Option Price) (errorMessage : Option String)
  | updateOrderStatusCas (clientOrderId : String) (u : CasUpdate)
  | updateOrderStatusWithConn (clientOrderId : String) (u : ConnUpdate)
  | updateOrderStatusSimpleWithConn (clientOrderId : String) (status : OrderStatus)

def applyWrite (db : Database) (call : DbWrite × Timestamp) : Database :=
  let now := call.2
  match call.1 with
  | .createOrder cid strategy request status broker error =>
      committed db (createOrder db cid strategy request status broker error now)
  | .createParentOrder cid strategy request totalSlices status metadata =>
      committed db (createParentOrder db cid strategy request totalSlices status metadata now)
  | .createChildSlice cid parent slice strategy request scheduled status =>
      committed db (createChildSlice db cid parent slice strategy request scheduled status now)
  | .insertReplacementOrder cid replaced strategy request status broker =>
      committed db (insertReplacementOrder db cid replaced strategy request status broker now)
  | .cancelPendingSlices parent => (cancelPendingSlices db parent now).1
  | .updateOrderStatus cid status broker qty price error =>
      (updateOrderStatus db cid status broker qty price error now).1
  | .updateOrderStatusCas cid u => (updateOrderStatusCas db cid u now).1
  | .updateOrderStatusWithConn cid u => committed db (updateOrderStatusWithConn db cid u now)
  | .updateOrderStatusSimpleWithConn cid status =>
      (updateOrderStatusSimpleWithConn db cid status now).1

/-! ## The property and the condition -/

def OrderRow.FlagMatches (r : OrderRow) : Prop := r.isTerminal = r.status.terminal

instance (r : OrderRow) : Decidable r.FlagMatches :=
  inferInstanceAs (Decidable (r.isTerminal = r.status.terminal))

def FlagsConsistent (db : Database) : Prop := ∀ r ∈ db.orders.rows, r.FlagMatches

instance (db : Database) : Decidable (FlagsConsistent db) :=
  inferInstanceAs (Decidable (∀ r ∈ db.orders.rows, r.FlagMatches))

/-- The two readers return exactly the orders whose status is active. -/
def ReadersExact (db : Database) : Prop :=
  (∀ cutoff r, r ∈ getNonTerminalOrders db cutoff ↔
    r ∈ db.orders.rows ∧ r.status.terminal = false ∧ ∀ t ∈ cutoff, r.createdAt ≤ t) ∧
  ∀ parent, countNonTerminalChildren db parent =
    (db.orders.select fun r => r.parentOrderId = some parent && !r.status.terminal).length

/-- The insert of this key goes through. -/
def Fresh (db : Database) (clientOrderId : String) : Prop := db.orders.find? clientOrderId = none

/-- The parent has this slice already. -/
def sliceTaken (db : Database) (parentOrderId : String) (sliceNum : Nat) : Bool :=
  db.orders.rows.any fun r => r.parentOrderId = some parentOrderId && r.sliceNum = some sliceNum

/-- An insert that goes through carries an active status, a cancellation finds no pending
slice, and an update without the ordering fields stays on its side of the lock. -/
def KeepsFlags (db : Database) (call : DbWrite × Timestamp) : Prop :=
  match call.1 with
  | .createOrder cid _ _ status _ _ => Fresh db cid → status.terminal = false
  | .createParentOrder .. => True
  | .createChildSlice cid parent slice _ _ _ status =>
      (db.orders.find? parent).isSome ∧ sliceTaken db parent slice = false ∧ Fresh db cid →
        status.terminal = false
  | .insertReplacementOrder cid replaced _ _ status _ =>
      (db.orders.find? replaced).isSome ∧ Fresh db cid → status.terminal = false
  | .cancelPendingSlices parent => ∀ r ∈ db.orders.rows, pendingSlice parent r = false
  | .updateOrderStatus .. => True
  | .updateOrderStatusCas .. => True
  | .updateOrderStatusWithConn cid u =>
      u.cas? = none → u.filledQty.isSome → ∀ r, db.orders.find? cid = some r →
        r.status.terminal = u.status.terminal
  | .updateOrderStatusSimpleWithConn .. => True

/-! ## What one write does to the flags -/

theorem flagsConsistent_iff_find? (db : Database) :
    FlagsConsistent db ↔ ∀ cid r, db.orders.find? cid = some r → r.FlagMatches := by
  constructor
  · intro h cid r hr
    exact h r (Table.find?_mem hr)
  · intro h r hr
    exact h _ r (Table.find?_of_mem hr)

theorem flagsConsistent_updateOrder {db : Database} (hdb : FlagsConsistent db) (cid : String)
    (f : OrderRow → OrderRow) : FlagsConsistent (db.updateOrder cid f) ↔
      ∀ r, db.orders.find? cid = some r → (f r).FlagMatches := by
  rw [flagsConsistent_iff_find?] at hdb ⊢
  constructor
  · intro h r hr
    apply h cid (OrderRow.keepingKey f r)
    rw [updateOrder_find?, hr, Option.map_some]
  · intro h cid' r' hr'
    by_cases hcid : cid' = cid
    · rw [hcid, updateOrder_find?, Option.map_eq_some_iff] at hr'
      obtain ⟨r, hr, heq⟩ := hr'
      rw [← heq]
      exact h r hr
    · rw [updateOrder_find?_ne db cid f hcid] at hr'
      exact hdb cid' r' hr'

theorem flagsConsistent_insertOrder {db : Database} (hdb : FlagsConsistent db)
    (row : OrderRow) : FlagsConsistent (committed db (insertOrder db row)) ↔
      (Fresh db row.clientOrderId → row.FlagMatches) := by
  unfold insertOrder Fresh
  cases hins : db.orders.insert row with
  | none =>
      have htaken : db.orders.find? row.clientOrderId ≠ none := by
        rw [Table.insert_eq_none, List.mem_map] at hins
        obtain ⟨x, hx, hkey⟩ := hins
        intro hnone
        exact Table.find?_eq_none.mp hnone x hx hkey
      exact iff_of_true hdb fun hfresh => absurd hfresh htaken
  | some orders =>
      have hfresh : db.orders.find? row.clientOrderId = none := by
        rw [Table.find?_eq_none]
        intro x hx hkey
        have hkeys : row.clientOrderId ∈ db.orders.rows.map (·.clientOrderId) :=
          List.mem_map.mpr ⟨x, hx, hkey⟩
        rw [Table.insert_eq_none.mpr hkeys] at hins
        cases hins
      constructor
      · intro h _
        exact h row ((Table.mem_insert hins).mpr (Or.inr rfl))
      · intro h r hr
        rcases (Table.mem_insert hins).mp hr with hold | hnew
        · exact hdb r hold
        · rw [hnew]
          exact h hfresh

/-- A row inserted without the flag matches unless its status is terminal. -/
theorem flagMatches_of_default {r : OrderRow} (h : r.isTerminal = false) :
    r.FlagMatches ↔ r.status.terminal = false := by
  rw [OrderRow.FlagMatches, h]
  exact eq_comm

theorem flagsConsistent_cas {db : Database} (hdb : FlagsConsistent db) (cid : String)
    (u : CasUpdate) (now : Timestamp) :
    FlagsConsistent (updateOrderStatusCas db cid u now).1 := by
  unfold updateOrderStatusCas
  split
  · exact hdb
  · split
    · exact (flagsConsistent_updateOrder hdb cid _).mpr fun _ _ => rfl
    · exact hdb

theorem mem_cancelPendingSlices (db : Database) (parent : String) (now : Timestamp)
    (r' : OrderRow) : r' ∈ (cancelPendingSlices db parent now).1.orders.rows ↔
      ∃ r ∈ db.orders.rows,
        (if pendingSlice parent r then { r with status := .canceled, updatedAt := now } else r) =
          r' := by
  simp only [cancelPendingSlices]
  rw [Table.mem_updateWhere]

theorem flagsConsistent_cancelPendingSlices {db : Database} (hdb : FlagsConsistent db)
    (parent : String) (now : Timestamp) :
    FlagsConsistent (cancelPendingSlices db parent now).1 ↔
      ∀ r ∈ db.orders.rows, pendingSlice parent r = false := by
  constructor
  · intro h r hr
    by_contra hpending
    have hpending : pendingSlice parent r = true := by simpa using hpending
    have hstatus : r.status = .pendingNew := by
      simp only [pendingSlice, Bool.and_eq_true, decide_eq_true_eq] at hpending
      exact hpending.2
    have hflag : r.isTerminal = false := by
      have hmatch := hdb r hr
      rwa [OrderRow.FlagMatches, hstatus] at hmatch
    have hcanceled := h { r with status := .canceled, updatedAt := now }
      ((mem_cancelPendingSlices db parent now _).mpr ⟨r, hr, if_pos hpending⟩)
    simp [OrderRow.FlagMatches, hflag, OrderStatus.terminal, terminalStatuses] at hcanceled
  · intro h r' hr'
    obtain ⟨r, hr, heq⟩ := (mem_cancelPendingSlices db parent now r').mp hr'
    rw [h r hr, if_neg (by simp)] at heq
    rw [← heq]
    exact hdb r hr

theorem flagsConsistent_withConn {db : Database} (hdb : FlagsConsistent db) (cid : String)
    (u : ConnUpdate) (now : Timestamp) :
    FlagsConsistent (committed db (updateOrderStatusWithConn db cid u now)) ↔
      (u.cas? = none → u.filledQty.isSome → ∀ r, db.orders.find? cid = some r →
        r.status.terminal = u.status.terminal) := by
  unfold updateOrderStatusWithConn
  cases hcas : u.cas? with
  | some cas =>
      exact iff_of_true (flagsConsistent_cas hdb cid cas now) (by simp)
  | none =>
      cases hr : db.orders.find? cid with
      | none => exact iff_of_true hdb (by simp)
      | some r =>
          cases hqty : u.filledQty with
          | none => exact iff_of_true hdb (by simp)
          | some filledQty =>
              have hflag : r.isTerminal = r.status.terminal := hdb r (Table.find?_mem hr)
              simp only [committed]
              rw [flagsConsistent_updateOrder hdb, hr]
              simp [OrderRow.FlagMatches, hflag]

/-- One write keeps the columns together exactly when it meets the condition. -/
theorem flagsConsistent_applyWrite {db : Database} (hdb : FlagsConsistent db)
    (call : DbWrite × Timestamp) :
    FlagsConsistent (applyWrite db call) ↔ KeepsFlags db call := by
  obtain ⟨write, now⟩ := call
  cases write with
  | createOrder cid strategy request status broker error =>
      simp only [applyWrite, KeepsFlags, createOrder]
      rw [flagsConsistent_insertOrder hdb, flagMatches_of_default rfl]
      rfl
  | createParentOrder => exact iff_of_true hdb trivial
  | createChildSlice cid parent slice strategy request scheduled status =>
      simp only [applyWrite, KeepsFlags, createChildSlice]
      rw [← sliceTaken]
      by_cases hparent : (db.orders.find? parent).isNone
      · rw [if_pos hparent]
        refine iff_of_true hdb fun h => ?_
        simp_all
      · by_cases hslice : sliceTaken db parent slice = true
        · rw [if_neg hparent, if_pos hslice]
          refine iff_of_true hdb fun h => ?_
          simp_all
        · rw [if_neg hparent, if_neg hslice, flagsConsistent_insertOrder hdb,
            flagMatches_of_default rfl]
          have hsome : (db.orders.find? parent).isSome = true :=
            Option.isSome_iff_ne_none.mpr (by simpa using hparent)
          have hfree : sliceTaken db parent slice = false := by simpa using hslice
          simp only [hsome, hfree, true_and]
          rfl
  | insertReplacementOrder cid replaced strategy request status broker =>
      simp only [applyWrite, KeepsFlags, insertReplacementOrder]
      by_cases hreplaced : (db.orders.find? replaced).isNone
      · rw [if_pos hreplaced]
        refine iff_of_true hdb fun h => ?_
        simp_all
      · rw [if_neg hreplaced, flagsConsistent_insertOrder hdb, flagMatches_of_default rfl]
        have hsome : (db.orders.find? replaced).isSome = true :=
          Option.isSome_iff_ne_none.mpr (by simpa using hreplaced)
        simp only [hsome, true_and]
        rfl
  | cancelPendingSlices parent => exact flagsConsistent_cancelPendingSlices hdb parent now
  | updateOrderStatus cid status =>
      exact iff_of_true ((flagsConsistent_updateOrder hdb cid _).mpr fun _ _ => rfl) trivial
  | updateOrderStatusCas cid u => exact iff_of_true (flagsConsistent_cas hdb cid u now) trivial
  | updateOrderStatusWithConn cid u => exact flagsConsistent_withConn hdb cid u now
  | updateOrderStatusSimpleWithConn cid status =>
      exact iff_of_true ((flagsConsistent_updateOrder hdb cid _).mpr fun _ _ => rfl) trivial

/-! ## The readers -/

theorem mem_getNonTerminalOrders (db : Database) (cutoff : Option Timestamp) (r : OrderRow) :
    r ∈ getNonTerminalOrders db cutoff ↔
      r ∈ db.orders.rows ∧ r.isTerminal = false ∧ ∀ t ∈ cutoff, r.createdAt ≤ t := by
  rw [getNonTerminalOrders, List.mem_insertionSort, Table.select, List.mem_filter]
  cases cutoff <;> simp

theorem readersExact_iff (db : Database) : ReadersExact db ↔ FlagsConsistent db := by
  constructor
  · intro h r hr
    have hread := h.1 none r
    rw [mem_getNonTerminalOrders] at hread
    cases hflag : r.isTerminal <;> cases hstatus : r.status.terminal <;>
      simp_all [OrderRow.FlagMatches]
  · intro h
    constructor
    · intro cutoff r
      rw [mem_getNonTerminalOrders]
      refine and_congr_right fun hr => ?_
      rw [h r hr]
    · intro parent
      have hsame : ∀ r ∈ db.orders.rows,
          (r.parentOrderId = some parent && !r.isTerminal) =
            (r.parentOrderId = some parent && !r.status.terminal) := by
        intro r hr
        rw [h r hr]
      rw [countNonTerminalChildren, Table.select, Table.select, List.filter_congr hsame]

/-! ## Runs of the writers -/

/-- From the empty database, the two columns agree in every row of every state, and the
readers are exact in every state, exactly when every write meets the condition. -/
theorem flags_consistent_iff (writes : List (DbWrite × Timestamp)) :
    EveryState applyWrite (fun db => FlagsConsistent db ∧ ReadersExact db) .empty writes ↔
      EachStep applyWrite KeepsFlags .empty writes := by
  have hflags : EveryState applyWrite FlagsConsistent .empty writes ↔
      EachStep applyWrite KeepsFlags .empty writes :=
    everyState_iff_eachStep' (G := fun _ => True) (fun _ _ _ => trivial)
      (fun _ call _ hdb => flagsConsistent_applyWrite hdb call) writes trivial
      (by intro r hr; cases hr)
  rw [← hflags]
  constructor
  · exact EveryState.mono fun _ h => h.1
  · exact EveryState.mono fun db h => ⟨h, (readersExact_iff db).mpr h⟩

/-- A parent with one pending slice, whose slices are then canceled. -/
def cancelSlicesRun : List (DbWrite × Timestamp) :=
  [(.createOrder "twap" "alpha" tenShares .pendingNew none none, 1),
    (.createChildSlice "slice-0" "twap" 0 "alpha" tenShares 60 .pendingNew, 2),
    (.cancelPendingSlices "twap", 3)]

/-- The canceled slice is still counted as a live child. -/
theorem canceled_slice_stays_live :
    ((run applyWrite .empty cancelSlicesRun).orders.find? "slice-0").map
        (fun r => (r.status, r.isTerminal)) = some (.canceled, false) ∧
      countNonTerminalChildren (run applyWrite .empty cancelSlicesRun) "twap" = 1 ∧
      ¬ EveryState applyWrite FlagsConsistent .empty cancelSlicesRun := by
  decide

end TradingPlatform.Gateway
