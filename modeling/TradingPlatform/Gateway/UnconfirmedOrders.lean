import TradingPlatform.Gateway.Backfill
import TradingPlatform.Gateway.SliceScheduler

/-! # Orders that the broker does not list

Reconciliation asks the broker for each order that its window does not cover,
and for each unconfirmed submission. One that the broker does not know is to fail
after a grace period. The write that fails it carries the creation of the order
as its time, and every earlier write of the row has left a later one.
-/

namespace TradingPlatform.Gateway

open Base

/-- What the broker reports of an order; its vocabulary has no `failed`. -/
structure ReportedOrder where
  id : String
  status : OrderStatus
  filledQty : Option Decimal
  filledAvgPrice : Option Price
  filledAt : Option Timestamp
  updatedAt : Option Timestamp
  createdAt : Option Timestamp
  status_ne : status ≠ .failed

/-- What `get_order_by_client_id` answers. -/
inductive OrderLookup where
  | unknown
  | found (brokerOrder : ReportedOrder)
  | raised

structure MissingOrdersConfig where
  afterTime : Option Timestamp
  maxIndividualLookups : Int
  submittedUnconfirmedGraceSeconds : Int
  /-- Whether there is a callback that backfills fills. -/
  backfills : Bool

def ReportedOrder.changedAt (brokerOrder : ReportedOrder) (now : Timestamp) : Timestamp :=
  (brokerOrder.updatedAt <|> brokerOrder.createdAt).getD now

def ReportedOrder.update (brokerOrder : ReportedOrder) (now : Timestamp) : CasUpdate where
  status := brokerOrder.status
  brokerUpdatedAt := brokerOrder.changedAt now
  statusRank := statusRankFor brokerOrder.status
  sourcePriority := sourcePriorityReconciliation
  filledQty := some (brokerOrder.filledQty.getD 0)
  filledAvgPrice := brokerOrder.filledAvgPrice
  filledAt := if brokerOrder.status = .filled then brokerOrder.filledAt else none
  brokerOrderId := some brokerOrder.id
  brokerEventId := none
  errorMessage := none

def ReportedOrder.fills (brokerOrder : ReportedOrder) : BrokerFills where
  filledQty := brokerOrder.filledQty
  filledAvgPrice := brokerOrder.filledAvgPrice.map Subtype.val
  updatedAt := brokerOrder.updatedAt
  createdAt := brokerOrder.createdAt

def applyBrokerUpdate (config : MissingOrdersConfig) (db : Database) (clientOrderId : String)
    (brokerOrder : ReportedOrder) (now : Timestamp) : Database × Bool :=
  match updateOrderStatusCas db clientOrderId (brokerOrder.update now) now with
  | (_, none) => (db, false)
  | (db', some updated) =>
      if (brokerOrder.status = .filled ∨ brokerOrder.status = .partiallyFilled) ∧
          config.backfills = true then
        ((backfillFillMetadata db' clientOrderId brokerOrder.fills
          (some (brokerOrder.changedAt now)) (some updated) now).1, true)
      else (db', true)

/-- The write that fails an unconfirmed submission, as of the creation of the order. -/
def failedUpdate (dbOrder : OrderRow) : CasUpdate where
  status := .failed
  brokerUpdatedAt := dbOrder.createdAt
  statusRank := statusRankFor .failed
  sourcePriority := sourcePriorityReconciliation
  filledQty := some 0
  filledAvgPrice := none
  filledAt := none
  brokerOrderId := dbOrder.brokerOrderId
  brokerEventId := none
  errorMessage := none

/-- The loop between two orders, with the orders that were looked up. -/
structure MissingOrdersRun where
  db : Database
  lookups : Nat
  updated : Nat
  markedFailed : Nat
  lookedUp : List String
  stopped : Bool

def withinGrace (config : MissingOrdersConfig) (dbOrder : OrderRow) (now : Timestamp) : Bool :=
  now - dbOrder.createdAt < config.submittedUnconfirmedGraceSeconds * second

/-- An order that the broker does not know. -/
def MissingOrdersRun.failUnconfirmed (config : MissingOrdersConfig) (now : Timestamp)
    (s : MissingOrdersRun) (dbOrder : OrderRow) : MissingOrdersRun :=
  if dbOrder.status = .submittedUnconfirmed then
    if withinGrace config dbOrder now then s
    else
      match updateOrderStatusCas s.db dbOrder.clientOrderId (failedUpdate dbOrder) now with
      | (_, none) => s
      | (db, some _) => { s with db, markedFailed := s.markedFailed + 1 }
  else s

def MissingOrdersRun.step (config : MissingOrdersConfig) (broker : String → OrderLookup)
    (now : Timestamp) (s : MissingOrdersRun) (dbOrder : OrderRow) : MissingOrdersRun :=
  if s.stopped then s
  else if dbOrder.status ≠ .submittedUnconfirmed ∧
      config.afterTime.any (· ≤ dbOrder.createdAt) = true then s
  else if config.maxIndividualLookups ≤ s.lookups then { s with stopped := true }
  else
    let s : MissingOrdersRun :=
      { s with
        lookups := s.lookups + 1
        lookedUp := s.lookedUp ++ [dbOrder.clientOrderId] }
    match broker dbOrder.clientOrderId with
    | .raised => { s with stopped := true }
    | .found brokerOrder =>
        let applied := applyBrokerUpdate config s.db dbOrder.clientOrderId brokerOrder now
        { s with db := applied.1, updated := if applied.2 then s.updated + 1 else s.updated }
    | .unknown => s.failUnconfirmed config now dbOrder

/-- `reconcile_missing_orders` -/
def reconcileMissingOrders (config : MissingOrdersConfig) (broker : String → OrderLookup)
    (now : Timestamp) (db : Database) (dbOrders : List OrderRow) : MissingOrdersRun :=
  dbOrders.foldl (MissingOrdersRun.step config broker now) ⟨db, 0, 0, 0, [], false⟩

/-- The columns that decide about a status are as the update has left them. -/
structure LeftBy (u : CasUpdate) (row : OrderRow) : Prop where
  status : row.status = u.status
  lastUpdatedAt : row.lastUpdatedAt = some u.brokerUpdatedAt
  statusRank : row.statusRank = some u.statusRank
  isTerminal : row.isTerminal = u.status.terminal

theorem leftBy_casApply (row : OrderRow) (u : CasUpdate) (now : Timestamp) :
    LeftBy u (casApply row u now) := ⟨rfl, rfl, rfl, rfl⟩

def MarkedFailed (db : Database) (clientOrderId : String) : Prop :=
  ∃ row, db.orders.find? clientOrderId = some row ∧ row.status = .failed ∧ row.isTerminal = true

/-- The run fails no order but unconfirmed ones that the broker does not know and whose grace period
is over. -/
def FailsOnlyLost (config : MissingOrdersConfig) (broker : String → OrderLookup) (now : Timestamp)
    (db db' : Database) (dbOrders : List OrderRow) : Prop :=
  ∀ clientOrderId row row', db.orders.find? clientOrderId = some row → row.status ≠ .failed →
    db'.orders.find? clientOrderId = some row' → row'.status = .failed →
      broker clientOrderId = .unknown ∧
        ∃ dbOrder ∈ dbOrders, dbOrder.clientOrderId = clientOrderId ∧
          dbOrder.status = .submittedUnconfirmed ∧ withinGrace config dbOrder now = false

/-! ## One order -/

variable {config : MissingOrdersConfig} {broker : String → OrderLookup} {now : Timestamp}
  {db : Database} {s : MissingOrdersRun} {dbOrder : OrderRow} {clientOrderId k : String}

/-- A backfill touches the metadata of its order only. -/
theorem backfillFillMetadata_find? (now : Timestamp) (db : Database) (clientOrderId k : String)
    (brokerOrder : BrokerFills) (updatedAt : Option Timestamp) (cachedOrder : Option OrderRow) :
    (backfillFillMetadata db clientOrderId brokerOrder updatedAt cachedOrder now).1.orders.find? k =
        db.orders.find? k ∨
      (k = clientOrderId ∧ ∃ fill,
        (backfillFillMetadata db clientOrderId brokerOrder updatedAt cachedOrder
          now).1.orders.find? k = (db.orders.find? k).map fun r =>
            if acceptsFill r fill then r.withFill fill now else r) := by
  unfold backfillFillMetadata injectSyntheticFill
  dsimp only
  split
  · exact Or.inl rfl
  · split
    · exact Or.inl rfl
    · split
      · exact Or.inl rfl
      · by_cases hk : k = clientOrderId
        · rw [hk]
          exact Or.inr ⟨rfl, _, appendFill_find? ..⟩
        · exact Or.inl ((appendFill_frame ..).1 k hk)

theorem applyBrokerUpdate_frame (brokerOrder : ReportedOrder) (hk : k ≠ clientOrderId) :
    (applyBrokerUpdate config db clientOrderId brokerOrder now).1.orders.find? k =
      db.orders.find? k := by
  have hcas := (updateOrderStatusCas_frame db clientOrderId (brokerOrder.update now) now).1 k hk
  unfold applyBrokerUpdate
  split
  · rfl
  · rename_i db' updated heq
    rw [heq] at hcas
    split
    · rcases backfillFillMetadata_find? now db' clientOrderId k brokerOrder.fills
        (some (brokerOrder.changedAt now)) (some updated) with hsame | ⟨hown, _⟩
      · rw [hsame]
        exact hcas
      · exact absurd hown hk
    · exact hcas

/-- An order that the broker returns gets the broker's status, or keeps its own. -/
theorem applyBrokerUpdate_status (brokerOrder : ReportedOrder) {row : OrderRow}
    (hrow : db.orders.find? clientOrderId = some row) (hstatus : row.status ≠ .failed) :
    ∃ row', (applyBrokerUpdate config db clientOrderId brokerOrder now).1.orders.find?
      clientOrderId = some row' ∧ row'.status ≠ .failed := by
  have hcas := updateOrderStatusCas_find? db clientOrderId (brokerOrder.update now) now
  have hcasStatus : (casUpdate row (brokerOrder.update now) now).status ≠ .failed := by
    unfold casUpdate
    split
    · exact brokerOrder.status_ne
    · exact hstatus
  rw [hrow, Option.map_some] at hcas
  unfold applyBrokerUpdate
  split
  · exact ⟨row, hrow, hstatus⟩
  · rename_i db' updated heq
    rw [heq] at hcas
    split
    · rcases backfillFillMetadata_find? now db' clientOrderId clientOrderId
        brokerOrder.fills (some (brokerOrder.changedAt now)) (some updated) with
        hsame | ⟨_, fill, hfill⟩
      · exact ⟨_, hsame.trans hcas, hcasStatus⟩
      · rw [hcas, Option.map_some] at hfill
        refine ⟨_, hfill, ?_⟩
        split
        · exact hcasStatus
        · exact hcasStatus
    · exact ⟨_, hcas, hcasStatus⟩

theorem failUnconfirmed_db (s : MissingOrdersRun) (dbOrder : OrderRow) :
    (s.failUnconfirmed config now dbOrder).db =
      if dbOrder.status = .submittedUnconfirmed ∧ withinGrace config dbOrder now = false then
        (updateOrderStatusCas s.db dbOrder.clientOrderId (failedUpdate dbOrder) now).1
      else s.db := by
  unfold MissingOrdersRun.failUnconfirmed
  by_cases hstatus : dbOrder.status = .submittedUnconfirmed
  · cases hgrace : withinGrace config dbOrder now with
    | true => simp [hstatus]
    | false =>
        simp only [hstatus, if_true, and_self]
        unfold updateOrderStatusCas
        cases s.db.orders.find? dbOrder.clientOrderId with
        | none => simp
        | some row =>
            by_cases haccepts : casAccepts row (failedUpdate dbOrder).key = true
            · simp [haccepts]
            · simp [haccepts]
  · simp [hstatus]

theorem failUnconfirmed_lookedUp (s : MissingOrdersRun) (dbOrder : OrderRow) :
    (s.failUnconfirmed config now dbOrder).lookedUp = s.lookedUp := by
  unfold MissingOrdersRun.failUnconfirmed
  split
  · split
    · rfl
    · split <;> rfl
  · rfl

/-- What the loop does to the database and the lookups with one order. -/
theorem step_cases (config : MissingOrdersConfig) (broker : String → OrderLookup) (now : Timestamp)
    (s : MissingOrdersRun) (dbOrder : OrderRow) :
    let s' := s.step config broker now dbOrder
    (s'.db = s.db ∧ s'.lookedUp = s.lookedUp) ∨
      (s'.lookedUp = s.lookedUp ++ [dbOrder.clientOrderId] ∧
        ((broker dbOrder.clientOrderId = .raised ∧ s'.db = s.db) ∨
          (∃ brokerOrder, broker dbOrder.clientOrderId = .found brokerOrder ∧
            s'.db =
              (applyBrokerUpdate config s.db dbOrder.clientOrderId brokerOrder now).1) ∨
          (broker dbOrder.clientOrderId = .unknown ∧
            s'.db =
              if dbOrder.status = .submittedUnconfirmed ∧
                  withinGrace config dbOrder now = false then
                (updateOrderStatusCas s.db dbOrder.clientOrderId (failedUpdate dbOrder) now).1
              else s.db))) := by
  unfold MissingOrdersRun.step
  dsimp only
  split
  · exact Or.inl ⟨rfl, rfl⟩
  · split
    · exact Or.inl ⟨rfl, rfl⟩
    · split
      · exact Or.inl ⟨rfl, rfl⟩
      · right
        cases hlookup : broker dbOrder.clientOrderId with
        | raised => exact ⟨rfl, Or.inl ⟨rfl, rfl⟩⟩
        | found brokerOrder => exact ⟨rfl, Or.inr (Or.inl ⟨brokerOrder, rfl, rfl⟩)⟩
        | unknown =>
            refine ⟨failUnconfirmed_lookedUp _ _, Or.inr (Or.inr ⟨rfl, ?_⟩)⟩
            exact failUnconfirmed_db _ _

theorem step_frame (config : MissingOrdersConfig) (broker : String → OrderLookup) (now : Timestamp)
    (s : MissingOrdersRun) (hk : dbOrder.clientOrderId ≠ k) :
    (s.step config broker now dbOrder).db.orders.find? k = s.db.orders.find? k ∧
      (k ∈ (s.step config broker now dbOrder).lookedUp ↔ k ∈ s.lookedUp) := by
  have hlookedUp : k ∈ s.lookedUp ++ [dbOrder.clientOrderId] ↔ k ∈ s.lookedUp := by
    simp [hk.symm]
  rcases step_cases config broker now s dbOrder with ⟨hdb, hsame⟩ | ⟨happend, hcase⟩
  · rw [hdb, hsame]
    exact ⟨rfl, Iff.rfl⟩
  · rw [happend]
    refine ⟨?_, hlookedUp⟩
    rcases hcase with ⟨_, hdb⟩ | ⟨brokerOrder, _, hdb⟩ | ⟨_, hdb⟩
    · rw [hdb]
    · rw [hdb]
      exact applyBrokerUpdate_frame brokerOrder hk.symm
    · rw [hdb]
      split
      · exact (updateOrderStatusCas_frame _ _ _ _).1 k hk.symm
      · rfl

/-- The orders of which the loop may fail this one. -/
def LostOrder (config : MissingOrdersConfig) (broker : String → OrderLookup) (now : Timestamp)
    (clientOrderId : String) (dbOrder : OrderRow) : Prop :=
  broker clientOrderId = .unknown ∧ dbOrder.clientOrderId = clientOrderId ∧
    dbOrder.status = .submittedUnconfirmed ∧ withinGrace config dbOrder now = false

theorem step_status (config : MissingOrdersConfig) (broker : String → OrderLookup) (now : Timestamp)
    (dbOrder : OrderRow) {row : OrderRow} (hrow : s.db.orders.find? k = some row)
    (hstatus : row.status ≠ .failed) :
    ∃ row', (s.step config broker now dbOrder).db.orders.find? k = some row' ∧
      (row'.status ≠ .failed ∨ LostOrder config broker now k dbOrder) := by
  by_cases hk : dbOrder.clientOrderId = k
  · subst hk
    rcases step_cases config broker now s dbOrder with ⟨hdb, _⟩ | ⟨_, hcase⟩
    · rw [hdb]
      exact ⟨row, hrow, Or.inl hstatus⟩
    · rcases hcase with ⟨_, hdb⟩ | ⟨brokerOrder, _, hdb⟩ | ⟨hunknown, hdb⟩
      · rw [hdb]
        exact ⟨row, hrow, Or.inl hstatus⟩
      · rw [hdb]
        obtain ⟨row', hrow', hstatus'⟩ := applyBrokerUpdate_status brokerOrder hrow hstatus
        exact ⟨row', hrow', Or.inl hstatus'⟩
      · rw [hdb]
        split
        · rename_i hlost
          rw [updateOrderStatusCas_find?, hrow]
          exact ⟨_, rfl, Or.inr ⟨hunknown, rfl, hlost.1, hlost.2⟩⟩
        · exact ⟨row, hrow, Or.inl hstatus⟩
  · rw [(step_frame config broker now s hk).1]
    exact ⟨row, hrow, Or.inl hstatus⟩

/-! ## The loop -/

theorem foldl_step_frame (config : MissingOrdersConfig) (broker : String → OrderLookup)
    (now : Timestamp) (dbOrders : List OrderRow) (s : MissingOrdersRun)
    (h : ∀ dbOrder ∈ dbOrders, dbOrder.clientOrderId ≠ k) :
    (dbOrders.foldl (MissingOrdersRun.step config broker now) s).db.orders.find? k =
        s.db.orders.find? k ∧
      (k ∈ (dbOrders.foldl (MissingOrdersRun.step config broker now) s).lookedUp ↔
        k ∈ s.lookedUp) := by
  induction dbOrders generalizing s with
  | nil => exact ⟨rfl, Iff.rfl⟩
  | cons dbOrder dbOrders ih =>
      have hfirst := step_frame config broker now s
        (h dbOrder (by simp))
      have hrest := ih (s.step config broker now dbOrder) fun d hd => h d (by simp [hd])
      rw [List.foldl_cons]
      exact ⟨hrest.1.trans hfirst.1, hrest.2.trans hfirst.2⟩

theorem failsOnlyLost_foldl (dbOrders : List OrderRow) (s : MissingOrdersRun) :
    FailsOnlyLost config broker now s.db
      (dbOrders.foldl (MissingOrdersRun.step config broker now) s).db dbOrders := by
  induction dbOrders generalizing s with
  | nil =>
      intro k row row' hrow hstatus hrow' hfailed
      rw [List.foldl_nil, hrow] at hrow'
      cases hrow'
      exact absurd hfailed hstatus
  | cons dbOrder dbOrders ih =>
      intro k row row' hrow hstatus hrow' hfailed
      obtain ⟨next, hnext, hcase⟩ := step_status config broker now dbOrder hrow hstatus
      rcases hcase with hopen | ⟨hunknown, hlost⟩
      · obtain ⟨hunknown, d, hd, hlost⟩ := ih _ k next row' hnext hopen hrow' hfailed
        exact ⟨hunknown, d, List.mem_cons_of_mem _ hd, hlost⟩
      · exact ⟨hunknown, dbOrder, List.mem_cons_self, hlost⟩

/-- Where an order is looked up and not known, the loop sends the failing write for its row and
nothing else. -/
theorem find?_of_lookedUp {dbOrders : List OrderRow}
    (hnodup : (dbOrders.map OrderRow.clientOrderId).Nodup) (hmem : dbOrder ∈ dbOrders)
    (hlookedUp : dbOrder.clientOrderId ∈
      (reconcileMissingOrders config broker now db dbOrders).lookedUp)
    (hunknown : broker dbOrder.clientOrderId = .unknown)
    (hstatus : dbOrder.status = .submittedUnconfirmed)
    (hgrace : withinGrace config dbOrder now = false) :
    (reconcileMissingOrders config broker now db dbOrders).db.orders.find?
        dbOrder.clientOrderId =
      (db.orders.find? dbOrder.clientOrderId).map (casUpdate · (failedUpdate dbOrder) now) := by
  obtain ⟨before, later, rfl⟩ := List.append_of_mem hmem
  rw [List.map_append, List.map_cons, List.nodup_append, List.nodup_cons] at hnodup
  obtain ⟨_, ⟨hlater, _⟩, hbefore⟩ := hnodup
  have hne : ∀ d ∈ before, d.clientOrderId ≠ dbOrder.clientOrderId := fun d hd =>
    hbefore _ (List.mem_map_of_mem hd) _ (by simp)
  have hne' : ∀ d ∈ later, d.clientOrderId ≠ dbOrder.clientOrderId := fun d hd heq =>
    hlater (heq ▸ List.mem_map_of_mem hd)
  obtain ⟨hdb, hlooked⟩ := foldl_step_frame config broker now before ⟨db, 0, 0, 0, [], false⟩ hne
  generalize hs : before.foldl (MissingOrdersRun.step config broker now)
    ⟨db, 0, 0, 0, [], false⟩ = s at hdb hlooked
  obtain ⟨hdb', hlooked'⟩ :=
    foldl_step_frame config broker now later (s.step config broker now dbOrder) hne'
  rw [reconcileMissingOrders, List.foldl_append, List.foldl_cons, hs] at hlookedUp ⊢
  rw [hdb', ← hdb]
  rcases step_cases config broker now s dbOrder with ⟨_, hsame⟩ | ⟨_, hcase⟩
  · rw [hlooked', hsame, hlooked] at hlookedUp
    simp at hlookedUp
  · rcases hcase with ⟨hraised, _⟩ | ⟨brokerOrder, hfound, _⟩ | ⟨_, hfailing⟩
    · rw [hunknown] at hraised
      cases hraised
    · rw [hunknown] at hfound
      cases hfound
    · rw [hfailing, if_pos ⟨hstatus, hgrace⟩, updateOrderStatusCas_find?]

/-- The failing write is as old as the order; it is accepted only in a tie of the times, which the
terminal status wins. -/
theorem casAccepts_failedUpdate {u : CasUpdate} (hleft : LeftBy u dbOrder)
    (hstatus : u.status = .submittedUnconfirmed) (hrank : u.statusRank = statusRankFor u.status)
    (hlate : dbOrder.createdAt ≤ u.brokerUpdatedAt) :
    casAccepts dbOrder (failedUpdate dbOrder).key = true ↔
      u.brokerUpdatedAt = dbOrder.createdAt := by
  have hunlocked : casUnlocked dbOrder = true := by
    rw [casUnlocked, hleft.isTerminal, hstatus]
    rfl
  have htime : (failedUpdate dbOrder).key.brokerUpdatedAt = dbOrder.createdAt := rfl
  have hwins : (2 : Int) < (failedUpdate dbOrder).key.statusRank := by
    show (2 : Int) < 4
    decide
  have htwo : u.statusRank = 2 := by
    rw [hrank, hstatus]
    rfl
  rw [casAccepts_iff, casNewer, hleft.lastUpdatedAt, hleft.statusRank, htwo, htime]
  simp only [hunlocked, hwins, decide_true, Bool.true_or, Bool.and_true, Bool.or_eq_true,
    decide_eq_true_eq, true_and]
  exact or_iff_right (not_lt.mpr hlate)

/-- An unconfirmed order that the broker does not know is resolved exactly where it was marked at
the very instant of its creation. -/
theorem unconfirmed_resolved_iff (config : MissingOrdersConfig) (broker : String → OrderLookup)
    (now : Timestamp) (db : Database) (dbOrders : List OrderRow) (dbOrder : OrderRow)
    (u : CasUpdate) (hnodup : (dbOrders.map OrderRow.clientOrderId).Nodup)
    (hmem : dbOrder ∈ dbOrders) (hrow : db.orders.find? dbOrder.clientOrderId = some dbOrder)
    (hleft : LeftBy u dbOrder) (hstatus : u.status = .submittedUnconfirmed)
    (hrank : u.statusRank = statusRankFor u.status)
    (hlate : dbOrder.createdAt ≤ u.brokerUpdatedAt)
    (hunknown : broker dbOrder.clientOrderId = .unknown)
    (hgrace : withinGrace config dbOrder now = false)
    (hlookedUp : dbOrder.clientOrderId ∈
      (reconcileMissingOrders config broker now db dbOrders).lookedUp) :
    (MarkedFailed (reconcileMissingOrders config broker now db dbOrders).db
        dbOrder.clientOrderId ∧
      FailsOnlyLost config broker now db
        (reconcileMissingOrders config broker now db dbOrders).db dbOrders) ↔
      u.brokerUpdatedAt = dbOrder.createdAt := by
  have hopen : dbOrder.status = .submittedUnconfirmed := hleft.status.trans hstatus
  have hfind := find?_of_lookedUp hnodup hmem hlookedUp hunknown hopen hgrace
  rw [hrow, Option.map_some] at hfind
  have haccepts := casAccepts_failedUpdate hleft hstatus hrank hlate
  have hlost : FailsOnlyLost config broker now db
      (reconcileMissingOrders config broker now db dbOrders).db dbOrders :=
    failsOnlyLost_foldl dbOrders ⟨db, 0, 0, 0, [], false⟩
  rw [and_iff_left hlost, ← haccepts]
  constructor
  · intro ⟨row, hmarked, hfailed, _⟩
    rw [hfind] at hmarked
    cases hmarked
    by_contra hrefused
    rw [casUpdate_of_not_accepts hrefused, hopen] at hfailed
    cases hfailed
  · intro haccepted
    rw [casUpdate_of_accepts haccepted] at hfind
    exact ⟨_, hfind, rfl, rfl⟩

/-- The last write of a slice, a second after its creation. -/
def lateMark : CasUpdate := localUpdate .submittedUnconfirmed (some "b-1") (some "error") second

def unconfirmedRow : OrderRow := casApply (acceptedRow "o-1") lateMark second

def unconfirmedDb : Database :=
  (updateOrderStatusCas (acceptedOrder "o-1") "o-1" lateMark second).1

/-- The defaults of the function. -/
def defaultLookups : MissingOrdersConfig := ⟨none, 100, 300, true⟩

theorem unconfirmed_resolved_iff_lateMark :
    (MarkedFailed (reconcileMissingOrders defaultLookups (fun _ => .unknown) (600 * second)
        unconfirmedDb [unconfirmedRow]).db "o-1" ∧
      FailsOnlyLost defaultLookups (fun _ => .unknown) (600 * second) unconfirmedDb
        (reconcileMissingOrders defaultLookups (fun _ => .unknown) (600 * second)
          unconfirmedDb [unconfirmedRow]).db [unconfirmedRow]) ↔
      lateMark.brokerUpdatedAt = unconfirmedRow.createdAt :=
  unconfirmed_resolved_iff defaultLookups (fun _ => .unknown) (600 * second) unconfirmedDb
    [unconfirmedRow] unconfirmedRow lateMark (by decide) (by decide) (by decide)
    (leftBy_casApply _ _ _) rfl rfl (by decide) rfl (by decide) (by decide)

/-- Ten minutes later the order is looked up, and stays as it is. -/
theorem unconfirmed_order_stays :
    ¬MarkedFailed (reconcileMissingOrders defaultLookups (fun _ => .unknown) (600 * second)
      unconfirmedDb [unconfirmedRow]).db "o-1" := by
  intro ⟨row, hrow, hfailed, _⟩
  have hsame : (reconcileMissingOrders defaultLookups (fun _ => .unknown) (600 * second)
      unconfirmedDb [unconfirmedRow]).db.orders.find? "o-1" = some unconfirmedRow := by decide
  rw [hsame] at hrow
  cases hrow
  revert hfailed
  decide

end TradingPlatform.Gateway
