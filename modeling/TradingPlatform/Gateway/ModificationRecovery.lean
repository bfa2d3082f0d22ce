import TradingPlatform.Gateway.Modifications

/-! # Recovery of pending modifications

The reconciliation of modifications reads the stale pending records and asks the
broker for each replacement. It recovers a modification exactly when its record
is still pending and the insert of the replacement goes through: a record marked
after a failed third phase is never read, and a refused insert is swallowed
within the transaction that it aborts.
-/

namespace TradingPlatform.Gateway

open Base

/-! ## The broker -/

inductive Lookup where
  | raised
  | missing
  | found (b : BrokerOrder)
  deriving DecidableEq

/-- The broker's orders by client id: it answers with the order asked for, and no two of its
orders share an id. -/
structure Broker where
  lookup : String → Lookup
  asked : ∀ {cid b}, lookup cid = .found b → b.clientOrderId = cid
  id_inj : ∀ {cid cid' b b'}, lookup cid = .found b → lookup cid' = .found b' → b.id = b'.id →
    cid = cid'

theorem Broker.idOr_eq (broker : Broker) {cid : String} {b : BrokerOrder}
    (h : broker.lookup cid = .found b) : b.idOr cid = cid := by
  unfold BrokerOrder.idOr
  rw [broker.asked h, ite_self]

/-! ## Reconciliation -/

def WriteError.isIntegrityError : WriteError → Bool
  | .checkViolation | .uniqueViolation | .foreignKeyViolation => true
  | .programmingError | .validationError => false

/-- One record, with the broker's answer: the state after it and whether it counts as recovered.
An integrity error is ignored inside the transaction, which then commits; any other error rolls
back and ends the run. -/
def reconcileOne (s : Store) (m : Modification) (reply : Lookup) (now : Timestamp) :
    Store × Except Unit Bool :=
  match reply with
  | .raised => (s, .ok false)
  | .missing =>
      (updateModificationStatus s m.modificationId .failed
        (some "Replacement order not found at broker after timeout") now, .ok false)
  | .found b =>
      match s.db.orders.find? m.originalClientOrderId with
      | none =>
          (updateModificationStatus s m.modificationId .failed
            (some "Original order missing during modification recovery") now, .ok false)
      | some original =>
          match replacementStatements s m.modificationId m.originalClientOrderId
              (b.idOr m.newClientOrderId) original.strategyId
              (replacementRequest original m.changes) b now with
          | (t, .ok ()) => (t.commit, .ok true)
          | (t, .error (some e)) =>
              if e.isIntegrityError then (t.commit, .ok true) else (t.rollback, .error ())
          | (t, .error none) => (t.rollback, .error ())

/-- The records in order; the run ends where an exception is raised. -/
def reconcileAll (broker : Broker) (now : Timestamp) :
    List Modification → Store → Store × Except Unit Nat
  | [], s => (s, .ok 0)
  | m :: rest, s =>
      match reconcileOne s m (broker.lookup m.newClientOrderId) now with
      | (s, .error ()) => (s, .error ())
      | (s, .ok counted) =>
          let (s, recovered) := reconcileAll broker now rest s
          (s, recovered.map (· + counted.toNat))

def reconcilePendingModifications (broker : Broker) (staleAfter : Int) (now : Timestamp)
    (s : Store) : Store × Except Unit Nat :=
  reconcileAll broker now (getPendingModificationsOlderThan s (now - staleAfter)) s

/-! ## What one record does -/

/-- The replacement can be inserted. -/
structure Insertable (s : Store) (m : Modification) (b : BrokerOrder) : Prop where
  unseen : s.db.orders.find? m.newClientOrderId = none
  idFree : brokerIdTaken s.db b.id = false
  inVocabulary : b.status.orDefault.isSome

/-- A row after the transaction: the same links, and the same status or replaced. -/
def SameLinks (r r' : OrderRow) : Prop :=
  r'.replacedOrderId = r.replacedOrderId ∧ r'.brokerOrderId = r.brokerOrderId ∧
    (r.status = .replaced → r'.status = .replaced)

/-- The effect of the committed transaction. -/
structure Replaces (s s' : Store) (m : Modification) (b : BrokerOrder) : Prop where
  record : ∀ x, s.modifications.find? m.modificationId = some x →
    ∃ x', s'.modifications.find? m.modificationId = some x' ∧ x'.status = .completed ∧
      x'.newClientOrderId = m.newClientOrderId
  others : ∀ id ≠ m.modificationId, s'.modifications.find? id = s.modifications.find? id
  original : ∃ r, s'.db.orders.find? m.originalClientOrderId = some r ∧ r.status = .replaced
  inserted : ∃ r, s'.db.orders.find? m.newClientOrderId = some r ∧
    r.replacedOrderId = some m.originalClientOrderId ∧ r.brokerOrderId = some b.id
  kept : ∀ k r, s.db.orders.find? k = some r →
    ∃ r', s'.db.orders.find? k = some r' ∧ SameLinks r r'
  brought : ∀ k r', s'.db.orders.find? k = some r' → k ≠ m.newClientOrderId →
    ∃ r, s.db.orders.find? k = some r ∧ SameLinks r r'

theorem brokerIdTaken_iff {db : Database} {id : String} :
    brokerIdTaken db id = true ↔
      ∃ k r, db.orders.find? k = some r ∧ r.brokerOrderId = some id := by
  simp only [brokerIdTaken, List.any_eq_true, decide_eq_true_eq]
  constructor
  · rintro ⟨r, hr, hid⟩
    exact ⟨_, r, Table.find?_of_mem hr, hid⟩
  · rintro ⟨k, r, hr, hid⟩
    exact ⟨r, Table.find?_mem hr, hid⟩

/-- The row the second statement leaves. -/
def replacedRow (r : OrderRow) (now : Timestamp) : OrderRow :=
  { r with
    status := .replaced
    statusRank := some (statusRankFor .replaced)
    isTerminal := OrderStatus.replaced.terminal
    updatedAt := now }

theorem sameLinks_replacedRow (r : OrderRow) (now : Timestamp) :
    SameLinks r (replacedRow r now) := ⟨rfl, rfl, fun _ => rfl⟩

theorem sameLinks_refl (r : OrderRow) : SameLinks r r := ⟨rfl, rfl, id⟩

theorem markReplaced_find? (s : Store) (cid : String) (now : Timestamp) (k : String) :
    (markReplaced s cid now).db.orders.find? k =
      if k = cid then (s.db.orders.find? k).map (replacedRow · now)
      else s.db.orders.find? k := by
  change (s.db.updateOrder cid _).orders.find? k = _
  split
  · rename_i h
    rw [h, updateOrder_find?]
    rfl
  · rename_i h
    exact updateOrder_find?_ne _ _ _ h

/-- The state before the insert. -/
def completedStore (s : Store) (m : Modification) (b : BrokerOrder) (now : Timestamp) : Store :=
  markReplaced (finalizeModification s m.modificationId (some b.id) .completed
    (some m.newClientOrderId) now) m.originalClientOrderId now

theorem completedStore_find? (s : Store) (m : Modification) (b : BrokerOrder) (now : Timestamp)
    (k : String) : (completedStore s m b now).db.orders.find? k =
      if k = m.originalClientOrderId then (s.db.orders.find? k).map (replacedRow · now)
      else s.db.orders.find? k := markReplaced_find? _ _ _ _

theorem insertable_completedStore {s : Store} {m : Modification} {b : BrokerOrder}
    {now : Timestamp} : Insertable (completedStore s m b now) m b ↔ Insertable s m b := by
  have hlinks : ∀ k, ((completedStore s m b now).db.orders.find? k).map (·.brokerOrderId) =
      (s.db.orders.find? k).map (·.brokerOrderId) := by
    intro k
    rw [completedStore_find?]
    split
    · rw [Option.map_map]
      rfl
    · rfl
  have hunseen : (completedStore s m b now).db.orders.find? m.newClientOrderId = none ↔
      s.db.orders.find? m.newClientOrderId = none := by
    rw [← Option.map_eq_none_iff, hlinks, Option.map_eq_none_iff]
  have htaken : brokerIdTaken (completedStore s m b now).db b.id = brokerIdTaken s.db b.id := by
    rw [Bool.eq_iff_iff, brokerIdTaken_iff, brokerIdTaken_iff]
    apply exists_congr
    intro k
    rw [← Option.map_eq_some_iff, hlinks, Option.map_eq_some_iff]
  constructor
  · intro h
    exact ⟨hunseen.mp h.unseen, htaken ▸ h.idFree, h.inVocabulary⟩
  · intro h
    exact ⟨hunseen.mpr h.unseen, htaken ▸ h.idFree, h.inVocabulary⟩

theorem insertReplacementIn_isOk_iff {s : Store} {m : Modification} {b : BrokerOrder}
    {strategy : String} {request : OrderRequest} {now : Timestamp}
    (horiginal : (s.db.orders.find? m.originalClientOrderId).isSome) :
    (∃ s', insertReplacementIn s m.newClientOrderId m.originalClientOrderId strategy request b
      now = .ok s') ↔ Insertable s m b := by
  constructor
  · intro ⟨s', h⟩
    obtain ⟨hidFree, hunseen, status, hstatus, -⟩ :=
      insertReplacement_ok (insertReplacementIn_ok h).1
    exact ⟨hunseen, hidFree, hstatus ▸ rfl⟩
  · intro h
    obtain ⟨status, hstatus⟩ := Option.isSome_iff_exists.mp h.inVocabulary
    obtain ⟨db', hdb'⟩ :=
      insertReplacement_of_fresh strategy request now h.idFree h.unseen hstatus horiginal
    unfold insertReplacementIn
    split
    · exact ⟨_, rfl⟩
    · rename_i hdb
      rw [hdb'] at hdb
      cases hdb

theorem replaces_of_insert {s s' : Store} {m : Modification} {b : BrokerOrder}
    {strategy : String} {request : OrderRequest} {now : Timestamp}
    (horiginal : (s.db.orders.find? m.originalClientOrderId).isSome)
    (h : insertReplacementIn (completedStore s m b now) m.newClientOrderId
      m.originalClientOrderId strategy request b now = .ok s') : Replaces s s' m b := by
  obtain ⟨hinsert, hmods⟩ := insertReplacementIn_ok h
  obtain ⟨-, hunseen, status, -, hrows⟩ := insertReplacement_ok hinsert
  have hfind : ∀ k, s'.db.orders.find? k = if k = m.newClientOrderId then
      some (replacementRow m.newClientOrderId m.originalClientOrderId strategy request status
        b.id now) else (completedStore s m b now).db.orders.find? k := Table.find?_insert hrows
  have hold := completedStore_find? s m b now
  have hne : m.originalClientOrderId ≠ m.newClientOrderId := by
    intro he
    rw [hold, if_pos he.symm, Option.map_eq_none_iff, ← he] at hunseen
    rw [hunseen] at horiginal
    cases horiginal
  constructor
  · intro x hx
    have hx' := updateModification_find? s m.modificationId (fun y =>
      { y with
        newBrokerOrderId := some b.id
        newClientOrderId := m.newClientOrderId
        status := .completed
        modifiedAt := now
        errorMessage := none })
    rw [hx] at hx'
    rw [hmods]
    exact ⟨_, hx', rfl, rfl⟩
  · intro id hid
    rw [hmods]
    exact updateModification_find?_ne _ _ hid
  · obtain ⟨r, hr⟩ := Option.isSome_iff_exists.mp horiginal
    refine ⟨replacedRow r now, ?_, rfl⟩
    rw [hfind, if_neg hne, hold, if_pos rfl, hr]
    rfl
  · rw [hfind, if_pos rfl]
    exact ⟨_, rfl, rfl, rfl⟩
  · intro k r hr
    have hk : k ≠ m.newClientOrderId := by
      rintro rfl
      rw [hold, hr] at hunseen
      split at hunseen <;> cases hunseen
    rw [hfind, if_neg hk, hold, hr]
    split
    · exact ⟨_, rfl, sameLinks_replacedRow r now⟩
    · exact ⟨_, rfl, sameLinks_refl r⟩
  · intro k r' hr' hk
    rw [hfind, if_neg hk, hold] at hr'
    split at hr'
    · obtain ⟨r, hr, rfl⟩ := Option.map_eq_some_iff.mp hr'
      exact ⟨r, hr, sameLinks_replacedRow r now⟩
    · exact ⟨r', hr', sameLinks_refl r'⟩

/-- With an answer from the broker a record is recovered exactly when the replacement can be
inserted; otherwise nothing happens. -/
theorem reconcileOne_found {s : Store} {m : Modification} {b : BrokerOrder} (now : Timestamp)
    (horiginal : (s.db.orders.find? m.originalClientOrderId).isSome)
    (hid : b.idOr m.newClientOrderId = m.newClientOrderId) :
    (Insertable s m b ∧ (reconcileOne s m (.found b) now).2 = .ok true ∧
        Replaces s (reconcileOne s m (.found b) now).1 m b) ∨
      (¬ Insertable s m b ∧ (reconcileOne s m (.found b) now).1 = s) := by
  obtain ⟨original, hfind⟩ := Option.isSome_iff_exists.mp horiginal
  let insert (u : Store) := insertReplacementIn u m.newClientOrderId m.originalClientOrderId
    original.strategyId (replacementRequest original m.changes) b now
  have hstatements : replacementStatements s m.modificationId m.originalClientOrderId
      m.newClientOrderId original.strategyId (replacementRequest original m.changes) b now =
        Transaction.attempt insert ⟨s, completedStore s m b now, false⟩ := rfl
  have hexists : ((completedStore s m b now).db.orders.find? m.originalClientOrderId).isSome := by
    rw [completedStore_find?, if_pos rfl, Option.isSome_map]
    exact horiginal
  have hiff : (∃ s', insert (completedStore s m b now) = .ok s') ↔ Insertable s m b :=
    (insertReplacementIn_isOk_iff hexists).trans insertable_completedStore
  unfold reconcileOne
  simp only [hfind, hid, hstatements]
  cases hresult : insert (completedStore s m b now) with
  | ok s' =>
      left
      rw [Transaction.attempt_ok hresult]
      exact ⟨hiff.mp ⟨s', hresult⟩, rfl, replaces_of_insert horiginal hresult⟩
  | error e =>
      right
      rw [Transaction.attempt_error hresult]
      constructor
      · intro hins
        obtain ⟨s', hs'⟩ := hiff.mpr hins
        rw [hresult] at hs'
        cases hs'
      · -- The commit of the aborted transaction restores the state, as the rollback does.
        show (if e.isIntegrityError then (s, Except.ok true) else (s, Except.error ())).1 = s
        split
        · rfl
        · rfl

/-! ## Recovered modifications -/

/-- The record is completed, the original replaced, and there is exactly one replacement row. -/
structure Recovered (s : Store) (m : Modification) : Prop where
  record : ∃ x, s.modifications.find? m.modificationId = some x ∧ x.status = .completed ∧
    x.newClientOrderId = m.newClientOrderId
  original : ∃ r, s.db.orders.find? m.originalClientOrderId = some r ∧ r.status = .replaced
  replacement : ∃! r, r ∈ s.db.orders.rows ∧ r.clientOrderId = m.newClientOrderId ∧
    r.replacedOrderId = some m.originalClientOrderId

/-- An open record that still stands is not recovered. -/
theorem not_recovered {s : Store} {m : Modification}
    (hrecord : s.modifications.find? m.modificationId = some m) (hopen : m.status ≠ .completed) :
    ¬ Recovered s m := by
  intro h
  obtain ⟨x, hx, hcompleted, -⟩ := h.record
  rw [hrecord] at hx
  cases hx
  exact hopen hcompleted

theorem Replaces.recovered {s s' : Store} {m : Modification} {b : BrokerOrder}
    (h : Replaces s s' m b) (hrecord : (s.modifications.find? m.modificationId).isSome) :
    Recovered s' m := by
  obtain ⟨x, hx⟩ := Option.isSome_iff_exists.mp hrecord
  obtain ⟨r, hr, hreplaced, -⟩ := h.inserted
  exact ⟨h.record x hx, h.original, Table.existsUnique_iff.mpr ⟨r, hr, hreplaced⟩⟩

/-- The transaction of one modification leaves the others recovered. -/
theorem Replaces.keeps_recovered {s s' : Store} {m y : Modification} {b : BrokerOrder}
    (h : Replaces s s' m b) (hne : y.modificationId ≠ m.modificationId) (hy : Recovered s y) :
    Recovered s' y := by
  constructor
  · rw [h.others _ hne]
    exact hy.record
  · obtain ⟨r, hr, hreplaced⟩ := hy.original
    obtain ⟨r', hr', -, -, hstatus⟩ := h.kept _ r hr
    exact ⟨r', hr', hstatus hreplaced⟩
  · obtain ⟨r, hr, hlink⟩ := Table.existsUnique_iff.mp hy.replacement
    obtain ⟨r', hr', hlink', -⟩ := h.kept _ r hr
    exact Table.existsUnique_iff.mpr ⟨r', hr', hlink'.trans hlink⟩

theorem Replaces.insertable_before {s s' : Store} {m y : Modification} {b b' : BrokerOrder}
    (h : Replaces s s' m b) (hy : Insertable s' y b') : Insertable s y b' := by
  refine ⟨?_, ?_, hy.inVocabulary⟩
  · cases hfind : s.db.orders.find? y.newClientOrderId with
    | none => rfl
    | some r =>
        obtain ⟨r', hr', -⟩ := h.kept _ r hfind
        rw [hy.unseen] at hr'
        cases hr'
  · rw [← Bool.not_eq_true, brokerIdTaken_iff]
    rintro ⟨k, r, hr, hid⟩
    obtain ⟨r', hr', -, hid', -⟩ := h.kept _ r hr
    have htaken := brokerIdTaken_iff.mpr ⟨k, r', hr', hid'.trans hid⟩
    rw [hy.idFree] at htaken
    cases htaken

theorem Replaces.insertable_after {s s' : Store} {m y : Modification} {b b' : BrokerOrder}
    (h : Replaces s s' m b) (hy : Insertable s y b')
    (hnew : y.newClientOrderId ≠ m.newClientOrderId) (hid : b'.id ≠ b.id) :
    Insertable s' y b' := by
  refine ⟨?_, ?_, hy.inVocabulary⟩
  · cases hfind : s'.db.orders.find? y.newClientOrderId with
    | none => rfl
    | some r' =>
        obtain ⟨r, hr, -⟩ := h.brought _ r' hfind hnew
        rw [hy.unseen] at hr
        cases hr
  · rw [← Bool.not_eq_true, brokerIdTaken_iff]
    rintro ⟨k, r', hr', hid'⟩
    by_cases hk : k = m.newClientOrderId
    · obtain ⟨r, hr, -, hbroker⟩ := h.inserted
      rw [hk, hr] at hr'
      cases hr'
      rw [hbroker] at hid'
      exact hid (Option.some.inj hid').symm
    · obtain ⟨r, hr, -, hsame, -⟩ := h.brought k r' hr' hk
      have htaken := brokerIdTaken_iff.mpr ⟨k, r, hr, hsame ▸ hid'⟩
      rw [hy.idFree] at htaken
      cases htaken

/-- What one record can do to the state: nothing, its mark as failed, or its transaction. -/
theorem reconcileOne_cases (broker : Broker) (s : Store) (m : Modification) (now : Timestamp)
    (horiginal : (s.db.orders.find? m.originalClientOrderId).isSome) :
    let s' := (reconcileOne s m (broker.lookup m.newClientOrderId) now).1
    (s' = s ∧ ∀ b, broker.lookup m.newClientOrderId = .found b → ¬ Insertable s m b) ∨
    (broker.lookup m.newClientOrderId = .missing ∧
      ∃ message, s' = updateModificationStatus s m.modificationId .failed message now) ∨
    (∃ b, broker.lookup m.newClientOrderId = .found b ∧ Insertable s m b ∧ Replaces s s' m b ∧
      (reconcileOne s m (broker.lookup m.newClientOrderId) now).2 = .ok true) := by
  intro s'
  cases hreply : broker.lookup m.newClientOrderId with
  | raised =>
      left
      refine ⟨?_, fun b hb => by cases hb⟩
      simp only [s', hreply, reconcileOne]
  | missing =>
      right
      left
      refine ⟨rfl, some "Replacement order not found at broker after timeout", ?_⟩
      simp only [s', hreply, reconcileOne]
  | found b =>
      have hone := reconcileOne_found now horiginal (broker.idOr_eq hreply)
      rcases hone with ⟨hins, hok, hreplaces⟩ | ⟨hins, hsame⟩
      · right
        right
        simp only [s', hreply]
        exact ⟨b, rfl, hins, hreplaces, hok⟩
      · left
        simp only [s', hreply]
        refine ⟨hsame, ?_⟩
        rintro b' ⟨⟩
        exact hins

/-! ## What a list of records does -/

/-- Records of the table, each once, as they were read. -/
structure Selected (s : Store) (ms : List Modification) : Prop where
  records : ∀ m ∈ ms, s.modifications.find? m.modificationId = some m
  nodup : (ms.map (·.modificationId)).Nodup

section Loop

variable (broker : Broker) {s : Store} {m : Modification} {ms : List Modification}
  (now : Timestamp)

/-- The state after the first record. -/
def afterOne (broker : Broker) (s : Store) (m : Modification) (now : Timestamp) : Store :=
  (reconcileOne s m (broker.lookup m.newClientOrderId) now).1

def afterAll (broker : Broker) (s : Store) (ms : List Modification) (now : Timestamp) : Store :=
  (reconcileAll broker now ms s).1

/-- The run goes on after the first record, or ends with it. -/
theorem afterAll_cons (s : Store) (m : Modification) (ms : List Modification) :
    afterAll broker s (m :: ms) now = afterAll broker (afterOne broker s m now) ms now ∨
      afterAll broker s (m :: ms) now = afterOne broker s m now := by
  unfold afterAll afterOne
  simp only [reconcileAll]
  split
  · right
    simp_all
  · left
    simp_all

theorem afterAll_cons_of_ok {counted : Bool}
    (h : (reconcileOne s m (broker.lookup m.newClientOrderId) now).2 = .ok counted) :
    afterAll broker s (m :: ms) now = afterAll broker (afterOne broker s m now) ms now := by
  unfold afterAll afterOne
  simp only [reconcileAll]
  split
  · simp_all
  · simp_all

theorem Selected.original_exists (h : Selected s (m :: ms)) :
    (s.db.orders.find? m.originalClientOrderId).isSome :=
  s.original_exists m (Table.find?_mem (h.records m List.mem_cons_self))

theorem afterOne_record_ne (h : Selected s (m :: ms)) {id : String} (hne : id ≠ m.modificationId) :
    (afterOne broker s m now).modifications.find? id = s.modifications.find? id := by
  rcases reconcileOne_cases broker s m now h.original_exists with
    ⟨hsame, -⟩ | ⟨-, message, hfailed⟩ | ⟨b, -, -, hreplaces, -⟩
  · rw [afterOne, hsame]
  · rw [afterOne, hfailed]
    exact updateModification_find?_ne _ _ hne
  · exact hreplaces.others id hne

theorem afterOne_recovered (h : Selected s (m :: ms)) {y : Modification}
    (hne : y.modificationId ≠ m.modificationId) (hy : Recovered s y) :
    Recovered (afterOne broker s m now) y := by
  rcases reconcileOne_cases broker s m now h.original_exists with
    ⟨hsame, -⟩ | ⟨-, message, hfailed⟩ | ⟨b, -, -, hreplaces, -⟩
  · rw [afterOne, hsame]
    exact hy
  · refine ⟨?_, ?_, ?_⟩
    · rw [afterOne_record_ne broker now h hne]
      exact hy.record
    · rw [afterOne, hfailed]
      exact hy.original
    · rw [afterOne, hfailed]
      exact hy.replacement
  · exact hreplaces.keeps_recovered hne hy

theorem Selected.ne_of_mem (h : Selected s (m :: ms)) {y : Modification} (hy : y ∈ ms) :
    y.modificationId ≠ m.modificationId := by
  intro he
  have hmem := List.mem_map_of_mem (f := (·.modificationId)) hy
  rw [he] at hmem
  exact (List.nodup_cons.mp h.nodup).1 hmem

theorem Selected.tail (h : Selected s (m :: ms)) : Selected (afterOne broker s m now) ms := by
  refine ⟨?_, (List.nodup_cons.mp h.nodup).2⟩
  intro y hy
  rw [afterOne_record_ne broker now h (h.ne_of_mem hy)]
  exact h.records y (List.mem_cons_of_mem m hy)

/-- A record outside the list is left alone. -/
theorem afterAll_record_ne (h : Selected s ms) {id : String}
    (hne : ∀ m ∈ ms, id ≠ m.modificationId) :
    (afterAll broker s ms now).modifications.find? id = s.modifications.find? id := by
  induction ms generalizing s with
  | nil => rfl
  | cons m ms ih =>
      have hone := afterOne_record_ne broker now h (hne m List.mem_cons_self)
      rcases afterAll_cons broker now s m ms with hall | hall
      · rw [hall, ih (h.tail broker now) fun y hy => hne y (List.mem_cons_of_mem m hy), hone]
      · rw [hall, hone]

theorem afterAll_recovered (h : Selected s ms) {y : Modification}
    (hne : ∀ m ∈ ms, y.modificationId ≠ m.modificationId) (hy : Recovered s y) :
    Recovered (afterAll broker s ms now) y := by
  induction ms generalizing s with
  | nil => exact hy
  | cons m ms ih =>
      have hone := afterOne_recovered broker now h (hne m List.mem_cons_self) hy
      rcases afterAll_cons broker now s m ms with hall | hall
      · rw [hall]
        exact ih (h.tail broker now) (fun x hx => hne x (List.mem_cons_of_mem m hx)) hone
      · rw [hall]
        exact hone

/-- A record that the run recovers could be inserted before it. -/
theorem insertable_of_recovered (h : Selected s ms) {y : Modification} (hy : y ∈ ms)
    (hopen : y.status ≠ .completed) {b : BrokerOrder}
    (hfound : broker.lookup y.newClientOrderId = .found b)
    (hrecovered : Recovered (afterAll broker s ms now) y) : Insertable s y b := by
  induction ms generalizing s with
  | nil => cases hy
  | cons m ms ih =>
      have hrecord := h.records y hy
      have htail := h.tail broker now
      have hcases := reconcileOne_cases broker s m now h.original_exists
      rcases List.mem_cons.mp hy with rfl | hmem
      · rcases hcases with ⟨hsame, -⟩ | ⟨hmissing, -⟩ | ⟨b', hfound', hins, -⟩
        · -- Nothing happened to the record, and nothing happens to it later.
          have hread : (afterAll broker s (y :: ms) now).modifications.find? y.modificationId =
              some y := by
            rcases afterAll_cons broker now s y ms with
              hall | hall
            · rw [hall, afterAll_record_ne broker now htail fun x hx => (h.ne_of_mem hx).symm,
                afterOne, hsame, hrecord]
            · rw [hall, afterOne, hsame, hrecord]
          exact absurd hrecovered (not_recovered hread hopen)
        · rw [hfound] at hmissing
          cases hmissing
        · rw [hfound] at hfound'
          cases hfound'
          exact hins
      · have hne := h.ne_of_mem hmem
        have hone := afterOne_record_ne broker now h hne
        rcases afterAll_cons broker now s m ms with hall | hall
        · rw [hall] at hrecovered
          have hins := ih htail hmem hrecovered
          rcases hcases with ⟨hsame, -⟩ | ⟨-, message, hfailed⟩ | ⟨b', -, -, hreplaces, -⟩
          · rw [afterOne, hsame] at hins
            exact hins
          · rw [afterOne, hfailed] at hins
            exact ⟨hins.unseen, hins.idFree, hins.inVocabulary⟩
          · exact hreplaces.insertable_before hins
        · rw [hall] at hrecovered
          exact absurd hrecovered (not_recovered (hone.trans hrecord) hopen)

/-- Not two answered records with one new id. -/
def Apart (broker : Broker) (x y : Modification) : Prop :=
  x.newClientOrderId = y.newClientOrderId → ∀ b, broker.lookup x.newClientOrderId ≠ .found b

instance (broker : Broker) : Std.Symm (Apart broker) :=
  ⟨fun _ _ h he b hb => h he.symm b (he ▸ hb)⟩

/-- Every answered record can be inserted, and no two of them share their new id. -/
structure Ready (broker : Broker) (s : Store) (ms : List Modification) : Prop where
  insertable : ∀ m ∈ ms, ∀ b, broker.lookup m.newClientOrderId = .found b → Insertable s m b
  distinct : ms.Pairwise (Apart broker)

theorem Ready.tail (h : Selected s (m :: ms)) (hready : Ready broker s (m :: ms)) :
    Ready broker (afterOne broker s m now) ms := by
  have hdistinct := List.pairwise_cons.mp hready.distinct
  refine ⟨?_, hdistinct.2⟩
  intro y hy b' hb'
  have hins := hready.insertable y (List.mem_cons_of_mem m hy) b' hb'
  rcases reconcileOne_cases broker s m now h.original_exists with
    ⟨hsame, -⟩ | ⟨-, message, hfailed⟩ | ⟨b, hb, -, hreplaces, -⟩
  · rw [afterOne, hsame]
    exact hins
  · rw [afterOne, hfailed]
    exact ⟨hins.unseen, hins.idFree, hins.inVocabulary⟩
  · have hnew : y.newClientOrderId ≠ m.newClientOrderId := fun he =>
      hdistinct.1 y hy he.symm b hb
    exact hreplaces.insertable_after hins hnew fun hid => hnew (broker.id_inj hb' hb hid)

/-- What becomes of a record, by the broker's answer. -/
def Outcome (broker : Broker) (after : Store) (m : Modification) : Prop :=
  match broker.lookup m.newClientOrderId with
  | .raised => after.modifications.find? m.modificationId = some m
  | .missing => ∃ x, after.modifications.find? m.modificationId = some x ∧ x.status = .failed
  | .found _ => Recovered after m

theorem afterOne_outcome (h : Selected s (m :: ms)) (hready : Ready broker s (m :: ms)) :
    Outcome broker (afterOne broker s m now) m ∧
      ∃ counted, (reconcileOne s m (broker.lookup m.newClientOrderId) now).2 = .ok counted := by
  have hrecord := h.records m List.mem_cons_self
  unfold Outcome
  cases hreply : broker.lookup m.newClientOrderId with
  | raised =>
      refine ⟨?_, false, rfl⟩
      simp only [afterOne, hreply, reconcileOne]
      exact hrecord
  | missing =>
      refine ⟨?_, false, rfl⟩
      simp only [afterOne, hreply, reconcileOne, updateModificationStatus,
        updateModification_find?, hrecord]
      exact ⟨_, rfl, rfl⟩
  | found b =>
      have hins := hready.insertable m List.mem_cons_self b hreply
      rcases reconcileOne_found now h.original_exists (broker.idOr_eq hreply) with
        ⟨-, hok, hreplaces⟩ | ⟨hnot, -⟩
      · refine ⟨?_, true, hok⟩
        simp only [afterOne, hreply]
        exact hreplaces.recovered (hrecord ▸ rfl)
      · exact absurd hins hnot

theorem afterAll_outcome (h : Selected s ms) (hready : Ready broker s ms) :
    ∀ m ∈ ms, Outcome broker (afterAll broker s ms now) m := by
  induction ms generalizing s with
  | nil => exact fun _ hm => absurd hm List.not_mem_nil
  | cons m ms ih =>
      have htail := h.tail broker now
      have ⟨hone, counted, hok⟩ := afterOne_outcome broker now h hready
      rw [afterAll_cons_of_ok broker now hok, List.forall_mem_cons]
      refine ⟨?_, ih htail (hready.tail broker now h)⟩
      have hout : ∀ x ∈ ms, m.modificationId ≠ x.modificationId := fun x hx =>
        (h.ne_of_mem hx).symm
      unfold Outcome at hone ⊢
      split at hone
      · rw [afterAll_record_ne broker now htail hout]
        exact hone
      · rw [afterAll_record_ne broker now htail hout]
        exact hone
      · exact afterAll_recovered broker now htail hout hone

/-- Of two answered records with one new id only the first is recovered. -/
theorem distinct_of_recovered (h : Selected s ms) (hopen : ∀ m ∈ ms, m.status ≠ .completed)
    (hall : ∀ m ∈ ms, ∀ b, broker.lookup m.newClientOrderId = .found b →
      Recovered (afterAll broker s ms now) m) :
    ms.Pairwise (Apart broker) := by
  induction ms generalizing s with
  | nil => exact List.Pairwise.nil
  | cons m ms ih =>
      have htail := h.tail broker now
      rw [List.forall_mem_cons] at hopen
      rw [List.pairwise_cons]
      have hhead : ∀ b, broker.lookup m.newClientOrderId = .found b → Insertable s m b := by
        intro b hb
        exact insertable_of_recovered broker now h List.mem_cons_self hopen.1 hb
          (hall m List.mem_cons_self b hb)
      rcases afterAll_cons broker now s m ms with hrun | hrun
      · rw [hrun, List.forall_mem_cons] at hall
        refine ⟨?_, ih htail hopen.2 hall.2⟩
        intro y hy hnew b hb
        have hins := insertable_of_recovered broker now htail hy (hopen.2 y hy) (hnew ▸ hb)
          (hall.2 y hy b (hnew ▸ hb))
        -- The row of the first one is there when the second one is to be inserted.
        rcases reconcileOne_found now h.original_exists (broker.idOr_eq hb) with
          ⟨-, -, hreplaces⟩ | ⟨hnot, -⟩
        · obtain ⟨r, hr, -⟩ := hreplaces.inserted
          have hunseen := hins.unseen
          simp only [afterOne, hb, ← hnew, hr] at hunseen
          cases hunseen
        · exact hnot (hhead b hb)
      · -- The run ended at the first record, so no later one was answered.
        have hnone : ∀ y ∈ ms, ∀ b, broker.lookup y.newClientOrderId ≠ .found b := by
          intro y hy b hb
          have hrecovered := hall y (List.mem_cons_of_mem m hy) b hb
          rw [hrun] at hrecovered
          exact not_recovered (htail.records y hy) (hopen.2 y hy) hrecovered
        constructor
        · intro y hy hnew b hb
          exact hnone y hy b (hnew ▸ hb)
        · exact List.pairwise_of_forall_mem_list fun x hx y _ _ b => hnone x hx b

end Loop

/-! ## A whole run -/

theorem mem_getPendingModifications {s : Store} {cutoff : Timestamp} {m : Modification} :
    m ∈ getPendingModificationsOlderThan s cutoff ↔
      m ∈ s.modifications.rows ∧ m.status = .pending ∧ m.modifiedAt < cutoff := by
  rw [getPendingModificationsOlderThan, List.mem_insertionSort, Table.select, List.mem_filter,
    Bool.and_eq_true, decide_eq_true_eq, decide_eq_true_eq]

theorem selected_getPendingModifications (s : Store) (cutoff : Timestamp) :
    Selected s (getPendingModificationsOlderThan s cutoff) := by
  constructor
  · intro m hm
    exact Table.find?_of_mem (mem_getPendingModifications.mp hm).1
  · have hperm := (List.perm_insertionSort (fun a b : Modification => a.modifiedAt ≤ b.modifiedAt)
      (s.modifications.select fun m => m.status = .pending && m.modifiedAt < cutoff)).map
        (·.modificationId)
    rw [getPendingModificationsOlderThan, hperm.nodup_iff]
    exact s.modifications.keys_nodup.sublist (List.filter_sublist.map _)

/-- Every stale modification whose replacement the broker returns is recovered by one run, and
a further run over no other records changes nothing. -/
def RecoveryComplete (broker : Broker) (staleAfter : Int) (now : Timestamp) (s : Store) : Prop :=
  let after := (reconcilePendingModifications broker staleAfter now s).1
  (∀ m ∈ s.modifications.rows, m.modifiedAt < now - staleAfter →
    ∀ b, broker.lookup m.newClientOrderId = .found b →
      (m.status = .completed → Recovered s m) → Recovered after m) ∧
  ∀ later, (∀ m ∈ s.modifications.rows, m.modifiedAt < later - staleAfter →
      m.modifiedAt < now - staleAfter) →
    (reconcilePendingModifications broker staleAfter later after).1 = after

/-- The record is pending, its replacement can be inserted, and no other stale pending record
has its new id. -/
def Recoverable (staleAfter : Int) (now : Timestamp) (s : Store) (m : Modification)
    (b : BrokerOrder) : Prop :=
  m.status = .pending ∧ Insertable s m b ∧
    ∀ y ∈ s.modifications.rows, y.status = .pending → y.modifiedAt < now - staleAfter →
      y.newClientOrderId = m.newClientOrderId → y = m

def AllRecoverable (broker : Broker) (staleAfter : Int) (now : Timestamp) (s : Store) : Prop :=
  ∀ m ∈ s.modifications.rows, m.modifiedAt < now - staleAfter → m.status ≠ .completed →
    ∀ b, broker.lookup m.newClientOrderId = .found b → Recoverable staleAfter now s m b

section Run

variable {broker : Broker} {staleAfter : Int} {now : Timestamp} {s : Store}

theorem afterAll_of_raised {ms : List Modification}
    (h : ∀ m ∈ ms, broker.lookup m.newClientOrderId = .raised) : afterAll broker s ms now = s := by
  induction ms with
  | nil => rfl
  | cons m ms ih =>
      rw [List.forall_mem_cons] at h
      have hone : reconcileOne s m (broker.lookup m.newClientOrderId) now = (s, .ok false) := by
        rw [h.1]
        rfl
      rw [afterAll_cons_of_ok broker now (congrArg Prod.snd hone), afterOne, hone]
      exact ih h.2

/-- A row of the table under the id of a selected record is that record. -/
theorem eq_of_selected_id {ms : List Modification} (h : Selected s ms) {m x : Modification}
    (hm : m ∈ s.modifications.rows) (hx : x ∈ ms) (hid : m.modificationId = x.modificationId) :
    m = x := by
  have hfind := Table.find?_of_mem hm
  rw [hid, h.records x hx] at hfind
  exact (Option.some.inj hfind).symm

/-- Only pending records are read. -/
theorem not_selected {m : Modification} (hm : m ∈ s.modifications.rows)
    (hread : m.status ≠ .pending) {cutoff : Timestamp} :
    ∀ x ∈ getPendingModificationsOlderThan s cutoff, m.modificationId ≠ x.modificationId := by
  intro x hx hid
  rw [eq_of_selected_id (selected_getPendingModifications s cutoff) hm hx hid] at hread
  exact hread (mem_getPendingModifications.mp hx).2.1

/-- A record that is not pending, one marked after a failed third phase say, stays as it is. -/
theorem reconcile_leaves (broker : Broker) (staleAfter : Int) (now : Timestamp)
    {m : Modification} (hm : m ∈ s.modifications.rows) (hread : m.status ≠ .pending) :
    m ∈ (reconcilePendingModifications broker staleAfter now s).1.modifications.rows := by
  have hrecord := afterAll_record_ne broker now
    (selected_getPendingModifications s (now - staleAfter)) (not_selected hm hread)
  rw [Table.find?_of_mem hm] at hrecord
  exact Table.find?_mem hrecord

theorem allRecoverable_of_complete (h : RecoveryComplete broker staleAfter now s) :
    AllRecoverable broker staleAfter now s := by
  have hsel := selected_getPendingModifications s (now - staleAfter)
  have hopen : ∀ m ∈ getPendingModificationsOlderThan s (now - staleAfter),
      m.status ≠ .completed := by
    intro m hm
    rw [(mem_getPendingModifications.mp hm).2.1]
    decide
  intro m hm hstale hopenm b hb
  have hrecovered := h.1 m hm hstale b hb fun hdone => absurd hdone hopenm
  have hpending : m.status = .pending := by
    by_contra hnot
    have hrecord := Table.find?_of_mem (reconcile_leaves broker staleAfter now hm hnot)
    exact not_recovered hrecord hopenm hrecovered
  have hmem := mem_getPendingModifications.mpr ⟨hm, hpending, hstale⟩
  refine ⟨hpending, insertable_of_recovered broker now hsel hmem hopenm hb hrecovered, ?_⟩
  have hdistinct := distinct_of_recovered broker now hsel hopen fun x hx c hc => by
    have hx' := mem_getPendingModifications.mp hx
    exact h.1 x hx'.1 hx'.2.2 c hc fun hdone => absurd hdone (hopen x hx)
  intro y hy hypending hystale hnew
  by_contra hne
  have hmemy := mem_getPendingModifications.mpr ⟨hy, hypending, hystale⟩
  exact hdistinct.forall hmemy hmem hne hnew b (hnew ▸ hb)

theorem ready_of_allRecoverable (h : AllRecoverable broker staleAfter now s) :
    Ready broker s (getPendingModificationsOlderThan s (now - staleAfter)) := by
  have hat : ∀ m ∈ getPendingModificationsOlderThan s (now - staleAfter), ∀ b,
      broker.lookup m.newClientOrderId = .found b → Recoverable staleAfter now s m b := by
    intro m hm b hb
    have ⟨hrow, hpending, hstale⟩ := mem_getPendingModifications.mp hm
    exact h m hrow hstale (by rw [hpending]; decide) b hb
  refine ⟨fun m hm b hb => (hat m hm b hb).2.1, ?_⟩
  have hnodup : (getPendingModificationsOlderThan s (now - staleAfter)).Nodup :=
    (selected_getPendingModifications s _).nodup.of_map _
  apply hnodup.pairwise_of_forall_ne
  intro x hx y hy hne hnew b hb
  have ⟨hrow, hpending, hstale⟩ := mem_getPendingModifications.mp hy
  exact hne ((hat x hx b hb).2.2 y hrow hpending hstale hnew.symm).symm

theorem complete_of_allRecoverable (h : AllRecoverable broker staleAfter now s) :
    RecoveryComplete broker staleAfter now s := by
  have hsel := selected_getPendingModifications s (now - staleAfter)
  have houtcome := afterAll_outcome broker now hsel (ready_of_allRecoverable h)
  constructor
  · intro m hm hstale b hb hdone
    by_cases hpending : m.status = .pending
    · have hmem := mem_getPendingModifications.mpr ⟨hm, hpending, hstale⟩
      have hout := houtcome m hmem
      rw [Outcome, hb] at hout
      exact hout
    · have hcompleted : m.status = .completed := by
        by_contra hopen
        exact hpending (h m hm hstale hopen b hb).1
      exact afterAll_recovered broker now hsel (not_selected hm hpending) (hdone hcompleted)
  · intro later hlater
    apply afterAll_of_raised
    intro y hy
    have ⟨hrow, hpending, hstale⟩ := mem_getPendingModifications.mp hy
    have hfind := Table.find?_of_mem hrow
    by_cases hid : ∃ x ∈ getPendingModificationsOlderThan s (now - staleAfter),
        x.modificationId = y.modificationId
    · obtain ⟨x, hx, hid⟩ := hid
      have hout := houtcome x hx
      rw [← hid] at hfind
      unfold Outcome at hout
      split at hout
      · rename_i hraised
        change (afterAll _ _ _ _).modifications.find? _ = _ at hfind
        rw [hout] at hfind
        cases hfind
        exact hraised
      · obtain ⟨z, hz, hfailed⟩ := hout
        change (afterAll _ _ _ _).modifications.find? _ = _ at hfind
        rw [hz] at hfind
        cases hfind
        rw [hpending] at hfailed
        cases hfailed
      · obtain ⟨z, hz, hcompleted, -⟩ := hout.record
        change (afterAll _ _ _ _).modifications.find? _ = _ at hfind
        rw [hz] at hfind
        cases hfind
        rw [hpending] at hcompleted
        cases hcompleted
    · -- A record that the first run did not read was not stale, and is not stale now.
      have hnotin : ∀ x ∈ getPendingModificationsOlderThan s (now - staleAfter),
          y.modificationId ≠ x.modificationId := fun x hx he => hid ⟨x, hx, he.symm⟩
      change (afterAll _ _ _ _).modifications.find? _ = _ at hfind
      rw [afterAll_record_ne broker now hsel hnotin] at hfind
      have hold := Table.find?_mem hfind
      have hread := mem_getPendingModifications.mpr ⟨hold, hpending, hlater y hold hstale⟩
      exact absurd rfl (hnotin y hread)

/-- Recovery is complete exactly when every open modification with an answer is recoverable. -/
theorem recoveryComplete_iff (broker : Broker) (staleAfter : Int) (now : Timestamp) (s : Store) :
    RecoveryComplete broker staleAfter now s ↔ AllRecoverable broker staleAfter now s :=
  ⟨allRecoverable_of_complete, complete_of_allRecoverable⟩

end Run

/-! ## What modifyOrder leaves to the recovery -/

section Phases

variable {digest : String → String} {s s' : Store} {order : OrderRow} {call : ModifyCall}
  {b : BrokerOrder} {now : Timestamp}

theorem insertPendingModification_find? {m : Modification}
    (h : insertPendingModification s m = .ok s') :
    s'.modifications.find? m.modificationId = some m := by
  unfold insertPendingModification at h
  split at h
  · split at h
    · cases h
    · split at h
      · cases h
      · rename_i hinsert
        cases h
        rw [Table.find?_insert hinsert, if_pos rfl]
  · cases h

/-- A crash before the third phase leaves the record pending. -/
theorem modifyOrder_crashed
    (h : insertPendingModification s (call.record digest s order now) = .ok s') :
    (modifyOrder digest s order call (.ok b) .crashed now).modifications.find?
      call.modificationId = some (call.record digest s order now) := by
  unfold modifyOrder
  simp only [h]
  exact insertPendingModification_find? h

/-- A mark after a failed third phase takes the record out of the recovery's reach for good. -/
theorem modifyOrder_marked
    (h : insertPendingModification s (call.record digest s order now) = .ok s') :
    ∃ m, (modifyOrder digest s order call (.ok b) (.disconnected true) now).modifications.find?
      call.modificationId = some m ∧ m.status = .submittedUnconfirmed := by
  unfold modifyOrder
  simp only [h, finalizeModificationInDb, if_pos, updateModificationStatus]
  rw [show (call.record digest s order now).modificationId = call.modificationId from rfl,
    updateModification_find?, show s'.modifications.find? call.modificationId = _ from
      insertPendingModification_find? h]
  exact ⟨_, rfl, rfl⟩

end Phases

/-! ## A modification that is not recovered -/

def oneOrder : Store := ⟨acceptedOrder "o-1", .empty, fun _ h => absurd h List.not_mem_nil⟩

/-- Two more shares. -/
def twoMore : ModifyCall := ⟨"m-1", "k-1", "operator", none, ⟨some ⟨12, by decide⟩, none, none,
  none⟩⟩

def secondBrokerOrder : BrokerOrder := ⟨"b-2", "o-1:mod:1", .known .accepted⟩

def replacingBroker : Broker where
  lookup cid := if cid = "o-1:mod:1" then .found secondBrokerOrder else .missing
  asked := by
    intro cid b h
    split at h
    · rename_i hcid
      cases h
      exact hcid.symm
    · cases h
  id_inj := by
    intro cid cid' b b' h h' _
    split at h
    · split at h'
      · simp_all
      · cases h'
    · cases h

/-- The third phase loses its connection and marks the record; ten minutes later the broker
returns the replacement, and the run leaves everything as it is. -/
theorem marked_modification_stays :
    let s := modifyOrder id oneOrder (acceptedRow "o-1") twoMore (.ok secondBrokerOrder)
      (.disconnected true) 0
    (s.modifications.rows.map (·.status)) = [.submittedUnconfirmed] ∧
      (reconcilePendingModifications replacingBroker 300 600 s).1 = s ∧
      ¬ RecoveryComplete replacingBroker 300 600 s := by
  intro s
  refine ⟨by decide +kernel, rfl, ?_⟩
  intro hcomplete
  have hrow : ∃ m ∈ s.modifications.rows, m.modifiedAt < 600 - 300 ∧ m.status ≠ .completed ∧
      replacingBroker.lookup m.newClientOrderId = .found secondBrokerOrder ∧
      m.status ≠ .pending := by
    decide +kernel
  obtain ⟨m, hm, hstale, hopen, hb, hread⟩ := hrow
  exact hread (allRecoverable_of_complete hcomplete m hm hstale hopen _ hb).1

end TradingPlatform.Gateway
