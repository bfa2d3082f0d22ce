import Mathlib.Data.List.Sort
import Mathlib.Data.Rat.Init
import Mathlib.Tactic.Common

/-! # The history of the circuit breaker from its audit events

Trips and resets are written to the audit log by the console; a trip by another service is not, its
reset is. The history reads the newest events, twice as many as the entries it may return.
-/

namespace TradingPlatform.Console

/-- `None` is `null`. -/
inductive JsonValue where
  | null
  | bool (b : Bool)
  | number (n : ℚ)
  | text (s : String)
  | array (items : List JsonValue)
  | object (members : List (String × JsonValue))

def JsonValue.truthy : JsonValue → Bool
  | .null => false
  | .bool b => b
  | .number n => n ≠ 0
  | .text s => s ≠ ""
  | .array items => !items.isEmpty
  | .object members => !members.isEmpty

abbrev AuditDetails := List (String × JsonValue)

def AuditDetails.get (details : AuditDetails) (key : String) : JsonValue :=
  (details.lookup key).getD .null

inductive BreakerAction where
  | trip | reset
  deriving DecidableEq, Repr

/-- A row of `audit_log` with one of the two actions. -/
structure AuditEvent where
  timestamp : ℤ
  action : BreakerAction
  details : AuditDetails
  userId : String

structure ResetData where
  resetAt : ℤ
  resetBy : JsonValue
  resetReason : JsonValue

/-- An entry of the history; times stand for their ISO texts. -/
structure HistoryEntry where
  trippedAt : ℤ
  reason : JsonValue
  details : AuditDetails
  reset : Option ResetData

def AuditEvent.pendingTrip (row : AuditEvent) : HistoryEntry :=
  let tripDetails := row.details.filter fun member => member.1 ≠ "reason"
  { trippedAt := row.timestamp
    reason := row.details.get "reason"
    details :=
      if row.userId ≠ "" ∧ tripDetails.lookup "tripped_by" = none then
        tripDetails ++ [("tripped_by", .text row.userId)]
      else tripDetails
    reset := none }

def AuditEvent.resetData (row : AuditEvent) : ResetData :=
  { resetAt := row.timestamp
    resetBy :=
      if (row.details.get "reset_by").truthy then row.details.get "reset_by"
      else if row.userId ≠ "" then .text row.userId
      else .null
    resetReason := row.details.get "reason" }

def HistoryEntry.pairedWith (trip : HistoryEntry) (row : AuditEvent) : HistoryEntry :=
  { trip with reset := some row.resetData }

structure Pairing where
  history : List HistoryEntry
  pendingTrip : Option HistoryEntry

def pairRow (p : Pairing) (row : AuditEvent) : Pairing :=
  match row.action with
  | .trip =>
      -- a trip that was not reset is saved before the next one
      { history := p.history ++ p.pendingTrip.toList, pendingTrip := some row.pendingTrip }
  | .reset =>
      match p.pendingTrip with
      | none => p
      | some trip => { history := p.history ++ [trip.pairedWith row], pendingTrip := none }

def Pairing.entries (p : Pairing) : List HistoryEntry := p.history ++ p.pendingTrip.toList

def pairRows (rows : List AuditEvent) : List HistoryEntry :=
  (rows.foldl pairRow ⟨[], none⟩).entries

/-- `ORDER BY timestamp DESC` -/
def newestFirst (events : List AuditEvent) : List AuditEvent :=
  events.insertionSort fun e f => f.timestamp ≤ e.timestamp

/-- `_get_history_from_audit`; there are no events to read without a database. -/
def getHistoryFromAudit (database : Option (List AuditEvent)) (limit : ℕ) : List HistoryEntry :=
  match database with
  | none => []
  | some events =>
      let rows := ((newestFirst events).take (limit * 2)).reverse
      (pairRows rows).reverse.take limit

/-! ## Trips with their resets -/

/-- The first reset after a trip, if it comes before the next trip. -/
def firstReset (later : List AuditEvent) : Option AuditEvent :=
  (later.takeWhile fun e => e.action ≠ .trip).find? fun e => e.action = .reset

def HistoryEntry.closedBy (trip : HistoryEntry) (later : List AuditEvent) : HistoryEntry :=
  match firstReset later with
  | some row => trip.pairedWith row
  | none => trip

/-- The trips among events that are listed oldest first. -/
def tripCycles : List AuditEvent → List HistoryEntry
  | [] => []
  | e :: later =>
      match e.action with
      | .trip => e.pendingTrip.closedBy later :: tripCycles later
      | .reset => tripCycles later

/-- The last trips of all, newest first. -/
def lastTrips (events : List AuditEvent) (limit : ℕ) : List HistoryEntry :=
  (tripCycles (newestFirst events).reverse).reverse.take limit

def trips (events : List AuditEvent) : ℕ := events.countP fun e => e.action = .trip

theorem firstReset_cons (e : AuditEvent) (later : List AuditEvent) :
    firstReset (e :: later) = if e.action = .reset then some e else none := by
  cases haction : e.action <;> simp [firstReset, haction]

/-- The pending trip is closed by the rows to come. -/
theorem foldl_pairRow_entries (p : Pairing) (rows : List AuditEvent) :
    (rows.foldl pairRow p).entries =
      p.history ++ (p.pendingTrip.map fun trip => trip.closedBy rows).toList ++
        tripCycles rows := by
  induction rows generalizing p with
  | nil => cases hpending : p.pendingTrip <;>
      simp [Pairing.entries, tripCycles, hpending, HistoryEntry.closedBy, firstReset]
  | cons row rows ih =>
      rw [List.foldl_cons, ih]
      cases haction : row.action <;> cases hpending : p.pendingTrip <;>
        simp [pairRow, haction, hpending, tripCycles, HistoryEntry.closedBy, firstReset_cons]

theorem pairRows_eq_tripCycles (rows : List AuditEvent) : pairRows rows = tripCycles rows := by
  rw [pairRows, foldl_pairRow_entries]
  simp

theorem length_tripCycles (rows : List AuditEvent) : (tripCycles rows).length = trips rows := by
  induction rows with
  | nil => rfl
  | cons row rows ih =>
      cases haction : row.action <;> simp [tripCycles, trips, haction, ih]

/-- What is read of the end of the events does not depend on what is cut off. -/
theorem tripCycles_append (front rows : List AuditEvent) : ∃ earlier,
    earlier.length = trips front ∧ tripCycles (front ++ rows) = earlier ++ tripCycles rows := by
  induction front with
  | nil => exact ⟨[], rfl, rfl⟩
  | cons e front ih =>
      obtain ⟨earlier, hlength, happend⟩ := ih
      cases haction : e.action with
      | trip =>
          refine ⟨e.pendingTrip.closedBy (front ++ rows) :: earlier, ?_, ?_⟩
          · simp [trips, haction, hlength]
          · simp [tripCycles, haction, happend]
      | reset =>
          refine ⟨earlier, ?_, ?_⟩
          · simp [trips, haction, hlength]
          · simp [tripCycles, haction, happend]

theorem trips_newestFirst (events : List AuditEvent) :
    trips (newestFirst events) = trips events :=
  (List.perm_insertionSort _ events).countP_eq _

theorem take_eq_take_append_iff {α : Type*} (recent earlier : List α) (n : ℕ) :
    recent.take n = (recent ++ earlier).take n ↔
      min n (recent.length + earlier.length) ≤ recent.length := by
  constructor
  · intro h
    have hlength := congrArg List.length h
    simp only [List.length_append, List.length_take] at hlength
    omega
  · intro h
    have hnone : earlier.take (n - recent.length) = [] := by
      rw [List.take_eq_nil_iff, ← List.length_eq_zero_iff]
      omega
    rw [List.take_append, hnone, List.append_nil]

/-- The history is that of the last trips exactly if the events it reads have enough of them. -/
theorem getHistoryFromAudit_eq_lastTrips_iff (events : List AuditEvent) (limit : ℕ) :
    getHistoryFromAudit (some events) limit = lastTrips events limit ↔
      min limit (trips events) ≤ trips ((newestFirst events).take (limit * 2)) := by
  obtain ⟨earlier, hearlier, hcycles⟩ := tripCycles_append
    ((newestFirst events).drop (limit * 2)).reverse ((newestFirst events).take (limit * 2)).reverse
  rw [← List.reverse_append, List.take_append_drop] at hcycles
  have hread : (tripCycles ((newestFirst events).take (limit * 2)).reverse).reverse.length =
      trips ((newestFirst events).take (limit * 2)) := by
    rw [List.length_reverse, length_tripCycles, trips, List.countP_reverse, trips]
  have hall : trips events = trips ((newestFirst events).take (limit * 2)) +
      earlier.reverse.length := by
    rw [← trips_newestFirst, List.length_reverse, hearlier, trips, trips, trips,
      List.countP_reverse, ← List.countP_append, List.take_append_drop]
  rw [getHistoryFromAudit, lastTrips, pairRows_eq_tripCycles, hcycles, List.reverse_append,
    take_eq_take_append_iff, hread, hall]

/-- Two resets follow the only trip. -/
theorem getHistoryFromAudit_ne_lastTrips :
    getHistoryFromAudit (some [⟨1, .trip, [], "ops"⟩, ⟨2, .reset, [], "ops"⟩,
        ⟨3, .reset, [], "ops"⟩]) 1 ≠
      lastTrips [⟨1, .trip, [], "ops"⟩, ⟨2, .reset, [], "ops"⟩, ⟨3, .reset, [], "ops"⟩] 1 := by
  intro h
  have hlength := congrArg List.length h
  revert hlength
  decide

end TradingPlatform.Console
