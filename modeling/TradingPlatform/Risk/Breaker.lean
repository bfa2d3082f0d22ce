import TradingPlatform.Base.Run
import TradingPlatform.Base.WatchedCell
import Mathlib.Logic.Function.Basic

/-! # The circuit breaker

Clients of the state key, one Redis command at a time. A trip and a reset watch
the key, read it and execute a transaction, and begin again when the key was
written meanwhile. The initialisation and the migration of legacy payloads read
the key and then write it with a plain SET.
-/

namespace TradingPlatform.Risk

open Base

abbrev Timestamp := Int

inductive CircuitBreakerState where
  | openState | tripped | quietPeriod
  deriving DecidableEq, Repr

/-- The payload of the state key; `tripDetails` is the JSON text of the details. -/
structure StateData where
  state : CircuitBreakerState
  trippedAt : Option Timestamp
  tripReason : Option String
  tripDetails : Option String
  resetAt : Option Timestamp
  resetBy : Option String
  tripCountToday : ℕ
  deriving DecidableEq

def defaultState : StateData := ⟨.openState, none, none, none, none, none, 0⟩

def StateData.migrated (data : StateData) : StateData := { data with state := .openState }

def StateData.trip (data : StateData) (reason : String) (details : Option String)
    (now : Timestamp) : StateData :=
  { data with
    state := .tripped
    trippedAt := some now
    tripReason := some reason
    tripDetails := details
    tripCountToday := data.tripCountToday + 1 }

def StateData.reset (data : StateData) (resetBy : String) (now : Timestamp) : StateData :=
  { data with
    state := .openState
    trippedAt := none
    tripReason := none
    tripDetails := none
    resetAt := some now
    resetBy := some resetBy }

/-- A missing key is an error, a legacy payload counts as open. -/
def getState (key : Option StateData) : Option CircuitBreakerState :=
  key.map fun data => if data.state = .quietPeriod then .openState else data.state

def isTripped (key : Option StateData) : Option Bool :=
  (getState key).map fun state => state = .tripped

/-! ## Clients -/

/-- What a client does next. Initialisation is `initialize_state()` and the constructor that
initialises a missing state. -/
inductive Client where
  | idle
  | trip (reason : String) (details : Option String)
  | tripWatched (reason : String) (details : Option String) (version : ℕ)
  | tripRead (reason : String) (details : Option String) (version : ℕ) (data : StateData)
  | reset (resetBy : String)
  | resetWatched (resetBy : String) (version : ℕ)
  | resetRead (resetBy : String) (version : ℕ) (data : StateData)
  | initializeState
  | migrateState
  | willSet (data : StateData)

inductive Call where
  | trip (reason : String) (details : Option String)
  | reset (resetBy : String)
  | initializeState
  | migrateState

def Call.enter : Call → Client
  | .trip reason details => .trip reason details
  | .reset resetBy => .reset resetBy
  | .initializeState => .initializeState
  | .migrateState => .migrateState

/-- The transaction that executed last, with the payload it wrote. -/
inductive Transaction where
  | trip (data : StateData)
  | reset (data : StateData)
  deriving DecidableEq

def Transaction.data : Transaction → StateData
  | .trip data => data
  | .reset data => data

structure BreakerSystem where
  key : WatchedCell StateData
  clients : ℕ → Client
  last : Option Transaction
  trips : ℕ

namespace BreakerSystem

def goto (s : BreakerSystem) (i : ℕ) (client : Client) : BreakerSystem :=
  { s with clients := Function.update s.clients i client }

def write (s : BreakerSystem) (i : ℕ) (data : StateData) : BreakerSystem :=
  { s with key := s.key.set data }.goto i .idle

/-- `_trip_transaction`; a missing key or a breaker that is tripped already ends it. -/
def tripGet (s : BreakerSystem) (i : ℕ) (reason : String) (details : Option String)
    (version : ℕ) : BreakerSystem :=
  match s.key.value with
  | none => s.goto i .idle
  | some data =>
      s.goto i (if data.state = .tripped then .idle else .tripRead reason details version data)

def tripExec (s : BreakerSystem) (i : ℕ) (reason : String) (details : Option String)
    (version : ℕ) (data : StateData) (now : Timestamp) : BreakerSystem :=
  match s.key.exec version (data.trip reason details now) with
  | some key =>
      { s with
        key
        last := some (.trip (data.trip reason details now))
        trips := s.trips + 1 }.goto i .idle
  | none => s.goto i (.trip reason details)

/-- `_reset_transaction`; anything but a tripped breaker is refused. -/
def resetGet (s : BreakerSystem) (i : ℕ) (resetBy : String) (version : ℕ) : BreakerSystem :=
  match s.key.value with
  | none => s.goto i .idle
  | some data =>
      s.goto i (if data.state = .tripped then .resetRead resetBy version data else .idle)

def resetExec (s : BreakerSystem) (i : ℕ) (resetBy : String) (version : ℕ) (data : StateData)
    (now : Timestamp) : BreakerSystem :=
  match s.key.exec version (data.reset resetBy now) with
  | some key => { s with key, last := some (.reset (data.reset resetBy now)) }.goto i .idle
  | none => s.goto i (.reset resetBy)

def initializeGet (s : BreakerSystem) (i : ℕ) : BreakerSystem :=
  match s.key.value with
  | none => s.goto i (.willSet defaultState)
  | some _ => s.goto i .idle

def migrateGet (s : BreakerSystem) (i : ℕ) : BreakerSystem :=
  match s.key.value with
  | none => s.goto i .idle
  | some data =>
      s.goto i (if data.state = .quietPeriod then .willSet data.migrated else .idle)

/-- The next command of a client. -/
def command (s : BreakerSystem) (i : ℕ) (now : Timestamp) : BreakerSystem :=
  match s.clients i with
  | .idle => s
  | .trip reason details => s.goto i (.tripWatched reason details s.key.version)
  | .tripWatched reason details version => s.tripGet i reason details version
  | .tripRead reason details version data => s.tripExec i reason details version data now
  | .reset resetBy => s.goto i (.resetWatched resetBy s.key.version)
  | .resetWatched resetBy version => s.resetGet i resetBy version
  | .resetRead resetBy version data => s.resetExec i resetBy version data now
  | .initializeState => s.initializeGet i
  | .migrateState => s.migrateGet i
  | .willSet data => s.write i data

end BreakerSystem

/-- `abandon` is a client that dies or loses its connection; a retry is a new call. -/
inductive BreakerEvent where
  | call (call : Call)
  | command (now : Timestamp)
  | abandon

/-- Calls reach idle clients only. -/
def breakerStep (s : BreakerSystem) (a : ℕ × BreakerEvent) : BreakerSystem :=
  match a.2 with
  | .call call =>
      match s.clients a.1 with
      | .idle => s.goto a.1 call.enter
      | _ => s
  | .command now => s.command a.1 now
  | .abandon => s.goto a.1 .idle

/-- No call is under way and no transaction has executed. -/
def quiescent (key : Option StateData) : BreakerSystem := ⟨⟨key, 0⟩, fun _ => .idle, none, 0⟩

end TradingPlatform.Risk
