import Mathlib.Algebra.Order.Ring.Unbundled.Rat
import Mathlib.Data.Rat.Floor
import Mathlib.Logic.Function.Basic
import Mathlib.Tactic.TypeStar

/-! # The store of OAuth2 sessions

One session is one key, whose value holds all fields. Every change reads the value, and writes it
back whole. Calls are interleaved command by command; times are in seconds.
-/

namespace TradingPlatform.Auth

/-- The fields of `SessionData`. -/
inductive SessionField where
  | accessToken | refreshToken | idToken | userId | email | createdAt | lastActivity
  | ipAddress | userAgent | accessTokenExpiresAt | role | strategies | sessionVersion
  | stepUpClaims | stepUpRequestedAt | pendingAction
  deriving DecidableEq, Repr

/-- Claims are kept as their JSON text. -/
def SessionField.Value : SessionField → Type
  | .createdAt | .lastActivity => ℚ
  | .accessTokenExpiresAt | .stepUpRequestedAt => Option ℚ
  | .stepUpClaims | .pendingAction => Option String
  | .strategies => List String
  | .sessionVersion => ℤ
  | _ => String

instance : (field : SessionField) → DecidableEq field.Value
  | .createdAt | .lastActivity => inferInstanceAs (DecidableEq ℚ)
  | .accessTokenExpiresAt | .stepUpRequestedAt => inferInstanceAs (DecidableEq (Option ℚ))
  | .stepUpClaims | .pendingAction => inferInstanceAs (DecidableEq (Option String))
  | .strategies => inferInstanceAs (DecidableEq (List String))
  | .sessionVersion => inferInstanceAs (DecidableEq ℤ)
  | .accessToken | .refreshToken | .idToken | .userId | .email | .ipAddress | .userAgent | .role =>
      inferInstanceAs (DecidableEq String)

def SessionData := (field : SessionField) → field.Value

def SessionData.createdAt (data : SessionData) : ℚ := data .createdAt

def SessionData.lastActivity (data : SessionData) : ℚ := data .lastActivity

def SessionData.ipAddress (data : SessionData) : String := data .ipAddress

def SessionData.userAgent (data : SessionData) : String := data .userAgent

def SessionData.pendingAction (data : SessionData) : Option String := data .pendingAction

/-- The keywords of `update_session_fields`. -/
def FieldUpdates := (field : SessionField) → Option field.Value

def SessionData.update (data : SessionData) (updates : FieldUpdates) : SessionData :=
  fun field => (updates field).getD (data field)

/-- `session_data.last_activity = now` -/
def activity (now : ℚ) : FieldUpdates
  | .lastActivity => some now
  | _ => none

/-- `set_step_up_request` -/
def stepUpRequest (pendingAction : Option String) (requestedAt : Option ℚ) : FieldUpdates
  | .pendingAction => some pendingAction
  | .stepUpRequestedAt => some requestedAt
  | .stepUpClaims => some none
  | _ => none

/-- `clear_step_up_state` -/
def clearStepUp : FieldUpdates
  | .stepUpClaims => some none
  | .stepUpRequestedAt => some none
  | .pendingAction => some none
  | _ => none

structure StoreConfig where
  absoluteTimeout : ℚ
  idleTimeout : ℚ

structure GetCall where
  currentIp : Option String
  currentUserAgent : Option String
  updateActivity : Bool

/-- What `update_session_fields` reads the session with. -/
def GetCall.forUpdate : GetCall := ⟨none, none, false⟩

/-- A value to bind the session to is checked if it is not empty. -/
def mismatch (current : Option String) (stored : String) : Bool :=
  current.any fun value => value ≠ "" ∧ stored ≠ value

/-- The session is deleted instead of returned. -/
def SessionData.refused (config : StoreConfig) (data : SessionData) (call : GetCall) (now : ℚ) :
    Bool :=
  mismatch call.currentIp data.ipAddress ∨
    mismatch call.currentUserAgent data.userAgent ∨
    config.idleTimeout < now - data.lastActivity ∨
    config.absoluteTimeout < now - data.createdAt

/-- The time to live that is left of the absolute timeout. -/
def remainingSeconds (config : StoreConfig) (data : SessionData) (now : ℚ) : ℤ :=
  max 1 ⌊config.absoluteTimeout - (now - data.createdAt)⌋

/-- What calls `delete_session`. -/
inductive DeleteCaller where
  | request | getSession | updateSessionFields

/-- The next command of a call, with what it has read. A cleanup deletes the key once for each batch
that lists it. -/
inductive StorePhase where
  | getRead (call : GetCall) (started : ℕ)
  | getWrite (data : SessionData) (readAt : ℕ) (now : ℚ)
  | got (data : Option SessionData)
  | updateRead (updates : FieldUpdates)
  | updateWrite (updates : FieldUpdates) (data : SessionData) (readAt : ℕ)
  | updated (found : Bool)
  | create (data : SessionData)
  | created
  | delete (caller : DeleteCaller)
  | deleted
  | cleanup (batches : ℕ)

/-- Where the caller of `delete_session` is when it has returned. -/
def DeleteCaller.after : DeleteCaller → StorePhase
  | .request => .deleted
  | .getSession => .got none
  | .updateSessionFields => .updated false

/-- `started` is the time at which the call starts, counted in commands. -/
inductive StoreCall where
  | getSession (call : GetCall)
  | updateSessionFields (updates : FieldUpdates)
  | createSession (data : SessionData)
  | deleteSession
  | cleanupAllSessions (batches : ℕ)

def StoreCall.first (started : ℕ) : StoreCall → StorePhase
  | .getSession call => .getRead call started
  | .updateSessionFields updates => .updateRead updates
  | .createSession data => .create data
  | .deleteSession => .delete .request
  | .cleanupAllSessions batches => .cleanup batches

abbrev StoredSession := Option (SessionData × ℚ)

def readKey (key : StoredSession) (now : ℚ) : Option SessionData :=
  match key with
  | none => none
  | some (data, expiry) => if now < expiry then some data else none

/-- One command of a call, taken at `now`, the `n`-th of all. -/
def takeCommand (config : StoreConfig) (key : StoredSession) (n : ℕ) (now : ℚ) :
    StorePhase → StoredSession × StorePhase
  | .getRead call _ =>
      (key, match readKey key now with
        | none => .got none
        | some data =>
            if data.refused config call now then .delete .getSession
            else if call.updateActivity then .getWrite data n now
            else .got (some data))
  | .getWrite data _ readNow =>
      (some (data.update (activity readNow), now + remainingSeconds config data readNow),
        .got (some (data.update (activity readNow))))
  | .updateRead updates =>
      (key, match readKey key now with
        | none => .updated false
        | some data =>
            if data.refused config .forUpdate now then .delete .updateSessionFields
            else .updateWrite updates data n)
  | .updateWrite updates data _ =>
      (some (data.update updates, now + remainingSeconds config (data.update updates) now),
        .updated true)
  | .create data => (some (data, now + ⌊config.absoluteTimeout⌋), .created)
  | .delete caller => (none, caller.after)
  | .cleanup (batches + 1) => (none, .cleanup batches)
  | .cleanup 0 => (key, .cleanup 0)
  | .got data => (key, .got data)
  | .updated found => (key, .updated found)
  | .created => (key, .created)
  | .deleted => (key, .deleted)

end TradingPlatform.Auth
