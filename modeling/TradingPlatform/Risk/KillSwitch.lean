import TradingPlatform.Base.Run
import Mathlib.Logic.Function.Basic

/-! # The kill switch

Processes that share the state key in Redis. Engaging and disengaging are Lua
scripts and so one command each; the constructor reads the key and writes the
default state in a second command. A recovery manager constructs the object if
the process has none, and validates it with a read.
-/

namespace TradingPlatform.Risk

inductive KillSwitchState where
  | active | engaged
  deriving DecidableEq, Repr

/-- The payload of the state key; details and notes are JSON texts. -/
structure KillSwitchData where
  state : KillSwitchState
  engagedAt : Option Int
  engagedBy : Option String
  engagementReason : Option String
  engagementDetails : Option String
  disengagedAt : Option Int
  disengagedBy : Option String
  disengagementNotes : Option String
  engagementCountToday : ℕ
  deriving DecidableEq

/-- The state that `_initialize_state` writes. -/
def activeState : KillSwitchData := ⟨.active, none, none, none, none, none, none, none, 0⟩

inductive KillSwitchError where
  /-- `RuntimeError("Kill-switch state missing from Redis")` -/
  | stateMissing
  /-- `ValueError("Kill-switch already engaged")` -/
  | alreadyEngaged
  /-- `ValueError("Kill-switch not engaged")` -/
  | notEngaged
  deriving DecidableEq, Repr

/-- A missing key is an error. -/
def getKillSwitchState (key : Option KillSwitchData) : Except KillSwitchError KillSwitchState :=
  match key with
  | none => .error .stateMissing
  | some data => .ok data.state

def isEngaged (key : Option KillSwitchData) : Except KillSwitchError Bool :=
  (getKillSwitchState key).map fun state => state = .engaged

/-! ## Scripts -/

structure Engagement where
  reason : String
  operator : String
  details : Option String
  engagedAt : Int

structure Disengagement where
  operator : String
  notes : Option String
  disengagedAt : Int

def engageScript (key : Option KillSwitchData) (e : Engagement) :
    Except KillSwitchError KillSwitchData :=
  match key with
  | none => .error .stateMissing
  | some data =>
      if data.state = .engaged then .error .alreadyEngaged
      else .ok
        { data with
          state := .engaged
          engagedAt := some e.engagedAt
          engagedBy := some e.operator
          engagementReason := some e.reason
          engagementDetails := e.details
          disengagedAt := none
          disengagedBy := none
          engagementCountToday := data.engagementCountToday + 1 }

def disengageScript (key : Option KillSwitchData) (d : Disengagement) :
    Except KillSwitchError KillSwitchData :=
  match key with
  | none => .error .stateMissing
  | some data =>
      if data.state = .active then .error .notEngaged
      else .ok
        { data with
          state := .active
          disengagedAt := some d.disengagedAt
          disengagedBy := some d.operator
          disengagementNotes := d.notes }

theorem engageScript_eq_ok {key : Option KillSwitchData} {e : Engagement} {data : KillSwitchData}
    (h : engageScript key e = .ok data) : data.state = .engaged := by
  unfold engageScript at h
  split at h
  · cases h
  · split at h
    · cases h
    · cases h
      rfl

/-! ## Processes -/

/-- What a process does next; `recovering` is a construction by the recovery manager. -/
inductive SwitchClient where
  | idle
  | construct (recovering : Bool)
  | willSet (recovering : Bool)
  | validate
  deriving DecidableEq

/-- `engaged` is true after an engagement that no disengagement followed, each successful. -/
structure SwitchSystem where
  key : Option KillSwitchData
  clients : ℕ → SwitchClient
  instances : ℕ → Bool
  unavailable : ℕ → Bool
  engaged : Bool

namespace SwitchSystem

def goto (s : SwitchSystem) (i : ℕ) (client : SwitchClient) : SwitchSystem :=
  { s with clients := Function.update s.clients i client }

def setUnavailable (s : SwitchSystem) (i : ℕ) (value : Bool) : SwitchSystem :=
  { s with unavailable := Function.update s.unavailable i value }

/-- The constructor has returned. -/
def constructed (s : SwitchSystem) (i : ℕ) (recovering : Bool) : SwitchSystem :=
  { s with instances := Function.update s.instances i true }.goto i
    (if recovering then .validate else .idle)

def engage (s : SwitchSystem) (e : Engagement) : SwitchSystem :=
  match engageScript s.key e with
  | .ok data => { s with key := some data, engaged := true }
  | .error _ => s

def disengage (s : SwitchSystem) (d : Disengagement) : SwitchSystem :=
  match disengageScript s.key d with
  | .ok data => { s with key := some data, engaged := false }
  | .error _ => s

/-- The kill switch's part of `attempt_recovery`. -/
def attemptRecovery (s : SwitchSystem) (i : ℕ) (canRecover hasFactory : Bool) : SwitchSystem :=
  if canRecover && (s.unavailable i || !s.instances i) then
    if s.instances i then s.goto i .validate
    else if hasFactory then s.goto i (.construct true)
    else s.setUnavailable i true
  else s

/-- The next command of a process. -/
def command (s : SwitchSystem) (i : ℕ) : SwitchSystem :=
  match s.clients i with
  | .idle => s
  | .construct recovering =>
      match s.key with
      | none => s.goto i (.willSet recovering)
      | some _ => s.constructed i recovering
  | .willSet recovering => { s with key := some activeState }.constructed i recovering
  | .validate =>
      match isEngaged s.key with
      | .ok _ => (s.setUnavailable i false).goto i .idle
      | .error _ => (s.setUnavailable i true).goto i .idle

end SwitchSystem

/-- `abandon` is a call that loses its connection, `restart` a process that begins anew. -/
inductive SwitchEvent where
  | construct
  | attemptRecovery (canRecover hasFactory : Bool)
  | command
  | engage (e : Engagement)
  | disengage (d : Disengagement)
  | isEngaged
  | abandon
  | restart
  | loseKeys

/-- Scripts and reads need an object; constructions and recoveries are one at a time. -/
def switchStep (s : SwitchSystem) (a : ℕ × SwitchEvent) : SwitchSystem :=
  match a.2 with
  | .construct => if s.clients a.1 = .idle then s.goto a.1 (.construct false) else s
  | .attemptRecovery canRecover hasFactory =>
      if s.clients a.1 = .idle then s.attemptRecovery a.1 canRecover hasFactory else s
  | .command => s.command a.1
  | .engage e => if s.instances a.1 then s.engage e else s
  | .disengage d => if s.instances a.1 then s.disengage d else s
  | .isEngaged => s
  | .abandon => (s.setUnavailable a.1 true).goto a.1 .idle
  | .restart =>
      { s.setUnavailable a.1 true with
        instances := Function.update s.instances a.1 false }.goto a.1 .idle
  | .loseKeys => { s with key := none }

/-- No process has an object yet. -/
def SwitchSystem.start (key : Option KillSwitchData) : SwitchSystem :=
  ⟨key, fun _ => .idle, fun _ => false, fun _ => true, false⟩

end TradingPlatform.Risk
