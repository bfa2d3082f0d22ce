import TradingPlatform.Auth.Sessions
import TradingPlatform.Base.Run

/-! # Session calls, one command at a time

Any number of calls run against the same keys. Each is at a phase, and an advance takes its next
command, at the time the command is taken.
-/

namespace TradingPlatform.Auth

open Base

/-- The next command of a call; `revokeAccess` and `revokeRefresh` may find no id to revoke. -/
inductive CallPhase where
  | refreshExists (call : RefreshCall)
  | refreshBinding (call : RefreshCall)
  | refreshSwap (call : RefreshCall) (mintedAt : ℚ)
  | refreshRevokeAccess (call : RefreshCall) (oldAccessJti : String) (oldAccessExp : ℤ)
  | refreshRevokeRefresh (call : RefreshCall)
  | refreshed (call : RefreshCall)
  | validateExists (accessToken : Token) (clientIp userAgentHash : String)
  | validateBinding (accessToken : Token) (clientIp userAgentHash : String)
  | validated (accessToken : Token)
  | terminateRead (sessionId : String)
  | terminateRevokeAccess (sessionId : String) (session : SessionHash)
  | terminateRevokeRefresh (sessionId : String) (session : SessionHash)
  | terminateDelete (sessionId : String)
  | terminated (sessionId : String)
  | raised

/-- A call of one of the three functions, which starts with its first command. -/
inductive SessionCall where
  | refreshSession (call : RefreshCall)
  | validateSession (accessToken : Token) (clientIp userAgentHash : String)
  | terminateSession (sessionId : String)

def SessionCall.first : SessionCall → CallPhase
  | .refreshSession call => .refreshExists call
  | .validateSession accessToken clientIp userAgentHash =>
      .validateExists accessToken clientIp userAgentHash
  | .terminateSession sessionId => .terminateRead sessionId

def SessionCall.sessionId : SessionCall → String
  | .refreshSession call => call.refreshToken.sessionId
  | .validateSession accessToken _ _ => accessToken.sessionId
  | .terminateSession sessionId => sessionId

/-- One command. The tokens of a refresh are minted after its session is read. -/
def advance (config : AuthConfig) (s : AuthState) (now : ℚ) :
    CallPhase → AuthState × CallPhase
  | .refreshExists call =>
      (s, if call.allowed && s.validateToken config now call.refreshToken .refresh then
          .refreshBinding call
        else .raised)
  | .refreshBinding call =>
      (s, match s.sessions.get now call.refreshToken.sessionId with
        | none => .raised
        | some session =>
            if session.binds config call.clientIp call.userAgentHash then .refreshSwap call now
            else .raised)
  | .refreshSwap call mintedAt =>
      match atomicRefreshCas (s.sessions.get now call.refreshToken.sessionId)
          call.refreshToken.jti (call.newAccess config mintedAt)
          (call.newRefresh config mintedAt) with
      | .error _ => (s, .raised)
      | .ok (session, oldAccessJti, oldAccessExp) =>
          ({ s with
              sessions := s.sessions.setex now call.refreshToken.sessionId
                config.refreshTokenTtl session },
            .refreshRevokeAccess call oldAccessJti oldAccessExp)
  | .refreshRevokeAccess call oldAccessJti oldAccessExp =>
      (s.revokeIfAny now oldAccessJti (accessExpForRevocation oldAccessExp call.refreshToken),
        .refreshRevokeRefresh call)
  | .refreshRevokeRefresh call =>
      (s.revokeToken now call.refreshToken.jti call.refreshToken.exp, .refreshed call)
  | .validateExists accessToken clientIp userAgentHash =>
      (s, if s.validateToken config now accessToken .access then
          .validateBinding accessToken clientIp userAgentHash
        else .raised)
  | .validateBinding accessToken clientIp userAgentHash =>
      (s, match s.sessions.get now accessToken.sessionId with
        | none => .raised
        | some session =>
            if session.binds config clientIp userAgentHash then .validated accessToken
            else .raised)
  | .terminateRead sessionId =>
      (s, match s.sessions.get now sessionId with
        | none => .raised
        | some session => .terminateRevokeAccess sessionId session)
  | .terminateRevokeAccess sessionId session =>
      (s.revokeIfAny now session.accessJti
          (session.accessExp.getD (⌊now⌋ + config.accessTokenTtl)),
        .terminateRevokeRefresh sessionId session)
  | .terminateRevokeRefresh sessionId session =>
      (s.revokeIfAny now session.refreshJti
          (session.refreshExp.getD (⌊now⌋ + config.refreshTokenTtl)),
        .terminateDelete sessionId)
  | .terminateDelete sessionId =>
      ({ s with sessions := s.sessions.delete sessionId }, .terminated sessionId)
  | .refreshed call => (s, .refreshed call)
  | .validated accessToken => (s, .validated accessToken)
  | .terminated sessionId => (s, .terminated sessionId)
  | .raised => (s, .raised)

/-- A call that has started, and whether its session had been terminated before. -/
structure StartedCall where
  phase : CallPhase
  late : Bool

/-- The keys, the calls that have started, and the sessions whose termination has completed. -/
structure AuthRun (C : Type*) where
  auth : AuthState
  calls : C → Option StartedCall
  terminated : List String

inductive AuthCommand (C : Type*) where
  | start (c : C) (call : SessionCall)
  | advance (c : C) (now : ℚ)

def CallPhase.terminates : CallPhase → List String
  | .terminateDelete sessionId => [sessionId]
  | _ => []

variable {C : Type*}

def sessionStep [DecidableEq C] (config : AuthConfig) (s : AuthRun C) :
    AuthCommand C → AuthRun C
  | .start c call =>
      match s.calls c with
      | some _ => s
      | none =>
          { s with
            calls := Function.update s.calls c
              (some ⟨call.first, decide (call.sessionId ∈ s.terminated)⟩) }
  | .advance c now =>
      match s.calls c with
      | none => s
      | some call =>
          let after := advance config s.auth now call.phase
          { auth := after.1
            calls := Function.update s.calls c (some ⟨after.2, call.late⟩)
            terminated := call.phase.terminates ++ s.terminated }

/-! ## A call on its own -/

/-- The commands of a call with none of another in between. -/
def alone (config : AuthConfig) (now : ℚ) : ℕ → AuthState × CallPhase → AuthState × CallPhase
  | 0, s => s
  | n + 1, s => alone config now n (advance config s.1 now s.2)

theorem alone_refreshSession (config : AuthConfig) (s : AuthState) (now : ℚ)
    (call : RefreshCall) :
    alone config now 5 (s, .refreshExists call) =
      ((s.refreshSession config now call).1,
        if (s.refreshSession config now call).2.isSome then .refreshed call else .raised) := by
  unfold AuthState.refreshSession
  by_cases hvalid : (call.allowed && s.validateToken config now call.refreshToken .refresh) = true
  · cases hsession : s.sessions.get now call.refreshToken.sessionId with
    | none => simp [alone, advance, hvalid, hsession]
    | some session =>
        by_cases hbinds : session.binds config call.clientIp call.userAgentHash = true
        · cases hcas : atomicRefreshCas (some session) call.refreshToken.jti
              (call.newAccess config now) (call.newRefresh config now) with
          | error _ => simp [alone, advance, hvalid, hsession, hbinds, hcas]
          | ok _ => simp [alone, advance, hvalid, hsession, hbinds, hcas]
        · simp [alone, advance, hvalid, hsession, hbinds]
  · simp [alone, advance, hvalid]

theorem alone_validateSession (config : AuthConfig) (s : AuthState) (now : ℚ)
    (accessToken : Token) (clientIp userAgentHash : String) :
    alone config now 2 (s, .validateExists accessToken clientIp userAgentHash) =
      (s, if s.validateSession config now accessToken clientIp userAgentHash then
          .validated accessToken
        else .raised) := by
  unfold AuthState.validateSession
  by_cases hvalid : s.validateToken config now accessToken .access = true
  · cases hsession : s.sessions.get now accessToken.sessionId with
    | none => simp [alone, advance, hvalid, hsession]
    | some session => simp [alone, advance, hvalid, hsession]
  · simp [alone, advance, hvalid]

theorem alone_terminateSession (config : AuthConfig) (s : AuthState) (now : ℚ)
    (sessionId : String) :
    (alone config now 4 (s, .terminateRead sessionId)).1 =
      s.terminateSession config now sessionId := by
  unfold AuthState.terminateSession
  cases hsession : s.sessions.get now sessionId with
  | none => simp [alone, advance, hsession]
  | some session => simp [alone, advance, hsession]

end TradingPlatform.Auth
