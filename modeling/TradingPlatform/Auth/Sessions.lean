import Mathlib.Data.Rat.Floor
import TradingPlatform.Base.ExpiringStore

/-! # Sessions with rotating tokens

Tokens are what the manager has signed. A session is a hash with the ids of its current
tokens, and a revoked token is a key on the blacklist. Times are in seconds.
-/

namespace TradingPlatform.Auth

open Base

structure AuthConfig where
  accessTokenTtl : ℤ
  refreshTokenTtl : ℤ
  clockSkewSeconds : ℕ
  sessionBindingStrict : Bool

inductive TokenType where
  | access | refresh | service
  deriving DecidableEq, Repr

structure Token where
  sub : String
  exp : ℤ
  jti : String
  type : TokenType
  sessionId : String
  deriving DecidableEq, Repr

/-- The hash of a session; older sessions have no expirations. -/
structure SessionHash where
  userId : String
  ip : String
  userAgentHash : String
  accessJti : String
  refreshJti : String
  accessExp : Option ℤ
  refreshExp : Option ℤ
  deriving DecidableEq, Repr

/-- The expiration of a token that is minted now. -/
def expiration (now : ℚ) (ttl : ℤ) : ℤ := ⌊now + ttl⌋

/-- What `jwt.decode` and the checks of `validate_token` before the blacklist accept. -/
def Token.decodes (config : AuthConfig) (token : Token) (now : ℚ) (expected : TokenType) : Bool :=
  now < token.exp + config.clockSkewSeconds ∧ token.type = expected ∧ token.jti ≠ ""

/-- `_verify_session_binding`, of a session that is found. -/
def SessionHash.binds (config : AuthConfig) (session : SessionHash) (clientIp : String)
    (userAgentHash : String) : Bool :=
  config.sessionBindingStrict → session.ip = clientIp ∧ session.userAgentHash = userAgentHash

inductive RefreshError where
  | sessionNotFound | jtiMismatch
  deriving DecidableEq, Repr

/-- `_atomic_refresh_cas`: the session with its new tokens, and the old access token. -/
def atomicRefreshCas (session : Option SessionHash) (presentedRefreshJti : String)
    (newAccess newRefresh : Token) :
    Except RefreshError (SessionHash × String × ℤ) :=
  match session with
  | none => .error .sessionNotFound
  | some session =>
      if session.refreshJti ≠ presentedRefreshJti then .error .jtiMismatch
      else .ok
        ({ session with
            accessJti := newAccess.jti
            refreshJti := newRefresh.jti
            accessExp := some newAccess.exp
            refreshExp := some newRefresh.exp },
          session.accessJti, session.accessExp.getD 0)

/-- The time to live of an entry of the blacklist. -/
def blacklistTtl (now : ℚ) (exp : ℤ) : ℤ := max (exp - ⌊now⌋) 1

/-- `revoke_token` was called. -/
structure Revocation where
  jti : String
  exp : ℤ
  time : ℚ
  deriving DecidableEq, Repr

/-- The keys of the two prefixes, and the revocations so far, the last one first. -/
structure AuthState where
  blacklist : ExpiringStore String Unit
  sessions : ExpiringStore String SessionHash
  revocations : List Revocation

def AuthState.isTokenRevoked (s : AuthState) (now : ℚ) (jti : String) : Bool :=
  (s.blacklist.get now jti).isSome

/-- `validate_token`, and whether it returns. -/
def AuthState.validateToken (config : AuthConfig) (s : AuthState) (now : ℚ) (token : Token)
    (expected : TokenType) : Bool :=
  token.decodes config now expected && !s.isTokenRevoked now token.jti

def AuthState.revokeToken (s : AuthState) (now : ℚ) (jti : String) (exp : ℤ) : AuthState :=
  { s with
    blacklist := s.blacklist.setex now jti (blacklistTtl now exp) ()
    revocations := ⟨jti, exp, now⟩ :: s.revocations }

/-- The revocation of a token of a session, which may have none. -/
def AuthState.revokeIfAny (s : AuthState) (now : ℚ) (jti : String) (exp : ℤ) : AuthState :=
  if jti ≠ "" then s.revokeToken now jti exp else s

structure RefreshCall where
  refreshToken : Token
  clientIp : String
  userAgentHash : String
  /-- Whether the rate limit lets the call through. -/
  allowed : Bool
  newAccessJti : String
  newRefreshJti : String

def RefreshCall.newAccess (call : RefreshCall) (config : AuthConfig) (now : ℚ) : Token where
  sub := call.refreshToken.sub
  exp := expiration now config.accessTokenTtl
  jti := call.newAccessJti
  type := .access
  sessionId := call.refreshToken.sessionId

def RefreshCall.newRefresh (call : RefreshCall) (config : AuthConfig) (now : ℚ) : Token where
  sub := call.refreshToken.sub
  exp := expiration now config.refreshTokenTtl
  jti := call.newRefreshJti
  type := .refresh
  sessionId := call.refreshToken.sessionId

/-- The old access token is revoked with its own expiration, or that of the refresh token. -/
def accessExpForRevocation (oldAccessExp : ℤ) (refreshToken : Token) : ℤ :=
  if 0 < oldAccessExp then oldAccessExp else refreshToken.exp

/-- `refresh_session`, and the tokens it returns. -/
def AuthState.refreshSession (config : AuthConfig) (s : AuthState) (now : ℚ)
    (call : RefreshCall) : AuthState × Option (Token × Token) :=
  let token := call.refreshToken
  if call.allowed && s.validateToken config now token .refresh then
    match s.sessions.get now token.sessionId with
    | none => (s, none)
    | some session =>
        if session.binds config call.clientIp call.userAgentHash then
          let access := call.newAccess config now
          let refresh := call.newRefresh config now
          match atomicRefreshCas (s.sessions.get now token.sessionId) token.jti access refresh with
          | .error _ => (s, none)
          | .ok (session, oldAccessJti, oldAccessExp) =>
              let swapped := { s with
                sessions :=
                  s.sessions.setex now token.sessionId config.refreshTokenTtl session }
              let cleared := swapped.revokeIfAny now oldAccessJti
                (accessExpForRevocation oldAccessExp token)
              (cleared.revokeToken now token.jti token.exp, some (access, refresh))
        else (s, none)
  else (s, none)

/-- `validate_session`, and whether it returns. -/
def AuthState.validateSession (config : AuthConfig) (s : AuthState) (now : ℚ)
    (accessToken : Token) (clientIp userAgentHash : String) : Bool :=
  s.validateToken config now accessToken .access &&
    (s.sessions.get now accessToken.sessionId).any
      fun session => session.binds config clientIp userAgentHash

/-- `terminate_session` -/
def AuthState.terminateSession (config : AuthConfig) (s : AuthState) (now : ℚ)
    (sessionId : String) : AuthState :=
  match s.sessions.get now sessionId with
  | none => s
  | some session =>
      let access := s.revokeIfAny now session.accessJti
        (session.accessExp.getD (⌊now⌋ + config.accessTokenTtl))
      let refresh := access.revokeIfAny now session.refreshJti
        (session.refreshExp.getD (⌊now⌋ + config.refreshTokenTtl))
      { refresh with sessions := refresh.sessions.delete sessionId }

end TradingPlatform.Auth
