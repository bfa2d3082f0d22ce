import TradingPlatform.Auth.Sessions
import TradingPlatform.Base.Run

/-! # How long a revoked token stays revoked

A token is accepted for the leeway after its expiration, and its entry on the blacklist is gone at
the expiration, or with the last call that revoked it.
-/

namespace TradingPlatform.Auth

open Base

variable {config : AuthConfig} {s : AuthState} {now : ℚ} {token : Token} {expected : TokenType}

inductive AuthEvent where
  | revokeToken (jti : String) (exp : ℤ)
  | refreshSession (call : RefreshCall)
  | terminateSession (sessionId : String)
  | validateToken (token : Token) (expected : TokenType)
  | validateSession (accessToken : Token) (clientIp userAgentHash : String)

/-- A call and the time of it. -/
def authStep (config : AuthConfig) (s : AuthState) : ℚ × AuthEvent → AuthState
  | (now, .revokeToken jti exp) => s.revokeToken now jti exp
  | (now, .refreshSession call) => (s.refreshSession config now call).1
  | (now, .terminateSession sessionId) => s.terminateSession config now sessionId
  | (_, .validateToken ..) => s
  | (_, .validateSession ..) => s

/-- The call of `validate_token` that is made. -/
def AuthEvent.validates : AuthEvent → Option (Token × TokenType)
  | .validateToken token expected => some (token, expected)
  | .validateSession accessToken _ _ => some (accessToken, .access)
  | .refreshSession call => if call.allowed then some (call.refreshToken, .refresh) else none
  | _ => none

/-- `revoke_token` was called with the id and the expiration of the token. -/
def AuthState.Revoked (s : AuthState) (token : Token) : Prop :=
  ∃ revocation ∈ s.revocations, revocation.jti = token.jti ∧ revocation.exp = token.exp

def AuthState.lastRevocation (s : AuthState) (jti : String) : Option Revocation :=
  s.revocations.find? fun revocation => revocation.jti = jti

/-- The end of an entry of the blacklist. -/
def Revocation.until (revocation : Revocation) : ℚ :=
  revocation.time + blacklistTtl revocation.time revocation.exp

def RejectsRevoked (config : AuthConfig) (s : AuthState) : ℚ × AuthEvent → Prop
  | (now, event) => ∀ token expected, event.validates = some (token, expected) →
      s.Revoked token → s.validateToken config now token expected = false

/-- A revoked token is presented after its leeway, or before the entry of its last revocation
ends. -/
def PresentedInTime (config : AuthConfig) (s : AuthState) : ℚ × AuthEvent → Prop
  | (now, event) => ∀ token expected, event.validates = some (token, expected) →
      s.Revoked token → token.decodes config now expected = true →
        ∀ last, s.lastRevocation token.jti = some last → now < last.until

/-! ## The blacklist -/

/-- The blacklist has the last revocation of each token. -/
def AuthState.Listed (s : AuthState) : Prop :=
  ∀ jti last, s.lastRevocation jti = some last →
    s.blacklist.entries jti = some ((), last.until)

theorem listed_revokeToken (h : s.Listed) (now : ℚ) (jti : String) (exp : ℤ) :
    (s.revokeToken now jti exp).Listed := by
  intro other last hlast
  by_cases hjti : other = jti
  · have hfirst : (s.revokeToken now jti exp).lastRevocation other = some ⟨jti, exp, now⟩ := by
      rw [hjti]
      exact List.find?_cons_of_pos (by simp)
    rw [hfirst] at hlast
    cases hlast
    rw [hjti]
    exact ExpiringStore.entries_setex_self
  · have hrest : (s.revokeToken now jti exp).lastRevocation other = s.lastRevocation other :=
      List.find?_cons_of_neg (by simpa using Ne.symm hjti)
    rw [hrest] at hlast
    exact (ExpiringStore.entries_setex_of_ne hjti).trans (h other last hlast)

theorem listed_revokeIfAny (h : s.Listed) (now : ℚ) (jti : String) (exp : ℤ) :
    (s.revokeIfAny now jti exp).Listed := by
  unfold AuthState.revokeIfAny
  split
  · exact listed_revokeToken h now jti exp
  · exact h

theorem listed_sessions (h : s.Listed) (sessions : ExpiringStore String SessionHash) :
    AuthState.Listed { s with sessions } := h

theorem listed_refreshSession (h : s.Listed) (config : AuthConfig) (now : ℚ)
    (call : RefreshCall) : (s.refreshSession config now call).1.Listed := by
  unfold AuthState.refreshSession
  dsimp only
  split
  · split
    · exact h
    · split
      · split
        · exact h
        · dsimp only
          apply listed_revokeToken
          apply listed_revokeIfAny
          exact listed_sessions h _
      · exact h
  · exact h

theorem listed_terminateSession (h : s.Listed) (config : AuthConfig) (now : ℚ)
    (sessionId : String) : (s.terminateSession config now sessionId).Listed := by
  unfold AuthState.terminateSession
  split
  · exact h
  · dsimp only
    apply listed_sessions
    apply listed_revokeIfAny
    exact listed_revokeIfAny h _ _ _

theorem listed_authStep (h : s.Listed) (config : AuthConfig) (event : ℚ × AuthEvent) :
    (authStep config s event).Listed := by
  obtain ⟨now, event⟩ := event
  cases event with
  | revokeToken jti exp => exact listed_revokeToken h now jti exp
  | refreshSession call => exact listed_refreshSession h config now call
  | terminateSession sessionId => exact listed_terminateSession h config now sessionId
  | validateToken token expected => exact h
  | validateSession accessToken clientIp userAgentHash => exact h

theorem isTokenRevoked_iff (h : s.Listed) {last : Revocation}
    (hlast : s.lastRevocation token.jti = some last) :
    s.isTokenRevoked now token.jti = true ↔ now < last.until := by
  rw [AuthState.isTokenRevoked, ExpiringStore.get, h token.jti last hlast]
  by_cases hnow : now < last.until <;> simp [hnow]

theorem exists_lastRevocation (h : s.Revoked token) :
    ∃ last, s.lastRevocation token.jti = some last := by
  obtain ⟨revocation, hmem, hjti, _⟩ := h
  apply Option.isSome_iff_exists.mp
  rw [AuthState.lastRevocation, List.find?_isSome]
  exact ⟨revocation, hmem, by simpa using hjti⟩

/-- Without a leeway, a token whose last revocation was with its expiration is not accepted. -/
theorem rejected_of_no_leeway (h : s.Listed) (hskew : config.clockSkewSeconds = 0)
    {last : Revocation} (hlast : s.lastRevocation token.jti = some last)
    (hexp : token.exp ≤ last.exp) : s.validateToken config now token expected = false := by
  rw [AuthState.validateToken, Bool.and_eq_false_iff]
  by_cases hdecodes : token.decodes config now expected = true
  · right
    rw [Bool.not_eq_false', isTokenRevoked_iff h hlast]
    unfold Token.decodes at hdecodes
    rw [hskew, decide_eq_true_eq] at hdecodes
    have hbefore : now < token.exp := by simpa using hdecodes.1
    have hfloor : (⌊last.time⌋ : ℚ) ≤ last.time := Int.floor_le last.time
    have httl : last.exp - ⌊last.time⌋ ≤ blacklistTtl last.time last.exp := le_max_left _ _
    have httl' : (last.exp : ℚ) - ⌊last.time⌋ ≤ blacklistTtl last.time last.exp := by
      exact_mod_cast httl
    have hexp' : (token.exp : ℚ) ≤ last.exp := by exact_mod_cast hexp
    unfold Revocation.until
    linarith
  · left
    simpa using hdecodes

/-! ## Runs -/

theorem rejectsRevoked_iff (h : s.Listed) (event : ℚ × AuthEvent) :
    RejectsRevoked config s event ↔ PresentedInTime config s event := by
  obtain ⟨now, event⟩ := event
  constructor
  · intro hrejects token expected hvalidates hrevoked hdecodes last hlast
    have hfalse := hrejects token expected hvalidates hrevoked
    rw [AuthState.validateToken, hdecodes, Bool.true_and, Bool.not_eq_false'] at hfalse
    exact (isTokenRevoked_iff h hlast).mp hfalse
  · intro hintime token expected hvalidates hrevoked
    rw [AuthState.validateToken, Bool.and_eq_false_iff]
    by_cases hdecodes : token.decodes config now expected = true
    · right
      obtain ⟨last, hlast⟩ := exists_lastRevocation hrevoked
      rw [Bool.not_eq_false', isTokenRevoked_iff h hlast]
      exact hintime token expected hvalidates hrevoked hdecodes last hlast
    · left
      simpa using hdecodes

/-- No validation accepts a revoked token exactly when every one is presented in time. -/
theorem revoked_tokens_stay_revoked_iff (config : AuthConfig)
    (blacklist : ExpiringStore String Unit) (sessions : ExpiringStore String SessionHash)
    (calls : List (ℚ × AuthEvent)) :
    EachStep (authStep config) (RejectsRevoked config) ⟨blacklist, sessions, []⟩ calls ↔
      EachStep (authStep config) (PresentedInTime config) ⟨blacklist, sessions, []⟩ calls := by
  apply eachStep_congr (P := AuthState.Listed)
  · intro s call h _
    exact listed_authStep h config call
  · intro s call h
    exact rejectsRevoked_iff h call
  · intro jti last hlast
    cases hlast

/-- A token is revoked ten seconds before it expires, and presented after that. -/
theorem revoked_token_is_accepted_in_leeway :
    ¬EachStep (authStep ⟨900, 14400, 30, true⟩) (RejectsRevoked ⟨900, 14400, 30, true⟩)
      ⟨.empty, .empty, []⟩
      [(890, .revokeToken "access-1" 900),
        (905, .validateToken ⟨"alice", 900, "access-1", .access, "alice_1"⟩ .access)] := by
  intro ⟨_, haccepted, _⟩
  have hfalse := haccepted ⟨"alice", 900, "access-1", .access, "alice_1"⟩ .access rfl
    ⟨⟨"access-1", 900, 890⟩, List.mem_singleton.mpr rfl, rfl, rfl⟩
  have htrue : ((AuthState.mk .empty .empty []).revokeToken 890 "access-1" 900).validateToken
      ⟨900, 14400, 30, true⟩ 905 ⟨"alice", 900, "access-1", .access, "alice_1"⟩ .access = true := by
    decide +kernel
  exact Bool.false_ne_true (hfalse.symm.trans htrue)

end TradingPlatform.Auth
