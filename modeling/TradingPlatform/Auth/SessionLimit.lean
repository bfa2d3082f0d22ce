import Mathlib.Data.NNRat.Defs
import Mathlib.Data.String.Basic
import TradingPlatform.Auth.Sessions
import TradingPlatform.Base.Run
import TradingPlatform.Base.SortedSet

/-! # The limit on concurrent sessions

A sorted set for each user lists the sessions by the time of their creation. It has no time to
live: what has expired stays listed until the session is terminated or is the oldest of a full
index. A refresh lets a session live longer and leaves its place in the index as it is.
-/

namespace TradingPlatform.Auth

open Base

structure SessionConfig extends AuthConfig where
  maxSessionsPerUser : ℤ

/-- The keys, and the time. -/
structure SessionState where
  auth : AuthState
  index : String → SortedSet String ℚ
  clock : ℚ

structure CreateCall where
  userId : String
  uuid : String
  clientIp : String
  userAgentHash : String
  /-- Whether the rate limit lets the call through. -/
  allowed : Bool
  accessJti : String
  refreshJti : String

def CreateCall.sessionId (call : CreateCall) : String := call.userId ++ "_" ++ call.uuid

def CreateCall.sessionData (call : CreateCall) (config : SessionConfig) (now : ℚ) :
    SessionHash where
  userId := call.userId
  ip := call.clientIp
  userAgentHash := call.userAgentHash
  accessJti := call.accessJti
  refreshJti := call.refreshJti
  accessExp := some (expiration now config.accessTokenTtl)
  refreshExp := some (expiration now config.refreshTokenTtl)

namespace SessionState

/-- `_add_session_to_index` -/
def addSessionToIndex (s : SessionState) (userId sessionId : String) : SessionState :=
  { s with index := Function.update s.index userId ((s.index userId).zadd sessionId s.clock) }

/-- `_remove_session_from_index` -/
def removeSessionFromIndex (s : SessionState) (userId sessionId : String) : SessionState :=
  { s with index := Function.update s.index userId ((s.index userId).zrem sessionId) }

/-- `session_id.rsplit("_", 1)[0]`, where there is a `_` -/
def userOf (sessionId : String) : Option String :=
  match sessionId.toList.reverse.dropWhile (· ≠ '_') with
  | [] => none
  | _ :: before => some (String.ofList before.reverse)

/-- `terminate_session` -/
def terminateSession (config : SessionConfig) (s : SessionState) (sessionId : String) :
    SessionState :=
  match s.auth.sessions.get s.clock sessionId with
  | none =>
      match userOf sessionId with
      | none => s
      | some userId => if userId ≠ "" then s.removeSessionFromIndex userId sessionId else s
  | some session =>
      let removed :=
        if session.userId ≠ "" then s.removeSessionFromIndex session.userId sessionId else s
      { removed with auth := s.auth.terminateSession config.toAuthConfig s.clock sessionId }

/-- How many entries the index has beyond the limit. -/
def excess (config : SessionConfig) (s : SessionState) (userId : String) : ℕ :=
  ((s.index userId).zcard - config.maxSessionsPerUser).toNat

/-- `oldest_sessions` -/
def oldestSessions (config : SessionConfig) (s : SessionState) (userId : String) : List String :=
  if config.maxSessionsPerUser < (s.index userId).zcard then
    (s.index userId).zrange 0 (s.excess config userId - 1)
  else []

/-- `_enforce_session_limit` -/
def enforceSessionLimit (config : SessionConfig) (s : SessionState) (userId : String) :
    SessionState :=
  (s.oldestSessions config userId).foldl (terminateSession config) s

/-- `create_session` up to `_enforce_session_limit` -/
def storeSession (config : SessionConfig) (s : SessionState) (call : CreateCall) : SessionState :=
  let stored : SessionState :=
    { s with
      auth := { s.auth with
        sessions := s.auth.sessions.setex s.clock call.sessionId config.refreshTokenTtl
          (call.sessionData config s.clock) } }
  stored.addSessionToIndex call.userId call.sessionId

/-- `create_session` -/
def createSession (config : SessionConfig) (s : SessionState) (call : CreateCall) :
    SessionState :=
  if call.allowed then (s.storeSession config call).enforceSessionLimit config call.userId
  else s

end SessionState

inductive SessionRequest where
  | createSession (call : CreateCall)
  | refreshSession (call : RefreshCall)
  | terminateSession (sessionId : String)

/-- A call, and the time since the last one. -/
structure TimedRequest where
  elapsed : NNRat
  request : SessionRequest

namespace SessionState

def start (clock : ℚ) : SessionState := ⟨⟨.empty, .empty, []⟩, fun _ => .empty, clock⟩

def wait (s : SessionState) (elapsed : NNRat) : SessionState :=
  { s with clock := s.clock + elapsed }

def handle (config : SessionConfig) (s : SessionState) : SessionRequest → SessionState
  | .createSession call => s.createSession config call
  | .refreshSession call =>
      { s with auth := (s.auth.refreshSession config.toAuthConfig s.clock call).1 }
  | .terminateSession sessionId => s.terminateSession config sessionId

def step (config : SessionConfig) (s : SessionState) (timed : TimedRequest) : SessionState :=
  (s.wait timed.elapsed).handle config timed.request

/-- The user has a session hash with this id. -/
def Existing (s : SessionState) (userId sessionId : String) : Prop :=
  ∃ session, s.auth.sessions.get s.clock sessionId = some session ∧ session.userId = userId

/-- No more than `max_sessions_per_user` session hashes of the user exist. -/
def WithinLimit (config : SessionConfig) (s : SessionState) (userId : String) : Prop :=
  ∀ sessionIds : List String, sessionIds.Nodup →
    (∀ sessionId ∈ sessionIds, s.Existing userId sessionId) →
      (sessionIds.length : ℤ) ≤ config.maxSessionsPerUser

/-- The session is there before the limit is enforced, and not any more afterwards. -/
def Evicts (config : SessionConfig) (s : SessionState) (call : CreateCall) (sessionId : String) :
    Prop :=
  ((s.storeSession config call).auth.sessions.get s.clock sessionId).isSome ∧
    (s.createSession config call).auth.sessions.get s.clock sessionId = none

/-- With the evicted session, those of the user that remain would be more than the limit. -/
def EvictsForLimit (config : SessionConfig) (s : SessionState) (call : CreateCall) : Prop :=
  ∀ evicted, s.Evicts config call evicted →
    ∃ sessionIds : List String, sessionIds.Nodup ∧
      (∀ sessionId ∈ sessionIds, (s.createSession config call).Existing call.userId sessionId) ∧
        config.maxSessionsPerUser < sessionIds.length + 1

/-- No more sessions than the limit after `create_session`, and no eviction below it. -/
def BoundsSessions (config : SessionConfig) (s : SessionState) : TimedRequest → Prop
  | ⟨elapsed, .createSession call⟩ =>
      ((s.wait elapsed).createSession config call).WithinLimit config call.userId ∧
        (call.allowed = true → (s.wait elapsed).EvictsForLimit config call)
  | _ => True

/-- The entries of the index that `_enforce_session_limit` leaves. -/
def keptSessions (config : SessionConfig) (s : SessionState) (userId : String) : List String :=
  (s.index userId).ranking.drop (s.excess config userId)

/-- Of the index with the new session, the entries beyond the limit have no session any more, or
all the others have one. -/
def IndexInStep (config : SessionConfig) (s : SessionState) (call : CreateCall) : Prop :=
  let stored := s.storeSession config call
  ∀ oldest ∈ stored.oldestSessions config call.userId,
    (stored.auth.sessions.get s.clock oldest).isSome →
      ∀ sessionId ∈ stored.keptSessions config call.userId,
        stored.Existing call.userId sessionId

def LimitHolds (config : SessionConfig) (s : SessionState) : TimedRequest → Prop
  | ⟨elapsed, .createSession call⟩ =>
      0 ≤ config.maxSessionsPerUser ∧
        (call.allowed = true → (s.wait elapsed).IndexInStep config call)
  | _ => True

/-! ## What the calls do to the hashes and the index -/

/-- Every session of the user that exists is listed in the index of the user. -/
def Indexed (s : SessionState) : Prop :=
  ∀ userId sessionId, s.Existing userId sessionId → sessionId ∈ (s.index userId).ranking

structure Tracked (config : SessionConfig) (s : SessionState) : Prop where
  indexed : s.Indexed
  bounded : 0 ≤ config.maxSessionsPerUser → ∀ userId, s.WithinLimit config userId

variable {config : SessionConfig} {s t : SessionState} {userId sessionId : String}

theorem WithinLimit.of_existing (h : s.WithinLimit config userId)
    (hsub : ∀ sessionId, t.Existing userId sessionId → s.Existing userId sessionId) :
    t.WithinLimit config userId :=
  fun sessionIds hnodup hexist => h sessionIds hnodup fun x hx => hsub x (hexist x hx)

theorem Indexed.of_existing (h : s.Indexed)
    (hsub : ∀ userId sessionId, t.Existing userId sessionId → s.Existing userId sessionId)
    (hindex : ∀ userId sessionId, t.Existing userId sessionId →
      sessionId ∈ (s.index userId).ranking → sessionId ∈ (t.index userId).ranking) : t.Indexed :=
  fun u x hx => hindex u x hx (h u x (hsub u x hx))

/-- A step that adds neither a session nor takes one that exists out of the index. -/
theorem Tracked.of_existing (h : s.Tracked config)
    (hsub : ∀ userId sessionId, t.Existing userId sessionId → s.Existing userId sessionId)
    (hindex : ∀ userId sessionId, t.Existing userId sessionId →
      sessionId ∈ (s.index userId).ranking → sessionId ∈ (t.index userId).ranking) :
    t.Tracked config where
  indexed := h.indexed.of_existing hsub hindex
  bounded hlimit u := (h.bounded hlimit u).of_existing (hsub u)

theorem existing_of_wait {elapsed : NNRat} (h : (s.wait elapsed).Existing userId sessionId) :
    s.Existing userId sessionId := by
  obtain ⟨session, hget, huser⟩ := h
  obtain ⟨expiry, hentry, hlive⟩ := ExpiringStore.get_eq_some_iff.mp hget
  have helapsed : (0 : ℚ) ≤ elapsed := elapsed.2
  refine ⟨session, ExpiringStore.get_eq_some_iff.mpr ⟨expiry, hentry, ?_⟩, huser⟩
  simp only [wait] at hlive
  linarith

theorem Tracked.wait (h : s.Tracked config) (elapsed : NNRat) :
    (s.wait elapsed).Tracked config :=
  h.of_existing (fun _ _ => existing_of_wait) fun _ _ _ hmem => hmem

theorem sessions_revokeIfAny (auth : AuthState) (now : ℚ) (jti : String) (exp : ℤ) :
    (auth.revokeIfAny now jti exp).sessions = auth.sessions := by
  unfold AuthState.revokeIfAny
  split
  · rfl
  · rfl

@[simp] theorem clock_terminateSession (s : SessionState) (sessionId : String) :
    (s.terminateSession config sessionId).clock = s.clock := by
  unfold terminateSession removeSessionFromIndex
  split
  · split
    · rfl
    · split <;> rfl
  · dsimp only
    split <;> rfl

/-- `terminate_session` leaves no hash of the session, and those of the others as they are. -/
theorem get_terminateSession (s : SessionState) (sessionId other : String) :
    (s.terminateSession config sessionId).auth.sessions.get s.clock other =
      if other = sessionId then none else s.auth.sessions.get s.clock other := by
  unfold terminateSession
  split
  · rename_i hget
    have hsame : ∀ t : SessionState, t.auth = s.auth → t.auth.sessions.get s.clock other =
        if other = sessionId then none else s.auth.sessions.get s.clock other := by
      intro t ht
      rw [ht]
      split
      · rename_i heq
        rw [heq, hget]
      · rfl
    split
    · exact hsame s rfl
    · split
      · exact hsame _ rfl
      · exact hsame s rfl
  · rename_i session hget
    simp only [AuthState.terminateSession, hget, sessions_revokeIfAny]
    unfold ExpiringStore.delete ExpiringStore.get
    by_cases heq : other = sessionId
    · simp [heq]
    · simp [heq]

theorem mem_ranking_removeSessionFromIndex {u x : String} (hne : x ≠ sessionId)
    (h : x ∈ (s.index u).ranking) :
    x ∈ ((s.removeSessionFromIndex userId sessionId).index u).ranking := by
  unfold removeSessionFromIndex
  by_cases hu : u = userId
  · subst hu
    obtain ⟨score, hscore⟩ := SortedSet.mem_ranking.mp h
    simp only [Function.update_self]
    exact SortedSet.mem_ranking.mpr ⟨score, SortedSet.mem_zrem.mpr ⟨hscore, hne⟩⟩
  · simpa only [Function.update_of_ne hu] using h

theorem mem_ranking_terminateSession {u x : String} (hne : x ≠ sessionId)
    (h : x ∈ (s.index u).ranking) :
    x ∈ ((s.terminateSession config sessionId).index u).ranking := by
  unfold terminateSession
  split
  · split
    · exact h
    · split
      · exact mem_ranking_removeSessionFromIndex hne h
      · exact h
  · dsimp only
    split
    · exact mem_ranking_removeSessionFromIndex hne h
    · exact h

theorem existing_terminateSession {u x : String} :
    (s.terminateSession config sessionId).Existing u x ↔ x ≠ sessionId ∧ s.Existing u x := by
  unfold Existing
  rw [clock_terminateSession, get_terminateSession]
  by_cases heq : x = sessionId
  · simp [heq]
  · simp [heq]

theorem Tracked.terminateSession (h : s.Tracked config) (sessionId : String) :
    (s.terminateSession config sessionId).Tracked config :=
  h.of_existing (fun _ _ hx => (existing_terminateSession.mp hx).2)
    fun _ _ hx => mem_ranking_terminateSession (existing_terminateSession.mp hx).1

theorem userId_atomicRefreshCas {session swapped : SessionHash} {jti oldAccessJti : String}
    {access refresh : Token} {oldAccessExp : ℤ}
    (h : atomicRefreshCas (some session) jti access refresh =
      .ok (swapped, oldAccessJti, oldAccessExp)) : swapped.userId = session.userId := by
  simp only [atomicRefreshCas] at h
  split at h
  · cases h
  · cases h
    rfl

/-- `refresh_session` leaves the hashes as they are, or puts one back for its user. -/
theorem sessions_refreshSession (auth : AuthState) (now : ℚ) (call : RefreshCall) :
    (auth.refreshSession config.toAuthConfig now call).1.sessions = auth.sessions ∨
      ∃ session swapped, auth.sessions.get now call.refreshToken.sessionId = some session ∧
        swapped.userId = session.userId ∧
        (auth.refreshSession config.toAuthConfig now call).1.sessions =
          auth.sessions.setex now call.refreshToken.sessionId config.refreshTokenTtl swapped := by
  unfold AuthState.refreshSession
  dsimp only
  split
  · split
    · exact Or.inl rfl
    · rename_i session hget
      split
      · rw [hget]
        split
        · exact Or.inl rfl
        · rename_i swapped oldAccessJti oldAccessExp hcas
          refine Or.inr ⟨session, swapped, rfl, userId_atomicRefreshCas hcas, ?_⟩
          exact sessions_revokeIfAny _ _ _ _
      · exact Or.inl rfl
  · exact Or.inl rfl

theorem existing_of_refreshSession {call : RefreshCall}
    (h : (s.handle config (.refreshSession call)).Existing userId sessionId) :
    s.Existing userId sessionId := by
  obtain ⟨session, hget, huser⟩ := h
  change (s.auth.refreshSession config.toAuthConfig s.clock call).1.sessions.get s.clock
    sessionId = some session at hget
  rcases sessions_refreshSession s.auth s.clock call with hsame | ⟨old, swapped, hold, hswap, hset⟩
  · rw [hsame] at hget
    exact ⟨session, hget, huser⟩
  · rw [hset] at hget
    obtain ⟨expiry, hentry, hlive⟩ := ExpiringStore.get_eq_some_iff.mp hget
    by_cases heq : sessionId = call.refreshToken.sessionId
    · rw [heq, ExpiringStore.entries_setex_self] at hentry
      have hsession : swapped = session := congrArg Prod.fst (Option.some.inj hentry)
      rw [heq]
      exact ⟨old, hold, by rw [← hswap, hsession, huser]⟩
    · rw [ExpiringStore.entries_setex_of_ne heq] at hentry
      exact ⟨session, ExpiringStore.get_eq_some_iff.mpr ⟨expiry, hentry, hlive⟩, huser⟩

/-! ## Enforcing the limit -/

theorem clock_foldl_terminateSession (s : SessionState) (sessionIds : List String) :
    (sessionIds.foldl (SessionState.terminateSession config) s).clock = s.clock := by
  induction sessionIds generalizing s with
  | nil => rfl
  | cons x sessionIds ih => rw [List.foldl_cons, ih, clock_terminateSession]

theorem existing_foldl_terminateSession {u x : String} (sessionIds : List String) :
    (sessionIds.foldl (SessionState.terminateSession config) s).Existing u x ↔
      x ∉ sessionIds ∧ s.Existing u x := by
  induction sessionIds generalizing s with
  | nil => simp
  | cons y sessionIds ih =>
      rw [List.foldl_cons, ih, existing_terminateSession, List.mem_cons, not_or]
      tauto

theorem Indexed.foldl_terminateSession (h : s.Indexed) (sessionIds : List String) :
    (sessionIds.foldl (SessionState.terminateSession config) s).Indexed := by
  induction sessionIds generalizing s with
  | nil => exact h
  | cons x sessionIds ih =>
      apply ih
      apply h.of_existing
      · intro u y hy
        exact (existing_terminateSession.mp hy).2
      · intro u y hy
        exact mem_ranking_terminateSession (existing_terminateSession.mp hy).1

theorem oldestSessions_eq (s : SessionState) (userId : String) :
    s.oldestSessions config userId =
      (s.index userId).ranking.take (s.excess config userId) := by
  unfold oldestSessions
  split
  · rename_i hfull
    have hpos : 0 < s.excess config userId := by
      unfold excess
      omega
    rw [SortedSet.zrange, List.drop_zero, Nat.sub_add_cancel hpos]
  · rename_i hroom
    have hzero : s.excess config userId = 0 := by
      unfold excess
      omega
    rw [hzero, List.take_zero]

theorem length_keptSessions (s : SessionState) (userId : String)
    (hlimit : 0 ≤ config.maxSessionsPerUser) :
    ((s.keptSessions config userId).length : ℤ) ≤ config.maxSessionsPerUser := by
  rw [keptSessions, List.length_drop, SortedSet.length_ranking, excess]
  omega

theorem length_keptSessions_of_full (hlimit : 0 ≤ config.maxSessionsPerUser)
    (hfull : s.oldestSessions config userId ≠ []) :
    ((s.keptSessions config userId).length : ℤ) = config.maxSessionsPerUser := by
  have hover : config.maxSessionsPerUser < (s.index userId).zcard := by
    by_contra hroom
    exact hfull (if_neg hroom)
  rw [keptSessions, List.length_drop, SortedSet.length_ranking, excess]
  omega

theorem mem_keptSessions (hmem : sessionId ∈ (s.index userId).ranking)
    (hold : sessionId ∉ s.oldestSessions config userId) :
    sessionId ∈ s.keptSessions config userId := by
  rw [oldestSessions_eq] at hold
  rw [← List.take_append_drop (s.excess config userId) (s.index userId).ranking,
    List.mem_append] at hmem
  exact hmem.resolve_left hold

theorem not_mem_oldestSessions (hkept : sessionId ∈ s.keptSessions config userId) :
    sessionId ∉ s.oldestSessions config userId := by
  have hnodup := (s.index userId).nodup_ranking
  rw [← List.take_append_drop (s.excess config userId) (s.index userId).ranking] at hnodup
  rw [oldestSessions_eq]
  intro hold
  exact List.disjoint_of_nodup_append hnodup hold hkept

/-! ## Creating a session -/

variable {call : CreateCall}

theorem existing_storeSession {u x : String}
    (h : (s.storeSession config call).Existing u x) :
    (u = call.userId ∧ x = call.sessionId) ∨ (x ≠ call.sessionId ∧ s.Existing u x) := by
  obtain ⟨session, hget, huser⟩ := h
  change (s.auth.sessions.setex s.clock call.sessionId config.refreshTokenTtl
    (call.sessionData config s.clock)).get s.clock x = some session at hget
  obtain ⟨expiry, hentry, hlive⟩ := ExpiringStore.get_eq_some_iff.mp hget
  by_cases heq : x = call.sessionId
  · rw [heq, ExpiringStore.entries_setex_self] at hentry
    have hsession : call.sessionData config s.clock = session :=
      congrArg Prod.fst (Option.some.inj hentry)
    rw [← hsession] at huser
    exact Or.inl ⟨huser.symm, heq⟩
  · rw [ExpiringStore.entries_setex_of_ne heq] at hentry
    exact Or.inr ⟨heq, session, ExpiringStore.get_eq_some_iff.mpr ⟨expiry, hentry, hlive⟩, huser⟩

theorem Indexed.storeSession (h : s.Indexed) : (s.storeSession config call).Indexed := by
  intro u x hx
  have hindex : (s.storeSession config call).index =
      Function.update s.index call.userId
        ((s.index call.userId).zadd call.sessionId s.clock) := rfl
  rw [hindex, SortedSet.mem_ranking]
  rcases existing_storeSession hx with ⟨hu, heq⟩ | ⟨hne, hold⟩
  · rw [hu, Function.update_self]
    exact ⟨s.clock, SortedSet.mem_zadd.mpr (Or.inr (by rw [heq]))⟩
  · obtain ⟨score, hscore⟩ := SortedSet.mem_ranking.mp (h u x hold)
    by_cases hu : u = call.userId
    · subst hu
      rw [Function.update_self]
      exact ⟨score, SortedSet.mem_zadd.mpr (Or.inl ⟨hscore, hne⟩)⟩
    · rw [Function.update_of_ne hu]
      exact ⟨score, hscore⟩

theorem createSession_of_allowed (h : call.allowed = true) :
    s.createSession config call =
      ((s.storeSession config call).oldestSessions config call.userId).foldl
        (SessionState.terminateSession config) (s.storeSession config call) := by
  rw [createSession, if_pos h]
  rfl

theorem existing_createSession (h : call.allowed = true) {u x : String} :
    (s.createSession config call).Existing u x ↔
      x ∉ (s.storeSession config call).oldestSessions config call.userId ∧
        (s.storeSession config call).Existing u x := by
  rw [createSession_of_allowed h, existing_foldl_terminateSession]

/-- What the call leaves of the sessions of the user is listed beyond the excess. -/
theorem mem_kept_of_existing (hindexed : s.Indexed) (h : call.allowed = true)
    (hx : (s.createSession config call).Existing call.userId sessionId) :
    sessionId ∈ (s.storeSession config call).keptSessions config call.userId := by
  obtain ⟨hold, hstored⟩ := (existing_createSession h).mp hx
  exact mem_keptSessions (hindexed.storeSession _ _ hstored) hold

theorem clock_createSession (h : call.allowed = true) :
    (s.createSession config call).clock = s.clock := by
  rw [createSession_of_allowed h, clock_foldl_terminateSession]
  rfl

theorem withinLimit_createSession (hindexed : s.Indexed) (h : call.allowed = true)
    (hlimit : 0 ≤ config.maxSessionsPerUser) :
    (s.createSession config call).WithinLimit config call.userId := by
  intro sessionIds hnodup hexist
  have hsub : sessionIds ⊆ (s.storeSession config call).keptSessions config call.userId :=
    fun x hx => mem_kept_of_existing hindexed h (hexist x hx)
  have hle := (hnodup.subperm hsub).length_le
  have hkept := length_keptSessions (s.storeSession config call) call.userId hlimit
  omega

theorem Tracked.createSession (h : s.Tracked config) (call : CreateCall) :
    (s.createSession config call).Tracked config := by
  by_cases hallowed : call.allowed = true
  · constructor
    · rw [createSession_of_allowed hallowed]
      exact h.indexed.storeSession.foldl_terminateSession _
    · intro hlimit u
      by_cases hu : u = call.userId
      · rw [hu]
        exact withinLimit_createSession h.indexed hallowed hlimit
      · apply (h.bounded hlimit u).of_existing
        intro x hx
        have hstored := ((existing_createSession hallowed).mp hx).2
        rcases existing_storeSession hstored with ⟨huser, _⟩ | ⟨_, hold⟩
        · exact absurd huser hu
        · exact hold
  · rw [SessionState.createSession, if_neg hallowed]
    exact h

/-- The sessions that the call evicts are the oldest ones that still exist. -/
theorem evicts_iff (h : call.allowed = true) :
    s.Evicts config call sessionId ↔
      sessionId ∈ (s.storeSession config call).oldestSessions config call.userId ∧
        ((s.storeSession config call).auth.sessions.get s.clock sessionId).isSome := by
  have hafter : (s.createSession config call).auth.sessions.get s.clock sessionId = none ↔
      ∀ u, ¬(s.createSession config call).Existing u sessionId := by
    rw [← clock_createSession h]
    constructor
    · intro hnone u hexist
      obtain ⟨session, hget, _⟩ := hexist
      rw [hnone] at hget
      cases hget
    · intro hnone
      cases hget : (s.createSession config call).auth.sessions.get
          (s.createSession config call).clock sessionId with
      | none => rfl
      | some session => exact absurd ⟨session, hget, rfl⟩ (hnone session.userId)
  unfold Evicts
  rw [hafter, and_comm]
  apply and_congr_left
  intro hsome
  obtain ⟨session, hget⟩ := Option.isSome_iff_exists.mp hsome
  constructor
  · intro hnone
    by_contra hold
    exact hnone session.userId ((existing_createSession h).mpr ⟨hold, session, hget, rfl⟩)
  · intro hold u hexist
    exact ((existing_createSession h).mp hexist).1 hold

/-- All that is kept exists where the remaining sessions fill the limit, and the other way
round. -/
theorem evictsForLimit_iff (hindexed : s.Indexed) (h : call.allowed = true)
    (hlimit : 0 ≤ config.maxSessionsPerUser) :
    s.EvictsForLimit config call ↔ s.IndexInStep config call := by
  have hkeptNodup : ((s.storeSession config call).keptSessions config call.userId).Nodup :=
    ((s.storeSession config call).index call.userId).nodup_ranking.sublist
      (List.drop_sublist _ _)
  constructor
  · intro hevicts oldest hold hsome x hx
    obtain ⟨sessionIds, hnodup, hexist, hmore⟩ := hevicts oldest ((evicts_iff h).mpr ⟨hold, hsome⟩)
    have hfull := length_keptSessions_of_full hlimit (List.ne_nil_of_mem hold)
    have hsub : sessionIds ⊆ (s.storeSession config call).keptSessions config call.userId :=
      fun y hy => mem_kept_of_existing hindexed h (hexist y hy)
    have hperm := (hnodup.subperm hsub).perm_of_length_le (by omega)
    exact ((existing_createSession h).mp (hexist x (hperm.mem_iff.mpr hx))).2
  · intro hinStep evicted hevicted
    obtain ⟨hold, hsome⟩ := (evicts_iff h).mp hevicted
    have hfull := length_keptSessions_of_full hlimit (List.ne_nil_of_mem hold)
    refine ⟨_, hkeptNodup, ?_, by omega⟩
    intro x hx
    exact (existing_createSession h).mpr
      ⟨not_mem_oldestSessions hx, hinStep evicted hold hsome x hx⟩

/-! ## Runs -/

theorem Tracked.step (h : s.Tracked config) (timed : TimedRequest) :
    (s.step config timed).Tracked config := by
  obtain ⟨elapsed, request⟩ := timed
  have hwait := h.wait elapsed
  cases request with
  | createSession call => exact hwait.createSession call
  | terminateSession sessionId => exact hwait.terminateSession sessionId
  | refreshSession call =>
      exact hwait.of_existing (fun _ _ => existing_of_refreshSession) fun _ _ _ hmem => hmem

theorem tracked_start (config : SessionConfig) (clock : ℚ) : (start clock).Tracked config := by
  have hnone : ∀ userId sessionId, ¬(start clock).Existing userId sessionId := by
    intro u x hx
    obtain ⟨session, hget, _⟩ := hx
    cases hget
  constructor
  · intro u x hx
    exact absurd hx (hnone u x)
  · intro hlimit u sessionIds _ hexist
    cases sessionIds with
    | nil => simpa using hlimit
    | cons x rest => exact absurd (hexist x (by simp)) (hnone u x)

theorem boundsSessions_iff (h : s.Tracked config) (timed : TimedRequest) :
    s.BoundsSessions config timed ↔ s.LimitHolds config timed := by
  obtain ⟨elapsed, request⟩ := timed
  cases request with
  | createSession call =>
      have hwait := h.wait elapsed
      have hafter := (hwait.createSession call).bounded
      constructor
      · intro ⟨hwithin, hevicts⟩
        have hlimit : 0 ≤ config.maxSessionsPerUser := by
          simpa using hwithin [] List.nodup_nil (by simp)
        refine ⟨hlimit, fun hallowed => ?_⟩
        exact (evictsForLimit_iff hwait.indexed hallowed hlimit).mp (hevicts hallowed)
      · intro ⟨hlimit, hinStep⟩
        refine ⟨hafter hlimit call.userId, fun hallowed => ?_⟩
        exact (evictsForLimit_iff hwait.indexed hallowed hlimit).mpr (hinStep hallowed)
  | refreshSession call => exact Iff.rfl
  | terminateSession sessionId => exact Iff.rfl

/-- The limit bounds what exists, and is not met by sessions that have expired, exactly where the
index is in step with the hashes whenever a session is evicted. -/
theorem sessions_bounded_iff (config : SessionConfig) (clock : ℚ) (requests : List TimedRequest) :
    EachStep (step config) (BoundsSessions config) (start clock) requests ↔
      EachStep (step config) (LimitHolds config) (start clock) requests :=
  eachStep_congr (P := Tracked config) (fun _ timed h _ => h.step timed)
    (fun _ timed h => boundsSessions_iff h timed) (tracked_start config clock) requests

/-- Two sessions for each user, which live for ten seconds. -/
def twoSessions : SessionConfig := ⟨⟨5, 10, 0, false⟩, 2⟩

def createFor (uuid accessJti refreshJti : String) : SessionRequest :=
  .createSession ⟨"u", uuid, "ip", "agent", true, accessJti, refreshJti⟩

/-- `a` is refreshed, `b` expires, and `d` is created. -/
def staleIndex : List TimedRequest :=
  [⟨0, createFor "a" "a1" "r1"⟩, ⟨1, createFor "b" "a2" "r2"⟩,
    ⟨4, .refreshSession ⟨⟨"u", 10, "r1", .refresh, "u_a"⟩, "ip", "agent", true, "a3", "r3"⟩⟩,
    ⟨7, createFor "d" "a4" "r4"⟩]

/-- The last call evicts `a`, though only `a` and `d` exist. -/
theorem expired_session_fills_limit :
    ¬EachStep (step twoSessions) (BoundsSessions twoSessions) (start 0) staleIndex := by
  intro h
  obtain ⟨_, _, _, hlast, _⟩ := h
  have htracked := (((tracked_start twoSessions 0).step ⟨0, createFor "a" "a1" "r1"⟩).step
    ⟨1, createFor "b" "a2" "r2"⟩).step
      ⟨4, .refreshSession ⟨⟨"u", 10, "r1", .refresh, "u_a"⟩, "ip", "agent", true, "a3", "r3"⟩⟩
  have hinStep := ((boundsSessions_iff htracked _).mp hlast).2 rfl
  obtain ⟨session, hget, _⟩ := hinStep "u_a" (by decide +kernel) (by decide +kernel) "u_b"
    (by decide +kernel)
  have hsome := Option.isSome_of_eq_some hget
  revert hsome
  decide +kernel

end SessionState

end TradingPlatform.Auth
