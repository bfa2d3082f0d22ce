import TradingPlatform.Auth.SessionCalls

/-! # Rotation is single use, and termination is final

A refresh swaps the id it presents for a fresh one in one command, so that the id is never in the
session again. A session that is deleted is never written again.
-/

namespace TradingPlatform.Auth

open Base

variable {C : Type*} {config : AuthConfig} {s : AuthState} {now : ℚ}

/-- The refresh that has not swapped yet. -/
def CallPhase.pending : CallPhase → Option RefreshCall
  | .refreshExists call => some call
  | .refreshBinding call => some call
  | .refreshSwap call _ => some call
  | _ => none

/-- The refresh that has swapped. -/
def CallPhase.swapped : CallPhase → Option RefreshCall
  | .refreshRevokeAccess call _ _ => some call
  | .refreshRevokeRefresh call => some call
  | .refreshed call => some call
  | _ => none

/-- The call has not found its session. -/
def CallPhase.Unbound : CallPhase → Prop
  | .refreshSwap .. => False
  | .refreshRevokeAccess .. => False
  | .refreshRevokeRefresh .. => False
  | .refreshed .. => False
  | .validated .. => False
  | _ => True

/-- The session that a call is about, as long as it has not returned. -/
def CallPhase.sessionId : CallPhase → Option String
  | .refreshExists call => some call.refreshToken.sessionId
  | .refreshBinding call => some call.refreshToken.sessionId
  | .validateExists accessToken _ _ => some accessToken.sessionId
  | .validateBinding accessToken _ _ => some accessToken.sessionId
  | _ => none

/-- The session has the refresh jti. -/
def AuthState.Holds (s : AuthState) (sessionId jti : String) : Prop :=
  ∃ session expiry, s.sessions.entries sessionId = some (session, expiry) ∧
    session.refreshJti = jti

def AuthRun.Pending (s : AuthRun C) (c : C) (call : RefreshCall) : Prop :=
  ∃ started, s.calls c = some started ∧ started.phase.pending = some call

def AuthRun.Swapped (s : AuthRun C) (c : C) (call : RefreshCall) : Prop :=
  ∃ started, s.calls c = some started ∧ started.phase.swapped = some call

/-- A jti that is in a session, or that a refresh presents or mints. -/
def AuthRun.Used (s : AuthRun C) (jti : String) : Prop :=
  (∃ sessionId, s.auth.Holds sessionId jti) ∨
    ∃ c call, (s.Pending c call ∨ s.Swapped c call) ∧
      (call.refreshToken.jti = jti ∨ call.newRefreshJti = jti)

/-- The refresh token of a call gets a jti of its own. -/
def MintsFresh (s : AuthRun C) : AuthCommand C → Prop
  | .start _ (.refreshSession call) =>
      ¬s.Used call.newRefreshJti ∧ call.newRefreshJti ≠ call.refreshToken.jti
  | _ => True

/-- Two refreshes that return with one token are one. -/
def SingleUse (s : AuthRun C) : Prop :=
  ∀ c d started other call call', s.calls c = some started → s.calls d = some other →
    started.phase = .refreshed call → other.phase = .refreshed call' →
      call.refreshToken = call'.refreshToken → c = d

/-- No call that starts after its session is terminated accepts or exchanges a token. -/
def TerminationFinal (s : AuthRun C) : Prop :=
  ∀ c started, s.calls c = some started → started.late = true →
    (∀ call, started.phase ≠ .refreshed call) ∧ ∀ token, started.phase ≠ .validated token

/-! ## One command -/

/-- A command that swaps. -/
structure Swaps (config : AuthConfig) (s : AuthState) (now : ℚ) (phase : CallPhase)
    (call : RefreshCall) (sessions : ExpiringStore String SessionHash) : Prop where
  pending : phase.pending = some call
  after : ∃ oldAccessJti oldAccessExp, advance config s now phase =
    ({ s with sessions }, .refreshRevokeAccess call oldAccessJti oldAccessExp)
  found : s.Holds call.refreshToken.sessionId call.refreshToken.jti
  swapped : ∃ session expiry,
    sessions.entries call.refreshToken.sessionId = some (session, expiry) ∧
      session.refreshJti = call.newRefreshJti
  others : ∀ sessionId, sessionId ≠ call.refreshToken.sessionId →
    sessions.entries sessionId = s.sessions.entries sessionId

theorem atomicRefreshCas_eq_ok {session : Option SessionHash} {jti : String}
    {access refresh : Token} {after : SessionHash × String × ℤ}
    (h : atomicRefreshCas session jti access refresh = .ok after) :
    ∃ before, session = some before ∧ before.refreshJti = jti ∧
      after.1.refreshJti = refresh.jti := by
  cases session with
  | none => cases h
  | some before =>
      unfold atomicRefreshCas at h
      dsimp only at h
      split at h
      · cases h
      · rename_i heq
        rw [Decidable.not_not] at heq
        cases h
        exact ⟨before, rfl, heq, rfl⟩

@[simp] theorem revokeIfAny_sessions (s : AuthState) (now : ℚ) (jti : String) (exp : ℤ) :
    (s.revokeIfAny now jti exp).sessions = s.sessions := by
  unfold AuthState.revokeIfAny
  split <;> rfl

/-- A swap, or a command that leaves the sessions or deletes one; then no refresh becomes pending
or swapped that was not. -/
theorem advance_cases (config : AuthConfig) (s : AuthState) (now : ℚ) (phase : CallPhase) :
    (∃ call sessions, Swaps config s now phase call sessions) ∨
      ((advance config s now phase).1.sessions = s.sessions ∧ phase.terminates = [] ∨
        ∃ sessionId, phase = .terminateDelete sessionId ∧
          (advance config s now phase).1.sessions = s.sessions.delete sessionId) ∧
      ((advance config s now phase).2.pending = none ∨
        (advance config s now phase).2.pending = phase.pending) ∧
      (advance config s now phase).2.swapped = phase.swapped := by
  cases phase with
  | refreshSwap call mintedAt =>
      cases hcas : atomicRefreshCas (s.sessions.get now call.refreshToken.sessionId)
          call.refreshToken.jti (call.newAccess config mintedAt)
          (call.newRefresh config mintedAt) with
      | error _ =>
          right
          simp [advance, hcas, CallPhase.pending, CallPhase.swapped, CallPhase.terminates]
      | ok after =>
          left
          obtain ⟨session, hsession, hjti, hnew⟩ := atomicRefreshCas_eq_ok hcas
          obtain ⟨expiry, hentry, _⟩ := ExpiringStore.get_eq_some_iff.mp hsession
          refine ⟨call, s.sessions.setex now call.refreshToken.sessionId config.refreshTokenTtl
            after.1, rfl, ⟨after.2.1, after.2.2, ?_⟩, ⟨session, expiry, hentry, hjti⟩,
            ⟨after.1, _, ExpiringStore.entries_setex_self, hnew⟩, ?_⟩
          · unfold advance
            dsimp only
            rw [hcas]
          · intro sessionId hne
            exact ExpiringStore.entries_setex_of_ne hne
  | terminateDelete sessionId =>
      right
      exact ⟨Or.inr ⟨sessionId, rfl, rfl⟩, Or.inl rfl, rfl⟩
  | refreshExists call =>
      right
      unfold advance
      dsimp only
      split
      · exact ⟨Or.inl ⟨rfl, rfl⟩, Or.inr rfl, rfl⟩
      · exact ⟨Or.inl ⟨rfl, rfl⟩, Or.inl rfl, rfl⟩
  | refreshBinding call =>
      right
      unfold advance
      dsimp only
      split
      · exact ⟨Or.inl ⟨rfl, rfl⟩, Or.inl rfl, rfl⟩
      · split
        · exact ⟨Or.inl ⟨rfl, rfl⟩, Or.inr rfl, rfl⟩
        · exact ⟨Or.inl ⟨rfl, rfl⟩, Or.inl rfl, rfl⟩
  | validateExists accessToken clientIp userAgentHash =>
      right
      unfold advance
      dsimp only
      split
      · exact ⟨Or.inl ⟨rfl, rfl⟩, Or.inl rfl, rfl⟩
      · exact ⟨Or.inl ⟨rfl, rfl⟩, Or.inl rfl, rfl⟩
  | validateBinding accessToken clientIp userAgentHash =>
      right
      unfold advance
      dsimp only
      split
      · exact ⟨Or.inl ⟨rfl, rfl⟩, Or.inl rfl, rfl⟩
      · split
        · exact ⟨Or.inl ⟨rfl, rfl⟩, Or.inl rfl, rfl⟩
        · exact ⟨Or.inl ⟨rfl, rfl⟩, Or.inl rfl, rfl⟩
  | terminateRead sessionId =>
      right
      unfold advance
      dsimp only
      split
      · exact ⟨Or.inl ⟨rfl, rfl⟩, Or.inl rfl, rfl⟩
      · exact ⟨Or.inl ⟨rfl, rfl⟩, Or.inl rfl, rfl⟩
  | refreshRevokeAccess call oldAccessJti oldAccessExp =>
      right
      exact ⟨Or.inl ⟨revokeIfAny_sessions .., rfl⟩, Or.inl rfl, rfl⟩
  | terminateRevokeAccess sessionId session =>
      right
      exact ⟨Or.inl ⟨revokeIfAny_sessions .., rfl⟩, Or.inl rfl, rfl⟩
  | terminateRevokeRefresh sessionId session =>
      right
      exact ⟨Or.inl ⟨revokeIfAny_sessions .., rfl⟩, Or.inl rfl, rfl⟩
  | refreshRevokeRefresh call =>
      right
      exact ⟨Or.inl ⟨rfl, rfl⟩, Or.inl rfl, rfl⟩
  | refreshed call =>
      right
      exact ⟨Or.inl ⟨rfl, rfl⟩, Or.inl rfl, rfl⟩
  | validated accessToken =>
      right
      exact ⟨Or.inl ⟨rfl, rfl⟩, Or.inl rfl, rfl⟩
  | terminated sessionId =>
      right
      exact ⟨Or.inl ⟨rfl, rfl⟩, Or.inl rfl, rfl⟩
  | raised =>
      right
      exact ⟨Or.inl ⟨rfl, rfl⟩, Or.inl rfl, rfl⟩

/-! ## Rotation -/

/-- What is in the sessions, and the refreshes before and after their swap. -/
structure Rotation (Holds : String → String → Prop) (Pending Swapped : C → RefreshCall → Prop) :
    Prop where
  rotated : ∀ c call, Swapped c call →
    ¬Holds call.refreshToken.sessionId call.refreshToken.jti
  single : ∀ c d call call', Swapped c call → Swapped d call' →
    call.refreshToken = call'.refreshToken → c = d
  fresh : ∀ c call, Pending c call → (∀ sessionId, ¬Holds sessionId call.newRefreshJti) ∧
    call.newRefreshJti ≠ call.refreshToken.jti
  unused : ∀ c d call call', Pending c call → Swapped d call' →
    call'.refreshToken.jti ≠ call.newRefreshJti
  minted : ∀ c d call call', Pending c call → Pending d call' → c ≠ d →
    call.newRefreshJti ≠ call'.newRefreshJti

namespace Rotation

variable {Holds Holds' : String → String → Prop} {Pending Pending' Swapped Swapped' :
  C → RefreshCall → Prop}

theorem mono (h : Rotation Holds Pending Swapped)
    (hholds : ∀ sessionId jti, Holds' sessionId jti → Holds sessionId jti)
    (hpending : ∀ c call, Pending' c call → Pending c call)
    (hswapped : ∀ c call, Swapped' c call → Swapped c call) :
    Rotation Holds' Pending' Swapped' where
  rotated := fun c call hc hholds' => h.rotated c call (hswapped c call hc) (hholds _ _ hholds')
  single := fun c d call call' hc hd =>
    h.single c d call call' (hswapped c call hc) (hswapped d call' hd)
  fresh := by
    intro c call hc
    have ⟨hnone, hown⟩ := h.fresh c call (hpending c call hc)
    exact ⟨fun sessionId hholds' => hnone sessionId (hholds _ _ hholds'), hown⟩
  unused := fun c d call call' hc hd =>
    h.unused c d call call' (hpending c call hc) (hswapped d call' hd)
  minted := fun c d call call' hc hd =>
    h.minted c d call call' (hpending c call hc) (hpending d call' hd)

/-- A refresh starts with a jti that is not used. -/
theorem started (h : Rotation Holds Pending Swapped) {c : C} {call : RefreshCall}
    (hpending : ∀ d x, Pending' d x → Pending d x ∨ d = c ∧ x = call)
    (hholds : ∀ sessionId, ¬Holds sessionId call.newRefreshJti)
    (hown : call.newRefreshJti ≠ call.refreshToken.jti)
    (hothers : ∀ d x, Pending d x → x.newRefreshJti ≠ call.newRefreshJti)
    (hswapped : ∀ d x, Swapped d x → x.refreshToken.jti ≠ call.newRefreshJti) :
    Rotation Holds Pending' Swapped where
  rotated := h.rotated
  single := h.single
  fresh := by
    intro d x hd
    rcases hpending d x hd with hold | ⟨_, rfl⟩
    · exact h.fresh d x hold
    · exact ⟨hholds, hown⟩
  unused := by
    intro d e x y hd he
    rcases hpending d x hd with hold | ⟨_, rfl⟩
    · exact h.unused d e x y hold he
    · exact hswapped e y he
  minted := by
    intro d e x y hd he hne
    rcases hpending d x hd with hdold | ⟨rfl, rfl⟩
    · rcases hpending e y he with heold | ⟨rfl, rfl⟩
      · exact h.minted d e x y hdold heold hne
      · exact hothers d x hdold
    · rcases hpending e y he with heold | ⟨rfl, rfl⟩
      · exact (hothers e y heold).symm
      · exact absurd rfl hne

/-- A swap puts a jti into the session that no other has. -/
theorem swap (h : Rotation Holds Pending Swapped) {c : C} {call : RefreshCall}
    (hc : Pending c call)
    (hfound : Holds call.refreshToken.sessionId call.refreshToken.jti)
    (hnew : ∀ jti, Holds' call.refreshToken.sessionId jti → jti = call.newRefreshJti)
    (hothers : ∀ sessionId jti, sessionId ≠ call.refreshToken.sessionId →
      Holds' sessionId jti → Holds sessionId jti)
    (hpending : ∀ d x, Pending' d x → d ≠ c ∧ Pending d x)
    (hswapped : ∀ d x, Swapped' d x → Swapped d x ∨ d = c ∧ x = call) :
    Rotation Holds' Pending' Swapped' where
  rotated := by
    intro d x hd hholds
    by_cases hid : x.refreshToken.sessionId = call.refreshToken.sessionId
    · rw [hid] at hholds
      have hjti := hnew _ hholds
      rcases hswapped d x hd with hold | ⟨_, rfl⟩
      · exact h.unused c d call x hc hold hjti
      · exact (h.fresh c x hc).2 hjti.symm
    · rcases hswapped d x hd with hold | ⟨_, rfl⟩
      · exact h.rotated d x hold (hothers _ _ hid hholds)
      · exact hid rfl
  single := by
    intro d e x y hd he htoken
    rcases hswapped d x hd with hdold | ⟨rfl, rfl⟩
    · rcases hswapped e y he with heold | ⟨rfl, rfl⟩
      · exact h.single d e x y hdold heold htoken
      · exact absurd hfound (htoken ▸ h.rotated d x hdold)
    · rcases hswapped e y he with heold | ⟨rfl, rfl⟩
      · exact absurd hfound (htoken ▸ h.rotated e y heold)
      · rfl
  fresh := by
    intro d x hd
    have ⟨hne, hold⟩ := hpending d x hd
    have ⟨hnone, hown⟩ := h.fresh d x hold
    refine ⟨?_, hown⟩
    intro sessionId hholds
    by_cases hid : sessionId = call.refreshToken.sessionId
    · rw [hid] at hholds
      exact h.minted d c x call hold hc hne (hnew _ hholds)
    · exact hnone sessionId (hothers _ _ hid hholds)
  unused := by
    intro d e x y hd he
    have ⟨_, hold⟩ := hpending d x hd
    rcases hswapped e y he with heold | ⟨_, rfl⟩
    · exact h.unused d e x y hold heold
    · intro hjti
      rw [hjti] at hfound
      exact (h.fresh d x hold).1 _ hfound
  minted := by
    intro d e x y hd he
    exact h.minted d e x y (hpending d x hd).2 (hpending e y he).2

end Rotation

/-! ## The invariant -/

structure RotationInvariant (s : AuthRun C) : Prop where
  rotation : Rotation s.auth.Holds s.Pending s.Swapped
  gone : ∀ sessionId ∈ s.terminated, s.auth.sessions.entries sessionId = none
  late : ∀ c started, s.calls c = some started → started.late = true →
    started.phase.Unbound ∧
      ∀ sessionId, started.phase.sessionId = some sessionId → sessionId ∈ s.terminated

theorem singleUse {s : AuthRun C} (h : RotationInvariant s) : SingleUse s := by
  intro c d started other call call' hc hd hstarted hother htoken
  apply h.rotation.single c d call call'
  · exact ⟨started, hc, by rw [hstarted]; rfl⟩
  · exact ⟨other, hd, by rw [hother]; rfl⟩
  · exact htoken

theorem terminationFinal {s : AuthRun C} (h : RotationInvariant s) : TerminationFinal s := by
  intro c started hc hlate
  have ⟨hunbound, _⟩ := h.late c started hc hlate
  constructor
  · intro call hphase
    rw [hphase] at hunbound
    exact hunbound
  · intro token hphase
    rw [hphase] at hunbound
    exact hunbound

/-- A call that has not found its session does not find it later. -/
theorem advance_unbound {phase : CallPhase} (hunbound : phase.Unbound)
    (hgone : ∀ sessionId, phase.sessionId = some sessionId →
      s.sessions.entries sessionId = none) :
    (advance config s now phase).2.Unbound ∧
      ∀ sessionId, (advance config s now phase).2.sessionId = some sessionId →
        phase.sessionId = some sessionId := by
  have hget : ∀ sessionId, phase.sessionId = some sessionId →
      s.sessions.get now sessionId = none := by
    intro sessionId hid
    rw [ExpiringStore.get, hgone sessionId hid]
  have hnone : ∀ sessionId, none = some sessionId → phase.sessionId = some sessionId :=
    fun sessionId h => absurd h.symm (Option.some_ne_none sessionId)
  unfold advance
  cases phase with
  | refreshExists call =>
      dsimp only
      split
      · exact ⟨trivial, fun _ h => h⟩
      · exact ⟨trivial, hnone⟩
  | refreshBinding call =>
      dsimp only
      rw [hget call.refreshToken.sessionId rfl]
      exact ⟨trivial, hnone⟩
  | validateExists accessToken clientIp userAgentHash =>
      dsimp only
      split
      · exact ⟨trivial, fun _ h => h⟩
      · exact ⟨trivial, hnone⟩
  | validateBinding accessToken clientIp userAgentHash =>
      dsimp only
      rw [hget accessToken.sessionId rfl]
      exact ⟨trivial, hnone⟩
  | terminateRead sessionId =>
      dsimp only
      split
      · exact ⟨trivial, hnone⟩
      · exact ⟨trivial, hnone⟩
  | terminateRevokeAccess sessionId session => exact ⟨trivial, hnone⟩
  | terminateRevokeRefresh sessionId session => exact ⟨trivial, hnone⟩
  | terminateDelete sessionId => exact ⟨trivial, hnone⟩
  | terminated sessionId => exact ⟨trivial, hnone⟩
  | raised => exact ⟨trivial, hnone⟩
  | refreshSwap call mintedAt => exact hunbound.elim
  | refreshRevokeAccess call oldAccessJti oldAccessExp => exact hunbound.elim
  | refreshRevokeRefresh call => exact hunbound.elim
  | refreshed call => exact hunbound.elim
  | validated accessToken => exact hunbound.elim

variable [DecidableEq C]

/-- A call that a command is not of is as it was. -/
theorem update_cases {calls : C → Option StartedCall} {c d : C} {started found : StartedCall}
    (h : Function.update calls c (some started) d = some found) :
    d = c ∧ found = started ∨ d ≠ c ∧ calls d = some found := by
  by_cases hd : d = c
  · rw [hd, Function.update_self] at h
    exact Or.inl ⟨hd, (Option.some.inj h).symm⟩
  · rw [Function.update_of_ne hd] at h
    exact Or.inr ⟨hd, h⟩

/-- The calls after one starts. -/
def AuthRun.begin (s : AuthRun C) (c : C) (call : SessionCall) : AuthRun C :=
  { s with
    calls := Function.update s.calls c
      (some ⟨call.first, decide (call.sessionId ∈ s.terminated)⟩) }

theorem begin_swapped {s : AuthRun C} {c d : C} {call : SessionCall} {x : RefreshCall}
    (h : (s.begin c call).Swapped d x) : s.Swapped d x := by
  obtain ⟨found, hfound, hx⟩ := h
  rcases update_cases hfound with ⟨_, rfl⟩ | ⟨_, hold⟩
  · cases call <;> cases hx
  · exact ⟨found, hold, hx⟩

theorem begin_pending {s : AuthRun C} {c d : C} {call : SessionCall} {x : RefreshCall}
    (h : (s.begin c call).Pending d x) :
    s.Pending d x ∨ d = c ∧ call = .refreshSession x := by
  obtain ⟨found, hfound, hx⟩ := h
  rcases update_cases hfound with ⟨hd, rfl⟩ | ⟨_, hold⟩
  · cases call with
    | refreshSession call =>
        cases hx
        exact Or.inr ⟨hd, rfl⟩
    | validateSession accessToken clientIp userAgentHash => cases hx
    | terminateSession sessionId => cases hx
  · exact Or.inl ⟨found, hold, hx⟩

theorem begin_rotation {s : AuthRun C} {c : C} {call : SessionCall} (h : RotationInvariant s)
    (hfresh : MintsFresh s (.start c call)) :
    Rotation (s.begin c call).auth.Holds (s.begin c call).Pending (s.begin c call).Swapped := by
  have hswapped : ∀ d x, (s.begin c call).Swapped d x → s.Swapped d x :=
    fun d x => begin_swapped
  cases call with
  | refreshSession call =>
      have ⟨hunused, hown⟩ := hfresh
      have hstarted :
          Rotation s.auth.Holds (s.begin c (.refreshSession call)).Pending s.Swapped := by
        apply @Rotation.started _ _ _ _ _ h.rotation c call
        · intro d x hd
          rcases begin_pending hd with hold | ⟨hsame, hcall⟩
          · exact Or.inl hold
          · cases hcall
            exact Or.inr ⟨hsame, rfl⟩
        · intro sessionId hholds
          exact hunused (Or.inl ⟨sessionId, hholds⟩)
        · exact hown
        · intro d x hd hjti
          exact hunused (Or.inr ⟨d, x, Or.inl hd, Or.inr hjti⟩)
        · intro d x hd hjti
          exact hunused (Or.inr ⟨d, x, Or.inr hd, Or.inl hjti⟩)
      exact hstarted.mono (fun _ _ hholds => hholds) (fun _ _ hd => hd) hswapped
  | validateSession accessToken clientIp userAgentHash =>
      apply h.rotation.mono (fun _ _ hholds => hholds) ?_ hswapped
      intro d x hd
      rcases begin_pending hd with hold | ⟨_, hcall⟩
      · exact hold
      · cases hcall
  | terminateSession sessionId =>
      apply h.rotation.mono (fun _ _ hholds => hholds) ?_ hswapped
      intro d x hd
      rcases begin_pending hd with hold | ⟨_, hcall⟩
      · exact hold
      · cases hcall

theorem start_keeps {s : AuthRun C} {c : C} {call : SessionCall} (h : RotationInvariant s)
    (hfresh : MintsFresh s (.start c call)) :
    RotationInvariant (sessionStep config s (.start c call)) := by
  cases hcalls : s.calls c with
  | some _ =>
      have hstep : sessionStep config s (.start c call) = s := by
        unfold sessionStep
        dsimp only
        rw [hcalls]
      rw [hstep]
      exact h
  | none =>
      have hstep : sessionStep config s (.start c call) = s.begin c call := by
        unfold sessionStep
        dsimp only
        rw [hcalls]
        rfl
      rw [hstep]
      constructor
      · exact begin_rotation h hfresh
      · exact h.gone
      · intro d found hfound hlate
        rcases update_cases hfound with ⟨_, rfl⟩ | ⟨_, hold⟩
        · have hterminated : call.sessionId ∈ s.terminated := of_decide_eq_true hlate
          cases call with
          | refreshSession call =>
              refine ⟨trivial, ?_⟩
              intro sessionId hid
              cases hid
              exact hterminated
          | validateSession accessToken clientIp userAgentHash =>
              refine ⟨trivial, ?_⟩
              intro sessionId hid
              cases hid
              exact hterminated
          | terminateSession sessionId => exact ⟨trivial, nofun⟩
        · exact h.late d found hold hlate

theorem advance_keeps {s : AuthRun C} {c : C} (h : RotationInvariant s) (now : ℚ) :
    RotationInvariant (sessionStep config s (.advance c now)) := by
  cases hcalls : s.calls c with
  | none =>
      have hstep : sessionStep config s (.advance c now) = s := by
        unfold sessionStep
        dsimp only
        rw [hcalls]
      rw [hstep]
      exact h
  | some started =>
      have hstep : sessionStep config s (.advance c now) =
          ⟨(advance config s.auth now started.phase).1, Function.update s.calls c
            (some ⟨(advance config s.auth now started.phase).2, started.late⟩),
            started.phase.terminates ++ s.terminated⟩ := by
        unfold sessionStep
        dsimp only
        rw [hcalls]
      rw [hstep]
      have hlate : ∀ d found, Function.update s.calls c
          (some ⟨(advance config s.auth now started.phase).2, started.late⟩) d = some found →
            found.late = true → found.phase.Unbound ∧
              ∀ sessionId, found.phase.sessionId = some sessionId →
                sessionId ∈ started.phase.terminates ++ s.terminated := by
        intro d found hfound hlate
        rcases update_cases hfound with ⟨_, rfl⟩ | ⟨_, hold⟩
        · have ⟨hunbound, hterminated⟩ := h.late c started hcalls hlate
          have ⟨hunbound', hsame⟩ := @advance_unbound config _ now _ hunbound
            fun sessionId hid => h.gone sessionId (hterminated sessionId hid)
          refine ⟨hunbound', ?_⟩
          intro sessionId hid
          exact List.mem_append_right _ (hterminated sessionId (hsame sessionId hid))
        · have ⟨hunbound, hterminated⟩ := h.late d found hold hlate
          refine ⟨hunbound, ?_⟩
          intro sessionId hid
          exact List.mem_append_right _ (hterminated sessionId hid)
      rcases advance_cases config s.auth now started.phase with
        ⟨call, sessions, hswap⟩ | ⟨hsessions, hpending, hswapped⟩
      · obtain ⟨oldAccessJti, oldAccessExp, hafter⟩ := hswap.after
        have hnone : started.phase.terminates = [] := by
          have hphase := hswap.pending
          cases hstarted : started.phase <;> rw [hstarted] at hphase <;> first | rfl | cases hphase
        constructor
        · rw [hafter]
          apply Rotation.swap h.rotation ⟨started, hcalls, hswap.pending⟩ hswap.found
          · rintro jti ⟨session, expiry, hentry, rfl⟩
            obtain ⟨session', expiry', hentry', hjti⟩ := hswap.swapped
            rw [hentry'] at hentry
            cases hentry
            exact hjti
          · rintro sessionId jti hne ⟨session, expiry, hentry, hjti⟩
            exact ⟨session, expiry, (hswap.others sessionId hne).symm.trans hentry, hjti⟩
          · rintro d x ⟨found, hfound, hx⟩
            rcases update_cases hfound with ⟨_, rfl⟩ | ⟨hne, hold⟩
            · cases hx
            · exact ⟨hne, found, hold, hx⟩
          · rintro d x ⟨found, hfound, hx⟩
            rcases update_cases hfound with ⟨hd, rfl⟩ | ⟨_, hold⟩
            · cases hx
              exact Or.inr ⟨hd, rfl⟩
            · exact Or.inl ⟨found, hold, hx⟩
        · rw [hafter, hnone]
          intro sessionId hid
          have hentries := h.gone sessionId hid
          by_cases heq : sessionId = call.refreshToken.sessionId
          · obtain ⟨session, expiry, hentry, _⟩ := hswap.found
            rw [heq, hentry] at hentries
            cases hentries
          · exact (hswap.others sessionId heq).trans hentries
        · exact hlate
      · have hentries : ∀ sessionId,
            (advance config s.auth now started.phase).1.sessions.entries sessionId =
                s.auth.sessions.entries sessionId ∨
              (advance config s.auth now started.phase).1.sessions.entries sessionId = none := by
          intro sessionId
          rcases hsessions with ⟨hsame, _⟩ | ⟨deleted, _, hdeleted⟩
          · exact Or.inl (by rw [hsame])
          · rw [hdeleted]
            by_cases heq : sessionId = deleted
            · right
              rw [heq]
              exact Function.update_self ..
            · exact Or.inl (Function.update_of_ne heq ..)
        constructor
        · apply h.rotation.mono
          · rintro sessionId jti ⟨session, expiry, hentry, hjti⟩
            rcases hentries sessionId with hsame | hnone
            · exact ⟨session, expiry, hsame.symm.trans hentry, hjti⟩
            · rw [hnone] at hentry
              cases hentry
          · rintro d x ⟨found, hfound, hx⟩
            rcases update_cases hfound with ⟨hd, rfl⟩ | ⟨_, hold⟩
            · rcases hpending with hnone | hsame
              · rw [hnone] at hx
                cases hx
              · exact ⟨started, hd ▸ hcalls, hsame.symm.trans hx⟩
            · exact ⟨found, hold, hx⟩
          · rintro d x ⟨found, hfound, hx⟩
            rcases update_cases hfound with ⟨hd, rfl⟩ | ⟨_, hold⟩
            · exact ⟨started, hd ▸ hcalls, hswapped.symm.trans hx⟩
            · exact ⟨found, hold, hx⟩
        · intro sessionId hid
          dsimp only
          rcases hsessions with ⟨hsame, hnone⟩ | ⟨deleted, hphase, hdeleted⟩
          · rw [hnone] at hid
            rw [hsame]
            exact h.gone sessionId hid
          · rw [hphase] at hid
            rcases List.mem_cons.mp hid with rfl | hold
            · rw [hdeleted]
              exact Function.update_self ..
            · rcases hentries sessionId with hsame | hnone
              · rw [hsame]
                exact h.gone sessionId hold
              · exact hnone
        · exact hlate

/-! ## Runs -/

theorem sessionStep_keeps {s : AuthRun C} {command : AuthCommand C} (h : RotationInvariant s)
    (hfresh : MintsFresh s command) : RotationInvariant (sessionStep config s command) := by
  cases command with
  | start c call => exact start_keeps h hfresh
  | advance c now => exact advance_keeps h now

/-- In every interleaving each refresh token is exchanged once at most, and no call that starts
after a termination accepts or exchanges a token. -/
theorem rotation_is_single_use_and_termination_final (config : AuthConfig) (auth : AuthState)
    (commands : List (AuthCommand C))
    (hfresh : EachStep (sessionStep config) MintsFresh ⟨auth, fun _ => none, []⟩ commands) :
    EveryState (sessionStep config) (fun s => SingleUse s ∧ TerminationFinal s)
      ⟨auth, fun _ => none, []⟩ commands := by
  have hinit : RotationInvariant (⟨auth, fun _ => none, []⟩ : AuthRun C) := by
    constructor
    · constructor
      · rintro c call ⟨_, hnone, _⟩
        cases hnone
      · rintro c d call call' ⟨_, hnone, _⟩
        cases hnone
      · rintro c call ⟨_, hnone, _⟩
        cases hnone
      · rintro c d call call' ⟨_, hnone, _⟩
        cases hnone
      · rintro c d call call' ⟨_, hnone, _⟩
        cases hnone
    · nofun
    · nofun
  have hstates := everyState_of_eachStep (P := RotationInvariant)
    (fun s command h hc => sessionStep_keeps h hc) hinit hfresh
  exact hstates.mono fun s h => ⟨singleUse h, terminationFinal h⟩

def aliceRefresh : RefreshCall where
  refreshToken := ⟨"alice", 14400, "refresh-1", .refresh, "alice_1"⟩
  clientIp := "10.0.0.1"
  userAgentHash := "ua"
  allowed := true
  newAccessJti := "access-2"
  newRefreshJti := "refresh-2"

def aliceSessions : ExpiringStore String SessionHash :=
  ExpiringStore.empty.setex 0 "alice_1" 14400
    ⟨"alice", "10.0.0.1", "ua", "access-1", "refresh-1", some 900, some 14400⟩

/-- A refresh is under way while the session is terminated, and another one starts after that. -/
def refreshDuringTermination : List (AuthCommand ℕ) :=
  [.start 0 (.refreshSession aliceRefresh), .start 1 (.terminateSession "alice_1"),
    .advance 1 10, .advance 0 10, .advance 0 11, .advance 0 11, .advance 1 12, .advance 1 12,
    .advance 1 13, .advance 0 13, .advance 0 13,
    .start 2 (.validateSession ⟨"alice", 911, "access-2", .access, "alice_1"⟩ "10.0.0.1" "ua"),
    .advance 2 14, .advance 2 14]

theorem rotation_is_single_use_and_termination_final_alice :
    EveryState (sessionStep ⟨900, 14400, 30, true⟩) (fun s => SingleUse s ∧ TerminationFinal s)
      ⟨⟨.empty, aliceSessions, []⟩, fun _ => none, []⟩ refreshDuringTermination := by
  apply rotation_is_single_use_and_termination_final
  refine ⟨⟨?_, by decide⟩, trivial, trivial, trivial, trivial, trivial, trivial, trivial, trivial,
    trivial, trivial, trivial, trivial, trivial, trivial⟩
  rintro (⟨sessionId, session, expiry, hentry, hjti⟩ | ⟨c, call, ⟨_, hnone, _⟩ | ⟨_, hnone, _⟩, _⟩)
  · by_cases hid : sessionId = "alice_1"
    · rw [hid, aliceSessions, ExpiringStore.entries_setex_self] at hentry
      cases hentry
      exact absurd hjti (by decide)
    · rw [aliceSessions, ExpiringStore.entries_setex_of_ne hid] at hentry
      cases hentry
  · cases hnone
  · cases hnone

end TradingPlatform.Auth
