import TradingPlatform.Auth.SessionStore
import TradingPlatform.Base.Run

/-! # Stale writes to the session store

A read with an activity update and a change of fields both write back the whole session they have
read. What was deleted or changed since is written as it was.
-/

namespace TradingPlatform.Auth

open Base

variable {C : Type*} {config : StoreConfig}

/-- The key and the calls; the first `delete_session` that has completed since the session was
created, and the last change of each field since the last deletion, with their times. -/
structure StoreRun (C : Type*) where
  key : StoredSession
  calls : C → Option StorePhase
  clock : ℕ
  deletedAt : Option ℕ
  updatedAt : (field : SessionField) → Option (field.Value × ℕ)

def StoreRun.empty (key : StoredSession) : StoreRun C :=
  ⟨key, fun _ => none, 0, none, fun _ => none⟩

/-- The session that a call has read and is about to write, the time of its read, and the fields
it changes. -/
def StorePhase.pendingWrite : StorePhase → Option (SessionData × ℕ × FieldUpdates)
  | .getWrite data readAt now => some (data, readAt, activity now)
  | .updateWrite updates data readAt => some (data, readAt, updates)
  | _ => none

def StorePhase.deletedAt (phase : StorePhase) (clock : ℕ) (deletedAt : Option ℕ) : Option ℕ :=
  match phase with
  | .delete _ => some (deletedAt.getD clock)
  | .create _ => none
  | _ => deletedAt

/-- An activity update ends what is known of the last activity. -/
def StorePhase.updatedAt (phase : StorePhase) (clock : ℕ)
    (updatedAt : (field : SessionField) → Option (field.Value × ℕ)) (field : SessionField) :
    Option (field.Value × ℕ) :=
  match phase with
  | .updateWrite updates _ _ =>
      match updates field with
      | some value => some (value, clock)
      | none => updatedAt field
  | .getWrite _ _ now => if (activity now field).isSome then none else updatedAt field
  | .delete _ => none
  | .create _ => none
  | .cleanup (_ + 1) => none
  | _ => updatedAt field

inductive StoreCommand (C : Type*) where
  | start (c : C) (call : StoreCall)
  | advance (c : C) (now : ℚ)

def storeStep [DecidableEq C] (config : StoreConfig) (s : StoreRun C) :
    StoreCommand C → StoreRun C
  | .start c call =>
      match s.calls c with
      | some _ => s
      | none =>
          { s with
            calls := Function.update s.calls c (some (call.first s.clock))
            clock := s.clock + 1 }
  | .advance c now =>
      match s.calls c with
      | none => s
      | some phase =>
          let after := takeCommand config s.key s.clock now phase
          { key := after.1
            calls := Function.update s.calls c (some after.2)
            clock := s.clock + 1
            deletedAt := phase.deletedAt s.clock s.deletedAt
            updatedAt := phase.updatedAt s.clock s.updatedAt }

/-- A `get_session` reads a session that it returns only if none was deleted before the call
started, and with the changes that returned before that. -/
def ReadsFaithfully (config : StoreConfig) (s : StoreRun C) : StoreCommand C → Prop
  | .advance c now => ∀ call started data, s.calls c = some (.getRead call started) →
      readKey s.key now = some data → data.refused config call now = false →
        (∀ time, s.deletedAt = some time → started ≤ time) ∧
          ∀ field value time, s.updatedAt field = some (value, time) → time < started →
            data field = value
  | _ => True

/-- A call that writes back a session has read it after the last deletion, and after the last
change of every field that it does not change itself. -/
def WritesFresh (s : StoreRun C) : StoreCommand C → Prop
  | .advance c _ => ∀ phase data readAt updates, s.calls c = some phase →
      phase.pendingWrite = some (data, readAt, updates) →
        (∀ time, s.deletedAt = some time → time < readAt) ∧
          ∀ field value time, s.updatedAt field = some (value, time) → readAt ≤ time →
            updates field ≠ none
  | _ => True

/-! ## The invariant -/

structure StoreInvariant (s : StoreRun C) : Prop where
  gone : s.deletedAt ≠ none → s.key = none
  current : ∀ data expiry, s.key = some (data, expiry) →
    ∀ field value time, s.updatedAt field = some (value, time) → data field = value
  pending : ∀ c phase data readAt updates, s.calls c = some phase →
    phase.pendingWrite = some (data, readAt, updates) →
      readAt ≤ s.clock ∧ (∀ time, s.deletedAt = some time → readAt ≤ time) ∧
        ∀ field value time, s.updatedAt field = some (value, time) → time < readAt →
          data field = value

theorem StoreInvariant.empty (key : StoredSession) :
    StoreInvariant (StoreRun.empty (C := C) key) where
  gone := fun h => absurd rfl h
  current := nofun
  pending := nofun

theorem readKey_eq_some {key : StoredSession} {now : ℚ} {data : SessionData}
    (h : readKey key now = some data) : ∃ expiry, key = some (data, expiry) := by
  unfold readKey at h
  split at h
  · cases h
  · split at h
    · cases h
      exact ⟨_, rfl⟩
    · cases h

theorem update_eq {data : SessionData} {updates : FieldUpdates} {field : SessionField}
    {value : field.Value} (h : updates field = some value) : data.update updates field = value := by
  rw [SessionData.update, h]
  rfl

theorem update_none {data : SessionData} {updates : FieldUpdates} {field : SessionField}
    (h : updates field = none) : data.update updates field = data field := by
  rw [SessionData.update, h]
  rfl

/-- What is read is not stale. -/
theorem pending_of_read {config : StoreConfig} {s : StoreRun C} {now : ℚ}
    {phase : StorePhase} {data : SessionData} {readAt : ℕ} {updates : FieldUpdates}
    (hnext : (takeCommand config s.key s.clock now phase).2.pendingWrite =
      some (data, readAt, updates)) :
    readAt = s.clock ∧ (∃ expiry, s.key = some (data, expiry)) ∧
      phase.pendingWrite = none ∧
      phase.deletedAt s.clock s.deletedAt = s.deletedAt ∧
      phase.updatedAt s.clock s.updatedAt = s.updatedAt ∧
      (takeCommand config s.key s.clock now phase).1 = s.key := by
  unfold takeCommand at hnext ⊢
  cases phase with
  | getRead call started =>
      dsimp only at hnext
      split at hnext
      · cases hnext
      · rename_i found hfound
        split at hnext
        · cases hnext
        · split at hnext
          · cases hnext
            exact ⟨rfl, readKey_eq_some hfound, rfl, rfl, rfl, rfl⟩
          · cases hnext
  | updateRead updates =>
      dsimp only at hnext
      split at hnext
      · cases hnext
      · rename_i found hfound
        split at hnext
        · cases hnext
        · cases hnext
          exact ⟨rfl, readKey_eq_some hfound, rfl, rfl, rfl, rfl⟩
  | delete caller => cases caller <;> cases hnext
  | cleanup batches => cases batches <;> cases hnext
  | getWrite data readAt now => cases hnext
  | updateWrite updates data readAt => cases hnext
  | got data => cases hnext
  | updated found => cases hnext
  | create data => cases hnext
  | created => cases hnext
  | deleted => cases hnext

theorem le_deletedAt {phase : StorePhase} {clock readAt : ℕ} {deletedAt : Option ℕ}
    (hclock : readAt ≤ clock) (h : ∀ time, deletedAt = some time → readAt ≤ time) (time : ℕ)
    (htime : phase.deletedAt clock deletedAt = some time) : readAt ≤ time := by
  unfold StorePhase.deletedAt at htime
  split at htime
  · cases htime
    cases deletedAt with
    | none => exact hclock
    | some first => exact h first rfl
  · cases htime
  · exact h time htime

/-- A change of a field was known before, or is the one that is written. -/
theorem updatedAt_eq_some {phase : StorePhase} {clock time : ℕ}
    {updatedAt : (field : SessionField) → Option (field.Value × ℕ)} {field : SessionField}
    {value : field.Value} (h : phase.updatedAt clock updatedAt field = some (value, time)) :
    (updatedAt field = some (value, time) ∧
        ∀ data readAt updates, phase.pendingWrite = some (data, readAt, updates) →
          updates field = none) ∨
      time = clock ∧ ∃ data readAt updates, phase.pendingWrite = some (data, readAt, updates) ∧
        updates field = some value := by
  unfold StorePhase.updatedAt at h
  split at h
  · rename_i updates data readAt
    split at h
    · rename_i written hwritten
      cases h
      exact Or.inr ⟨rfl, data, readAt, updates, rfl, hwritten⟩
    · rename_i hnone
      refine Or.inl ⟨h, ?_⟩
      intro _ _ _ hpending
      cases hpending
      exact hnone
  · split at h
    · cases h
    · rename_i hnone
      refine Or.inl ⟨h, ?_⟩
      intro _ _ _ hpending
      cases hpending
      exact Option.not_isSome_iff_eq_none.mp hnone
  · cases h
  · cases h
  · cases h
  · rename_i hupdate hget _ _ _
    refine Or.inl ⟨h, ?_⟩
    intro data readAt updates hpending
    cases phase with
    | getWrite data readAt now => exact absurd rfl (hget data readAt now)
    | updateWrite updates data readAt => exact absurd rfl (hupdate updates data readAt)
    | _ => cases hpending

theorem takeCommand_write (key : StoredSession) (n : ℕ) (now : ℚ) {phase : StorePhase}
    {data : SessionData} {readAt : ℕ} {updates : FieldUpdates}
    (h : phase.pendingWrite = some (data, readAt, updates)) :
    (∃ expiry, (takeCommand config key n now phase).1 = some (data.update updates, expiry)) ∧
      ∀ deletedAt, phase.deletedAt n deletedAt = deletedAt := by
  cases phase with
  | getWrite data readAt now =>
      cases h
      exact ⟨⟨_, rfl⟩, fun _ => rfl⟩
  | updateWrite updates data readAt =>
      cases h
      exact ⟨⟨_, rfl⟩, fun _ => rfl⟩
  | _ => cases h

/-- A command that does not write back a session leaves the key, empties it or fills it anew. -/
theorem takeCommand_other (key : StoredSession) (n : ℕ) (now : ℚ) {phase : StorePhase}
    (h : phase.pendingWrite = none) (deletedAt : Option ℕ)
    (updatedAt : (field : SessionField) → Option (field.Value × ℕ)) :
    ((takeCommand config key n now phase).1 = key ∧ phase.deletedAt n deletedAt = deletedAt ∧
        phase.updatedAt n updatedAt = updatedAt) ∨
      ((takeCommand config key n now phase).1 = none ∨ phase.deletedAt n deletedAt = none) ∧
        ∀ field, phase.updatedAt n updatedAt field = none := by
  cases phase with
  | getRead call started => exact Or.inl ⟨rfl, rfl, rfl⟩
  | updateRead updates => exact Or.inl ⟨rfl, rfl, rfl⟩
  | got data => exact Or.inl ⟨rfl, rfl, rfl⟩
  | updated found => exact Or.inl ⟨rfl, rfl, rfl⟩
  | created => exact Or.inl ⟨rfl, rfl, rfl⟩
  | deleted => exact Or.inl ⟨rfl, rfl, rfl⟩
  | create data => exact Or.inr ⟨Or.inr rfl, fun _ => rfl⟩
  | delete caller => exact Or.inr ⟨Or.inl rfl, fun _ => rfl⟩
  | cleanup batches =>
      cases batches with
      | zero => exact Or.inl ⟨rfl, rfl, rfl⟩
      | succ batches => exact Or.inr ⟨Or.inl rfl, fun _ => rfl⟩
  | getWrite data readAt now => cases h
  | updateWrite updates data readAt => cases h

/-! ## Runs -/

theorem readsFaithfully {s : StoreRun C} (h : StoreInvariant s) (command : StoreCommand C) :
    ReadsFaithfully config s command := by
  cases command with
  | start c call => trivial
  | advance c now =>
      intro call started data _ hread _
      obtain ⟨expiry, hkey⟩ := readKey_eq_some hread
      constructor
      · intro time htime
        have hnone := h.gone (by rw [htime]; exact Option.some_ne_none time)
        rw [hnone] at hkey
        cases hkey
      · intro field value time hupdated _
        exact h.current data expiry hkey field value time hupdated

variable [DecidableEq C]

theorem start_keepsStore {s : StoreRun C} {c : C} {call : StoreCall} (h : StoreInvariant s) :
    StoreInvariant (storeStep config s (.start c call)) := by
  unfold storeStep
  dsimp only
  split
  · exact h
  · constructor
    · exact h.gone
    · exact h.current
    · intro d phase data readAt updates hphase hpending
      dsimp only at hphase
      by_cases hd : d = c
      · rw [hd, Function.update_self] at hphase
        cases hphase
        cases call <;> cases hpending
      · rw [Function.update_of_ne hd] at hphase
        have ⟨hread, hrest⟩ := h.pending d phase data readAt updates hphase hpending
        exact ⟨Nat.le_succ_of_le hread, hrest⟩

theorem advance_keepsStore {s : StoreRun C} {c : C} {now : ℚ} (h : StoreInvariant s)
    (hfresh : WritesFresh s (.advance c now)) :
    StoreInvariant (storeStep config s (.advance c now)) := by
  cases hcalls : s.calls c with
  | none =>
      have hstep : storeStep config s (.advance c now) = s := by
        unfold storeStep
        dsimp only
        rw [hcalls]
      rw [hstep]
      exact h
  | some phase =>
      have hstep : storeStep config s (.advance c now) =
          ⟨(takeCommand config s.key s.clock now phase).1, Function.update s.calls c
            (some (takeCommand config s.key s.clock now phase).2), s.clock + 1,
            phase.deletedAt s.clock s.deletedAt, phase.updatedAt s.clock s.updatedAt⟩ := by
        unfold storeStep
        dsimp only
        rw [hcalls]
      rw [hstep]
      -- a call that writes back finds no deletion
      have hnot : ∀ data readAt updates, phase.pendingWrite = some (data, readAt, updates) →
          s.deletedAt = none := by
        intro data readAt updates hpending
        have ⟨hbefore, _⟩ := hfresh phase data readAt updates hcalls hpending
        have ⟨_, hafter, _⟩ := h.pending c phase data readAt updates hcalls hpending
        cases hdeleted : s.deletedAt with
        | none => rfl
        | some time =>
            have hlt := hbefore time hdeleted
            have hle := hafter time hdeleted
            omega
      constructor
      · dsimp only
        intro hdeleted
        cases hpending : phase.pendingWrite with
        | some write =>
            obtain ⟨data, readAt, updates⟩ := write
            have ⟨_, hsame⟩ := @takeCommand_write config s.key s.clock now phase _ _ _ hpending
            rw [hsame] at hdeleted
            exact absurd (hnot data readAt updates hpending) hdeleted
        | none =>
            rcases @takeCommand_other config s.key s.clock now phase hpending s.deletedAt
              s.updatedAt with ⟨hkey, hsame, _⟩ | ⟨hnone | hnone, _⟩
            · rw [hsame] at hdeleted
              rw [hkey]
              exact h.gone hdeleted
            · exact hnone
            · exact absurd hnone hdeleted
      · dsimp only
        intro data expiry hkey field value time hupdated
        cases hpending : phase.pendingWrite with
        | some write =>
            obtain ⟨read, readAt, updates⟩ := write
            have ⟨⟨_, hwritten⟩, _⟩ :=
              @takeCommand_write config s.key s.clock now phase _ _ _ hpending
            rw [hwritten] at hkey
            cases hkey
            rcases updatedAt_eq_some hupdated with ⟨hold, hown⟩ | ⟨_, _, _, _, hown, hvalue⟩
            · have hnone := hown read readAt updates hpending
              have ⟨_, hlater⟩ := hfresh phase read readAt updates hcalls hpending
              have ⟨_, _, hread⟩ := h.pending c phase read readAt updates hcalls hpending
              have hbefore : time < readAt := by
                by_contra hle
                exact hlater field value time hold (not_lt.mp hle) hnone
              rw [update_none hnone]
              exact hread field value time hold hbefore
            · rw [hpending] at hown
              cases hown
              exact update_eq hvalue
        | none =>
            rcases @takeCommand_other config s.key s.clock now phase hpending s.deletedAt
              s.updatedAt with ⟨hsame, _, hsameUpdates⟩ | ⟨_, hnone⟩
            · rw [hsame] at hkey
              rw [hsameUpdates] at hupdated
              exact h.current data expiry hkey field value time hupdated
            · rw [hnone] at hupdated
              cases hupdated
      · dsimp only
        intro d found data readAt updates hfound hpending
        by_cases hd : d = c
        · rw [hd, Function.update_self] at hfound
          cases hfound
          obtain ⟨hread, ⟨expiry, hkey⟩, _, hdeleted, hupdated, _⟩ := pending_of_read hpending
          rw [hread, hdeleted, hupdated]
          refine ⟨Nat.le_succ _, ?_, ?_⟩
          · intro time htime
            have hnone := h.gone (by rw [htime]; exact Option.some_ne_none time)
            rw [hnone] at hkey
            cases hkey
          · intro field value time hvalue _
            exact h.current data expiry hkey field value time hvalue
        · rw [Function.update_of_ne hd] at hfound
          have ⟨hread, hafter, hvalues⟩ := h.pending d found data readAt updates hfound hpending
          refine ⟨Nat.le_succ_of_le hread, le_deletedAt hread hafter, ?_⟩
          intro field value time hupdated hbefore
          rcases updatedAt_eq_some hupdated with ⟨hold, _⟩ | ⟨htime, _⟩
          · exact hvalues field value time hold hbefore
          · omega

/-- Deleted sessions stay deleted, and updates are visible, in every run whose calls write back
only what they have read fresh. -/
theorem store_is_faithful (config : StoreConfig) (key : StoredSession)
    (commands : List (StoreCommand C))
    (hfresh : EachStep (storeStep config) WritesFresh (.empty key) commands) :
    EachStep (storeStep config) (ReadsFaithfully config) (.empty key) commands := by
  have hstep : ∀ (s : StoreRun C) command, StoreInvariant s → WritesFresh s command →
      StoreInvariant (storeStep config s command) ∧ ReadsFaithfully config s command := by
    intro s command h hc
    refine ⟨?_, readsFaithfully h command⟩
    cases command with
    | start c call => exact start_keepsStore h
    | advance c now => exact advance_keepsStore h hc
  exact (everyState_and_eachStep hstep (StoreInvariant.empty key) hfresh).2

def aliceData : SessionData
  | .createdAt => (0 : ℚ)
  | .lastActivity => (0 : ℚ)
  | .accessTokenExpiresAt => none
  | .strategies => []
  | .sessionVersion => (1 : ℤ)
  | .stepUpRequestedAt => some (0 : ℚ)
  | .stepUpClaims => some "mfa"
  | .pendingAction => some "/orders"
  | .role => "viewer"
  | .accessToken => "access"
  | .refreshToken => "refresh"
  | .idToken => "id"
  | .userId => "alice"
  | .email => "alice@example.com"
  | .ipAddress => "10.0.0.1"
  | .userAgent => "ua"

/-- A request updates the activity, and then the session is deleted. -/
def readThenDelete : List (StoreCommand ℕ) :=
  [.start 0 (.getSession ⟨none, none, true⟩), .advance 0 10, .advance 0 10,
    .start 1 .deleteSession, .advance 1 11, .start 2 (.getSession ⟨none, none, false⟩),
    .advance 2 12]

theorem store_is_faithful_readThenDelete :
    EachStep (storeStep ⟨14400, 900⟩) (ReadsFaithfully ⟨14400, 900⟩)
      (.empty (some (aliceData, 14400))) readThenDelete := by
  apply store_is_faithful
  refine ⟨trivial, ?read, ?write, trivial, ?delete, trivial, ?reread, trivial⟩
  case write =>
    intro phase data readAt updates _ _
    constructor
    · intro time htime
      cases htime
    · intro field value time htime
      cases htime
  all_goals
    intro phase data readAt updates hphase hpending
    cases hphase
    cases hpending

/-- A request reads the session, which is deleted before the request writes it back. -/
def readDuringDelete : List (StoreCommand ℕ) :=
  [.start 0 (.getSession ⟨none, none, true⟩), .advance 0 10, .start 1 .deleteSession,
    .advance 1 10, .advance 0 11, .start 2 (.getSession ⟨none, none, false⟩), .advance 2 12]

/-- A request reads the session, and writes it back after the step-up is cleared. -/
def readDuringClear : List (StoreCommand ℕ) :=
  [.start 0 (.getSession ⟨none, none, true⟩), .advance 0 10,
    .start 1 (.updateSessionFields clearStepUp), .advance 1 10, .advance 1 10, .advance 0 11,
    .start 2 (.getSession ⟨none, none, false⟩), .advance 2 12]

theorem stale_write_undoes_delete_and_update :
    ¬EachStep (storeStep ⟨14400, 900⟩) (ReadsFaithfully ⟨14400, 900⟩)
        (.empty (some (aliceData, 14400))) readDuringDelete ∧
      ¬EachStep (storeStep ⟨14400, 900⟩) (ReadsFaithfully ⟨14400, 900⟩)
        (.empty (some (aliceData, 14400))) readDuringClear := by
  constructor
  · intro ⟨_, _, _, _, _, _, hread, _⟩
    have ⟨hdeleted, _⟩ := hread ⟨none, none, false⟩ 5 _ rfl
      (Option.eq_some_of_isSome (by decide +kernel)) (by decide +kernel)
    exact absurd (hdeleted 3 (by decide +kernel)) (by decide)
  · intro ⟨_, _, _, _, _, _, _, hread, _⟩
    have ⟨_, hupdated⟩ := hread ⟨none, none, false⟩ 6 _ rfl
      (Option.eq_some_of_isSome (by decide +kernel)) (by decide +kernel)
    have hcleared : SessionData.pendingAction _ = none :=
      hupdated .pendingAction (none : Option String) 4 (by decide +kernel) (by decide)
    exact absurd hcleared (by decide +kernel)

end TradingPlatform.Auth
