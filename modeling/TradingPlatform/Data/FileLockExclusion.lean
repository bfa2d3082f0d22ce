import TradingPlatform.Base.ExclusiveFile
import TradingPlatform.Data.FileLock

/-! # Mutual exclusion of the file lock

As long as some process has the lock, its name is taken, and what it leads to
was written by a running process: so nobody can create the file, and it is not
stale. Only the recovering rename takes the name away from others, and it acts
on what a process has read some steps earlier.
-/

namespace TradingPlatform.Data

open Base

variable {P : Type*}

/-- The lock file has been moved aside, so the release has taken effect. -/
def LockPhase.released : LockPhase → Bool
  | .releaseRead _ => true
  | .releaseRestore => true
  | .releaseUnlink => true
  | .releaseExists => true
  | .releaseRestoreUnread => true
  | _ => false

/-- A token that `acquire` has returned and that is not released. -/
def LockProcess.holds (proc : LockProcess) : Bool := proc.token.isSome && !proc.phase.released

def MutualExclusion (s : LockSystem P) : Prop :=
  ∀ p q, (s.procs p).holds = true → (s.procs q).holds = true → p = q

/-- The expiry of a lock file that has one. -/
def LockContent.expiry : LockContent → Option Timestamp
  | .object data => data.toToken.map LockToken.expiresAt
  | .malformed => none

/-- The inode that the process is about to write. -/
def LockPhase.writes : LockPhase → Option ℕ
  | .write inode _ => some inode
  | _ => none

/-- The lock is held, or created and about to be held. -/
def LockProcess.owns (proc : LockProcess) : Bool := proc.holds || proc.phase.writes.isSome

/-- While a process owns the lock, the lock file, if it is one of the run, is not expired. -/
def NoLockExpires (s : LockSystem P) : P × LockEvent → Prop
  | (_, .operate now _) => ∀ q, (s.procs q).owns = true → ∀ inode ∈ s.files.entries .lock,
      1 ≤ inode → ∀ expiry ∈ (s.files.data inode).expiry, now ≤ expiry
  | _ => True

/-- The file that a recovering rename moves aside is stale at that moment, and nobody is about
to write it. -/
def SafeRecovery (writers : LockWriters P) (s : LockSystem P) : P × LockEvent → Prop
  | (p, .operate now _) => (s.procs p).phase = .recoverRename →
      ∀ inode ∈ s.files.entries .lock,
        writers.isLockStale p now (some (s.files.data inode)) = true ∧
          ∀ q, (s.procs q).phase.writes ≠ some inode
  | _ => True

/-! ## What the steps keep -/

def LockPhase.token? : LockPhase → Option LockToken
  | .write _ token => some token
  | .releaseRename token => some token
  | .releaseRead token => some token
  | .refreshExists token => some token
  | .refreshRead token => some token
  | .refreshWrite token => some token
  | .refreshReplace token => some token
  | _ => none

/-- The phases of a call that was made with a valid token. -/
def LockPhase.needsToken : LockPhase → Bool
  | .releaseRename _ => true
  | .refreshExists _ => true
  | .refreshRead _ => true
  | .refreshWrite _ => true
  | .refreshReplace _ => true
  | _ => false

/-- Files of this run only. -/
def LockPath.ours : LockPath → Bool
  | .releasing => true
  | .temp _ => true
  | _ => false

def LockWriters.Issues (writers : LockWriters P) (p : P) (token : LockToken) : Prop :=
  token.pid = writers.pid p ∧ token.hostname = writers.hostname p

def lockProtocol (writers : LockWriters P) : FileProtocol LockPath LockContent LockProcess where
  lock := .lock
  ours := LockPath.ours
  owns := LockProcess.owns
  writes := fun proc => proc.phase.writes
  live := fun content => ∃ q token, writers.Issues q token ∧ content = token.toJson

/-- The tokens in a process are its own. -/
structure ProcessKept (writers : LockWriters P) (p : P) (proc : LockProcess) : Prop where
  token : ∀ token ∈ proc.token, writers.Issues p token
  phase : ∀ token ∈ proc.phase.token?, writers.Issues p token
  held : proc.phase.needsToken = true → proc.token.isSome = true

structure LockKept (writers : LockWriters P) (s : LockSystem P) : Prop where
  exclusive : (lockProtocol writers).Exclusive s.files s.procs
  procs : ∀ p, ProcessKept writers p (s.procs p)

variable {writers : LockWriters P} {s : LockSystem P} {p : P}
  {fs : FileSystem LockPath LockContent} {proc : LockProcess}

theorem LockKept.mutualExclusion (h : LockKept writers s) : MutualExclusion s := by
  intro p q hp hq
  apply h.exclusive.alone p q
  · simp [lockProtocol, LockProcess.owns, hp]
  · simp [lockProtocol, LockProcess.owns, hq]

theorem processKept_idle {token : Option LockToken}
    (htoken : ∀ current ∈ token, writers.Issues p current) :
    ProcessKept writers p ⟨token, .idle⟩ := by
  refine ⟨htoken, ?_, ?_⟩
  · intro _ hnone
    cases hnone
  · intro hneeds
    cases hneeds

theorem processKept_dropped : ProcessKept writers p .dropped :=
  processKept_idle fun _ hnone => by cases hnone

theorem lockKept_start (writers : LockWriters P) (content : Option LockContent) :
    LockKept writers (.start content) := by
  refine ⟨⟨?_, ?_, ?_, ?_, ?_, Nat.le_refl 1⟩, fun p => processKept_dropped⟩
  · intro p _ hp
    cases hp
  · intro p hp
    cases hp
  · intro path inode hentry
    simp only [LockSystem.start] at hentry ⊢
    split at hentry
    · rename_i hlock
      rw [Option.map_eq_some_iff] at hentry
      obtain ⟨_, -, rfl⟩ := hentry
      rw [hlock]
      exact ⟨Nat.one_pos, fun hours => by cases hours⟩
    · cases hentry
  · intro inode hpos hlt
    exact absurd hlt (Nat.not_lt.mpr hpos)
  · intro p inode hwrites
    cases hwrites

/-- The phases without a token of their own. -/
theorem processKept_plain (h : ProcessKept writers p (s.procs p)) {phase : LockPhase}
    (htoken : phase.token? = none) : ProcessKept writers p ((s.procs p).goto phase) := by
  refine ⟨h.token, ?_, ?_⟩
  · intro token hsome
    change token ∈ phase.token? at hsome
    rw [htoken] at hsome
    cases hsome
  · intro hneeds
    change phase.needsToken = true at hneeds
    cases phase <;> first | (cases hneeds; done) | cases htoken

/-- The phases with a token. -/
theorem processKept_carry (h : ProcessKept writers p (s.procs p)) {phase : LockPhase}
    {token : LockToken} (htoken : phase.token? = some token) (hissued : writers.Issues p token)
    (hheld : phase.needsToken = true → (s.procs p).token.isSome = true) :
    ProcessKept writers p ((s.procs p).goto phase) := by
  refine ⟨h.token, ?_, hheld⟩
  intro token' hsome
  change token' ∈ phase.token? at hsome
  rw [htoken] at hsome
  cases hsome
  exact hissued

theorem issues_newToken (now : Timestamp) : writers.Issues p (newToken writers p now) := ⟨rfl, rfl⟩

theorem issues_of_validates (h : ProcessKept writers p proc) {token : LockToken}
    (hvalid : proc.validates token = true) :
    writers.Issues p token ∧ proc.token.isSome = true := by
  cases htoken : proc.token with
  | none =>
      rw [LockProcess.validates, htoken] at hvalid
      cases hvalid
  | some current =>
      have ⟨hpid, hhost⟩ := h.token current htoken
      simp only [LockProcess.validates, htoken, Option.any_some, Bool.and_eq_true,
        decide_eq_true_eq] at hvalid
      exact ⟨⟨hvalid.1.1.trans hpid, hvalid.1.2.trans hhost⟩, rfl⟩

/-- Between two phases in which nothing is being created. -/
theorem owns_goto {phase : LockPhase} (hwrites : phase.writes = none)
    (hreleased : phase.released = true ∨ (s.procs p).phase.released = false)
    (h : ((s.procs p).goto phase).owns = true) : (s.procs p).owns = true := by
  simp only [LockProcess.owns, LockProcess.holds, LockProcess.goto, hwrites, Option.isSome_none,
    Bool.or_false, Bool.and_eq_true] at h
  rcases hreleased with hafter | hbefore
  · rw [hafter] at h
    cases h.2
  · simp only [LockProcess.owns, LockProcess.holds, hbefore, h.1, Bool.not_false, Bool.and_self,
      Bool.true_or]

/-- Who has made a call with a token owns the lock until the call releases it. -/
theorem owns_of_needsToken (h : ProcessKept writers p proc)
    (hneeds : proc.phase.needsToken = true) : proc.owns = true := by
  have htoken := h.held hneeds
  cases hphase : proc.phase <;> rw [hphase] at hneeds <;>
    first
    | (cases hneeds; done)
    | simp [LockProcess.owns, LockProcess.holds, htoken, hphase, LockPhase.released]

/-- A file that the staleness rules condemn was written by no running process. -/
theorem not_live_of_stale {now : Timestamp} {content : LockContent}
    (hunexpired : ∀ expiry ∈ content.expiry, now ≤ expiry)
    (hstale : writers.isLockStale p now (some content) = true) :
    ¬(lockProtocol writers).live content := by
  rintro ⟨q, token, hissued, rfl⟩
  have halive : writers.isPidAlive token.hostname token.pid = true := by
    rw [hissued.1, hissued.2]
    exact writers.alive q
  have hfresh : token.isExpired now = false := by
    simp only [LockToken.isExpired, decide_eq_false_iff_not]
    exact Int.not_lt.mpr (hunexpired token.expiresAt rfl)
  simp [LockWriters.isLockStale, LockToken.toJson, LockData.toToken, hfresh, halive] at hstale

/-! ## Operations -/

variable [DecidableEq P]

/-- What a process and the files are after one operation. -/
def LockSystem.apply (s : LockSystem P) (p : P) (next : LockStep) : LockSystem P :=
  ⟨next.1, Function.update s.procs p next.2⟩

theorem lockKept_apply (h : LockKept writers s)
    (hexclusive : (lockProtocol writers).Exclusive fs (Function.update s.procs p proc))
    (hproc : ProcessKept writers p proc) : LockKept writers (s.apply p (fs, proc)) := by
  refine ⟨hexclusive, ?_⟩
  intro q
  change ProcessKept writers q (Function.update s.procs p proc q)
  by_cases hqp : q = p
  · subst hqp
    rw [Function.update_self]
    exact hproc
  · rw [Function.update_of_ne hqp]
    exact h.procs q

/-- A step to a phase without a token of its own. -/
theorem lockKept_plain (h : LockKept writers s) (hwrites : (s.procs p).phase.writes = none)
    {phase : LockPhase} (htoken : phase.token? = none)
    (hreleased : phase.released = true ∨ (s.procs p).phase.released = false) :
    LockKept writers (s.apply p (s.files, (s.procs p).goto phase)) := by
  have hwrites' : phase.writes = none := by
    cases phase <;> first | rfl | cases htoken
  exact lockKept_apply h (h.exclusive.goto hwrites hwrites' (owns_goto hwrites' hreleased))
    (processKept_plain (h.procs p) htoken)

theorem lockKept_drop (h : LockKept writers s) (hwrites : (s.procs p).phase.writes = none) :
    LockKept writers (s.apply p (s.files, .dropped)) :=
  lockKept_apply h (h.exclusive.goto hwrites rfl fun howns => by cases howns) processKept_dropped

/-- A step to a phase of a call with a token. -/
theorem lockKept_carry (h : LockKept writers s) (hneeds : (s.procs p).phase.needsToken = true)
    {phase : LockPhase} {token : LockToken} (htoken : phase.token? = some token)
    (hissued : writers.Issues p token) (hwrites : phase.writes = none) :
    LockKept writers (s.apply p (s.files, (s.procs p).goto phase)) := by
  have hbefore : (s.procs p).phase.writes = none := by
    cases hphase : (s.procs p).phase <;> rw [hphase] at hneeds <;>
      first | rfl | cases hneeds
  exact lockKept_apply h
    (h.exclusive.goto hbefore hwrites fun _ => owns_of_needsToken (h.procs p) hneeds)
    (processKept_carry (h.procs p) htoken hissued fun _ => (h.procs p).held hneeds)

theorem lockKept_create (h : LockKept writers s) (hphase : (s.procs p).phase = .create)
    (now : Timestamp) (aged : Bool) :
    LockKept writers (s.apply p (operate writers p s.files (s.procs p) now aged)) := by
  have hwrites : (s.procs p).phase.writes = none := by rw [hphase]; rfl
  simp only [operate, hphase]
  cases hcreated : s.files.createExclusive .lock .malformed with
  | none => exact lockKept_plain h hwrites rfl (Or.inr (by rw [hphase]; rfl))
  | some created =>
      exact lockKept_apply h (h.exclusive.create hwrites hcreated rfl)
        (processKept_carry (h.procs p) rfl (issues_newToken now) fun hneeds => by cases hneeds)

/-- The content is written, and the token returned. -/
theorem lockKept_write (h : LockKept writers s) {inode : ℕ} {token : LockToken}
    (hphase : (s.procs p).phase = .write inode token) :
    LockKept writers (s.apply p (s.files.write inode token.toJson, ⟨some token, .idle⟩)) := by
  have hissued : writers.Issues p token := (h.procs p).phase token (by rw [hphase]; rfl)
  have hwrites : (s.procs p).phase.writes = some inode := by rw [hphase]; rfl
  have howned : (s.procs p).owns = true := by
    rw [LockProcess.owns, hwrites]
    exact Bool.or_true _
  refine lockKept_apply h (h.exclusive.write hwrites howned rfl ⟨p, token, hissued, rfl⟩) ?_
  apply processKept_idle
  intro current hcurrent
  cases hcurrent
  exact hissued

/-- The rename of a recovery moves a file that nobody owns. -/
theorem lockKept_recover (h : LockKept writers s) (hphase : (s.procs p).phase = .recoverRename)
    {now : Timestamp} {aged : Bool} (hlive : NoLockExpires s (p, .operate now aged))
    (hsafe : SafeRecovery writers s (p, .operate now aged)) :
    LockKept writers (s.apply p (operate writers p s.files (s.procs p) now aged)) := by
  have hwrites : (s.procs p).phase.writes = none := by rw [hphase]; rfl
  have hreleased : (s.procs p).phase.released = false := by rw [hphase]; rfl
  simp only [operate, hphase]
  cases hmoved : s.files.rename .lock (.recovery (writers.pid p)) with
  | none => exact lockKept_plain h hwrites rfl (Or.inr hreleased)
  | some fs =>
      obtain ⟨inode, hentry, -, -, -⟩ := FileSystem.rename_eq_some hmoved
      have ⟨hstale, hunwritten⟩ := hsafe hphase inode hentry
      have hnone := h.exclusive.not_owned hentry
        (fun q howner hpos => not_live_of_stale (hlive q howner inode hentry hpos) hstale)
        hunwritten
      have howns : ((s.procs p).goto .recoverUnlink).owns = false := by
        cases howner : ((s.procs p).goto .recoverUnlink).owns with
        | false => rfl
        | true =>
            have hbefore := owns_goto rfl (Or.inr hreleased) howner
            exact hbefore.symm.trans (hnone p)
      exact lockKept_apply h
        (h.exclusive.renameAway hmoved (fun ho => by cases ho) hwrites rfl howns
          fun q _ => hnone q)
        (processKept_plain (h.procs p) rfl)

/-- The holder moves the lock file aside. -/
theorem lockKept_release (h : LockKept writers s) {token : LockToken}
    (hphase : (s.procs p).phase = .releaseRename token) (now : Timestamp) (aged : Bool) :
    LockKept writers (s.apply p (operate writers p s.files (s.procs p) now aged)) := by
  have hwrites : (s.procs p).phase.writes = none := by rw [hphase]; rfl
  have hissued := (h.procs p).phase token (by rw [hphase]; rfl)
  have howned := owns_of_needsToken (h.procs p) (by rw [hphase]; rfl)
  simp only [operate, hphase]
  cases hmoved : s.files.rename .lock .releasing with
  | none => exact lockKept_drop h hwrites
  | some fs =>
      refine lockKept_apply h
        (h.exclusive.renameAway hmoved (fun _ => howned) hwrites rfl ?_ ?_)
        (processKept_carry (h.procs p) rfl hissued fun hneeds => by cases hneeds)
      · simp [lockProtocol, LockProcess.owns, LockProcess.holds, LockProcess.goto,
          LockPhase.released, LockPhase.writes]
      · intro q hne
        cases howner : (s.procs q).owns with
        | false => exact howner
        | true => exact absurd (h.exclusive.alone q p howner howned) hne

/-- The new content of a lock goes to a file beside it. -/
theorem lockKept_refreshWrite (h : LockKept writers s) {token : LockToken}
    (hphase : (s.procs p).phase = .refreshWrite token) (now : Timestamp) (aged : Bool) :
    LockKept writers (s.apply p (operate writers p s.files (s.procs p) now aged)) := by
  have hwrites : (s.procs p).phase.writes = none := by rw [hphase]; rfl
  have hneeds : (s.procs p).phase.needsToken = true := by rw [hphase]; rfl
  have hissued := (h.procs p).phase token (by rw [hphase]; rfl)
  simp only [operate, hphase]
  exact lockKept_apply h
    (h.exclusive.put (by simp [lockProtocol]) hwrites rfl
      (fun _ => owns_of_needsToken (h.procs p) hneeds) ⟨p, token, hissued, rfl⟩)
    (processKept_carry (h.procs p) rfl hissued fun _ => (h.procs p).held hneeds)

/-- The holder's new content takes the name of the lock. -/
theorem lockKept_refreshReplace (h : LockKept writers s) {token : LockToken}
    (hphase : (s.procs p).phase = .refreshReplace token) (now : Timestamp) (aged : Bool) :
    LockKept writers (s.apply p (operate writers p s.files (s.procs p) now aged)) := by
  have hwrites : (s.procs p).phase.writes = none := by rw [hphase]; rfl
  have hissued := (h.procs p).phase token (by rw [hphase]; rfl)
  have howned := owns_of_needsToken (h.procs p) (by rw [hphase]; rfl)
  simp only [operate, hphase]
  cases hmoved : s.files.rename (.temp (writers.pid p)) .lock with
  | none => exact lockKept_plain h hwrites rfl (Or.inr (by rw [hphase]; rfl))
  | some fs =>
      refine lockKept_apply h
        (h.exclusive.renameOnto rfl hmoved hwrites rfl fun _ => howned) ?_
      apply processKept_idle
      intro current hcurrent
      cases hcurrent
      exact hissued

/-- What `release` could not verify takes its old name again. -/
theorem lockKept_restore (h : LockKept writers s) (hwrites : (s.procs p).phase.writes = none)
    (hmoved : s.files.rename .releasing .lock = some fs) :
    LockKept writers (s.apply p (fs, .dropped)) :=
  lockKept_apply h (h.exclusive.renameOnto rfl hmoved hwrites rfl fun howns => by cases howns)
    processKept_dropped

theorem lockKept_unlink (h : LockKept writers s) (hwrites : (s.procs p).phase.writes = none)
    {path : LockPath} (hpath : path ≠ .lock) (hwrites' : proc.phase.writes = none)
    (howns : proc.owns = true → (s.procs p).owns = true) (hproc : ProcessKept writers p proc) :
    LockKept writers (s.apply p (s.files.unlink path, proc)) :=
  lockKept_apply h
    (h.exclusive.unlink hwrites hwrites' howns fun hlock => absurd hlock hpath) hproc

theorem lockKept_operate (h : LockKept writers s) {now : Timestamp} {aged : Bool}
    (hlive : NoLockExpires s (p, .operate now aged))
    (hsafe : SafeRecovery writers s (p, .operate now aged)) :
    LockKept writers (s.apply p (operate writers p s.files (s.procs p) now aged)) := by
  cases hphase : (s.procs p).phase with
  | create => exact lockKept_create h hphase now aged
  | recoverRename => exact lockKept_recover h hphase hlive hsafe
  | releaseRename token => exact lockKept_release h hphase now aged
  | refreshWrite token => exact lockKept_refreshWrite h hphase now aged
  | refreshReplace token => exact lockKept_refreshReplace h hphase now aged
  | write inode token =>
      simp only [operate, hphase]
      exact lockKept_write h hphase
  | idle =>
      have hwrites : (s.procs p).phase.writes = none := by rw [hphase]; rfl
      simp only [operate, hphase]
      exact lockKept_apply h (h.exclusive.goto hwrites hwrites id) (h.procs p)
  | cleanupExists =>
      simp only [operate, hphase]
      split <;> exact lockKept_plain h (by rw [hphase]; rfl) rfl (Or.inr (by rw [hphase]; rfl))
  | cleanupRead =>
      simp only [operate, hphase]
      unfold cleanupPhase
      split
      · exact lockKept_plain h (by rw [hphase]; rfl) rfl (Or.inr (by rw [hphase]; rfl))
      · exact lockKept_plain h (by rw [hphase]; rfl) rfl (Or.inr (by rw [hphase]; rfl))
      · split_ifs <;>
          exact lockKept_plain h (by rw [hphase]; rfl) rfl (Or.inr (by rw [hphase]; rfl))
  | cleanupStat =>
      simp only [operate, hphase]
      split <;> exact lockKept_plain h (by rw [hphase]; rfl) rfl (Or.inr (by rw [hphase]; rfl))
  | cleanupUnlink =>
      simp only [operate, hphase]
      exact lockKept_unlink h (by rw [hphase]; rfl) (by simp) rfl
        (owns_goto rfl (Or.inr (by rw [hphase]; rfl))) (processKept_plain (h.procs p) rfl)
  | readLock =>
      simp only [operate, hphase]
      split <;> exact lockKept_plain h (by rw [hphase]; rfl) rfl (Or.inr (by rw [hphase]; rfl))
  | recoverUnlink =>
      simp only [operate, hphase]
      exact lockKept_unlink h (by rw [hphase]; rfl) (by simp) rfl
        (owns_goto rfl (Or.inr (by rw [hphase]; rfl))) (processKept_plain (h.procs p) rfl)
  | releaseRead token =>
      simp only [operate, hphase]
      split
      · split <;> exact lockKept_plain h (by rw [hphase]; rfl) rfl (Or.inl rfl)
      · exact lockKept_plain h (by rw [hphase]; rfl) rfl (Or.inl rfl)
  | releaseRestore =>
      simp only [operate, hphase]
      cases hmoved : s.files.rename .releasing .lock with
      | some fs => exact lockKept_restore h (by rw [hphase]; rfl) hmoved
      | none => exact lockKept_plain h (by rw [hphase]; rfl) rfl (Or.inl rfl)
  | releaseUnlink =>
      simp only [operate, hphase]
      split
      · exact lockKept_unlink h (by rw [hphase]; rfl) (by simp) rfl
          (fun howns => by cases howns) processKept_dropped
      · exact lockKept_plain h (by rw [hphase]; rfl) rfl (Or.inl rfl)
  | releaseExists =>
      simp only [operate, hphase]
      split
      · exact lockKept_plain h (by rw [hphase]; rfl) rfl (Or.inl rfl)
      · exact lockKept_drop h (by rw [hphase]; rfl)
  | releaseRestoreUnread =>
      simp only [operate, hphase]
      cases hmoved : s.files.rename .releasing .lock with
      | some fs => exact lockKept_restore h (by rw [hphase]; rfl) hmoved
      | none => exact lockKept_drop h (by rw [hphase]; rfl)
  | refreshExists token =>
      have hissued := (h.procs p).phase token (by rw [hphase]; rfl)
      simp only [operate, hphase]
      split
      · exact lockKept_carry h (by rw [hphase]; rfl) rfl hissued rfl
      · exact lockKept_drop h (by rw [hphase]; rfl)
  | refreshRead token =>
      have hissued := (h.procs p).phase token (by rw [hphase]; rfl)
      simp only [operate, hphase]
      split
      · split
        · exact lockKept_carry h (by rw [hphase]; rfl) rfl hissued rfl
        · exact lockKept_drop h (by rw [hphase]; rfl)
      · exact lockKept_drop h (by rw [hphase]; rfl)

/-! ## Calls -/

/-- A call with a token starts. -/
theorem lockKept_call (h : LockKept writers s) {phase : LockPhase} {token : LockToken}
    (htoken : phase.token? = some token) (hwrites : phase.writes = none) :
    LockKept writers (s.apply p (s.files,
      if (s.procs p).phase = .idle ∧ (s.procs p).validates token = true then
        (s.procs p).goto phase else s.procs p)) := by
  split
  · rename_i hcall
    have ⟨hissued, hsome⟩ := issues_of_validates (h.procs p) hcall.2
    have hidle : (s.procs p).phase.writes = none := by rw [hcall.1]; rfl
    exact lockKept_apply h
      (h.exclusive.goto hidle hwrites
        (owns_goto hwrites (Or.inr (by rw [hcall.1]; rfl))))
      (processKept_carry (h.procs p) htoken hissued fun _ => hsome)
  · rw [LockSystem.apply, Function.update_eq_self]
    exact h

theorem lockKept_step (h : LockKept writers s) (a : P × LockEvent) (hlive : NoLockExpires s a)
    (hsafe : SafeRecovery writers s a) : LockKept writers (lockStep writers s a) := by
  obtain ⟨p, event⟩ := a
  change LockKept writers (s.apply p (processStep writers p s.files (s.procs p) event))
  cases event with
  | operate now aged => exact lockKept_operate h hlive hsafe
  | release token => exact lockKept_call h rfl rfl
  | refresh token => exact lockKept_call h rfl rfl
  | acquire =>
      simp only [processStep]
      split
      · rename_i hidle
        exact lockKept_plain h (by rw [hidle]; rfl) rfl (Or.inr (by rw [hidle]; rfl))
      · rw [LockSystem.apply, Function.update_eq_self]
        exact h
  | giveUp =>
      simp only [processStep]
      split
      · rename_i hcreate
        exact lockKept_plain h (by rw [hcreate]; rfl) rfl (Or.inr (by rw [hcreate]; rfl))
      · rw [LockSystem.apply, Function.update_eq_self]
        exact h

/-! ## Runs -/

/-- Any number of running processes, whatever lock file there is at the start: if no lock
reaches its expiry and every recovering rename moves a file that is still stale and that nobody
is about to write, one process at a time holds a token. -/
theorem mutualExclusion_of_safeRecovery (writers : LockWriters P) (content : Option LockContent)
    (events : List (P × LockEvent))
    (hlive : EachStep (lockStep writers) NoLockExpires (.start content) events)
    (hsafe : EachStep (lockStep writers) (SafeRecovery writers) (.start content) events) :
    EveryState (lockStep writers) MutualExclusion (.start content) events := by
  have hboth := eachStep_and.mpr ⟨hlive, hsafe⟩
  have hkept := everyState_of_eachStep (P := LockKept writers)
    (C := fun s a => NoLockExpires s a ∧ SafeRecovery writers s a)
    (fun _ a h hstep => lockKept_step h a hstep.1 hstep.2) (lockKept_start writers content) hboth
  exact hkept.mono fun _ h => h.mutualExclusion

/-! ## Two processes -/

/-- Both run on one host. -/
def twoWriters : LockWriters Bool where
  pid := fun first => if first then 1 else 2
  hostname := fun _ => "worker-01"
  writerId := fun first => if first then "sync-1" else "sync-2"
  isPidAlive := fun _ pid => pid = 1 || pid = 2
  alive := by decide

instance (s : LockSystem Bool) (a : Bool × LockEvent) : Decidable (NoLockExpires s a) :=
  match a with
  | (_, .operate _ _) =>
      inferInstanceAs (Decidable (∀ _ : Bool, _ → ∀ _ ∈ _, _ → ∀ _ ∈ _, _))
  | (_, .acquire) => instDecidableTrue
  | (_, .release _) => instDecidableTrue
  | (_, .refresh _) => instDecidableTrue
  | (_, .giveUp) => instDecidableTrue

instance (s : LockSystem Bool) (a : Bool × LockEvent) :
    Decidable (SafeRecovery twoWriters s a) :=
  match a with
  | (_, .operate _ _) => inferInstanceAs (Decidable (_ → ∀ _ ∈ _, _ ∧ ∀ _ : Bool, _))
  | (_, .acquire) => instDecidableTrue
  | (_, .release _) => instDecidableTrue
  | (_, .refresh _) => instDecidableTrue
  | (_, .giveUp) => instDecidableTrue

/-- The next operation of one of them, at the start of time. -/
def turn (first : Bool) : Bool × LockEvent := (first, .operate 0 false)

/-- A lock file that a crash left empty is recovered, and the lock taken. -/
def recoveryRun : List (Bool × LockEvent) :=
  (true, .acquire) :: List.replicate 7 (turn true)

theorem mutualExclusion_of_safeRecovery_recovery :
    EveryState (lockStep twoWriters) MutualExclusion (.start (some .malformed)) recoveryRun :=
  mutualExclusion_of_safeRecovery twoWriters (some .malformed) recoveryRun (by decide) (by decide)

/-- The second process reads the file between its creation and the write. -/
def emptyReadRun : List (Bool × LockEvent) :=
  [(true, .acquire), turn true, turn true, (false, .acquire), turn false, turn false, turn false,
    turn false, turn false, turn false, turn true, turn false]

/-- Both processes hold the lock at the end, and none has expired. -/
theorem empty_file_is_taken_for_stale :
    EachStep (lockStep twoWriters) NoLockExpires (.start none) emptyReadRun ∧
      ¬EveryState (lockStep twoWriters) MutualExclusion (.start none) emptyReadRun := by
  refine ⟨by decide, fun h => ?_⟩
  have htrue :
      ((run (lockStep twoWriters) (.start none) emptyReadRun).procs true).holds = true := by
    decide
  have hfalse :
      ((run (lockStep twoWriters) (.start none) emptyReadRun).procs false).holds = true := by
    decide
  cases h.last true false htrue hfalse

end TradingPlatform.Data
