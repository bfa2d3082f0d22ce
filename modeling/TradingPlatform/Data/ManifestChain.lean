import TradingPlatform.Base.ExclusiveFile
import TradingPlatform.Data.ManifestStore
import Mathlib.Data.List.Chain

/-! # Single-writer manifests

The lock file of a manifest follows the rules of a file lock, and only its owner
is past the check of `save_manifest`: what it has loaded is then still there when
it writes. Only the unlink of a breaker takes the file away from others, and it
acts on an age and a content that were read some steps earlier.
-/

namespace TradingPlatform.Data

open Base

variable {P : Type*}

/-- The second manifest was saved over the first. -/
def SyncManifest.Follows (current manifest : SyncManifest) : Prop :=
  manifest.manifestVersion = current.manifestVersion + 1 ∧
    manifest.previousChecksum = some current.checksum

/-- The saves form a chain, which starts with the manifest that was there. -/
def Chained (s : ManifestSystem P) : Prop := s.files.history.IsChain SyncManifest.Follows

/-! ## Conditions on the steps -/

def LockStage.writes : LockStage → Option ℕ
  | .write inode => some inode
  | _ => none

/-- From the creation of the lock file to the end of its release. -/
def LockStage.owns : LockStage → Bool
  | .create => false
  | .breakExists => false
  | .breakStat => false
  | .breakRead => false
  | .breakUnlink => false
  | _ => true

def ownsLock (user : LockUser) : Bool := user.any fun held => held.2.owns

def writesLock (user : LockUser) : Option ℕ := user.bind fun held => held.2.writes

/-- While a process owns the lock, its file, if it is one of the run, is not older than the
hard timeout. -/
def NoHardTimeout (s : ManifestSystem P) : P × ManifestEvent → Prop
  | (_, .operate now) => ∀ q, ownsLock (s.users q) = true →
      ∀ inode ∈ s.files.lock.entries (), 1 ≤ inode →
        now - (s.files.lock.data inode).mtime ≤ lockHardTimeoutSeconds
  | _ => True

/-- The test for the owner, with a process that may not be signalled counted as running. -/
def ManifestWriters.ownerIsGone (writers : ManifestWriters P) (p : P) (data : LockData) : Bool :=
  data.hostname = some (writers.hostname p) &&
    match data.pid with
    | none => true
    | some 0 => true
    | some pid => writers.kill p pid = .noSuchProcess

/-- The rules of `_try_break_stale_lock`, on the file as it is now. -/
def ManifestWriters.isAbandoned (writers : ManifestWriters P) (p : P) (now : Timestamp)
    (file : LockFile) : Bool :=
  let age := now - file.mtime
  lockHardTimeoutSeconds < age ||
    (lockStaleSeconds < age &&
      match file.content with
      | .malformed => true
      | .object data => writers.ownerIsGone p data)

/-- The file that a breaker unlinks is abandoned at that moment, and nobody is about to write
it. -/
def SafeBreak (writers : ManifestWriters P) (s : ManifestSystem P) : P × ManifestEvent → Prop
  | (p, .operate now) => (s.users p).map Prod.snd = some .breakUnlink →
      ∀ inode ∈ s.files.lock.entries (),
        writers.isAbandoned p now (s.files.lock.data inode) = true ∧
          ∀ q, writesLock (s.users q) ≠ some inode
  | _ => True

/-! ## What the steps keep -/

def ManifestWriters.Issues (writers : ManifestWriters P) (p : P) (token : LockToken) : Prop :=
  token.pid = writers.pid p ∧ token.hostname = writers.hostname p

def manifestProtocol (writers : ManifestWriters P) : FileProtocol Unit LockFile LockUser where
  lock := ()
  ours := fun _ => false
  owns := ownsLock
  writes := writesLock
  live := fun file => ∃ q token, writers.Issues q token ∧ file.content = token.toJson

/-- What a save is about to write follows what is there. -/
def LockStage.Ready (manifest : Option SyncManifest) : LockStage → Prop
  | .saveBackup next current => manifest = some current ∧ current.Follows next
  | .saveInstall next => ∀ current ∈ manifest, current.Follows next
  | _ => True

structure ManifestKept (writers : ManifestWriters P) (s : ManifestSystem P) : Prop where
  exclusive : (manifestProtocol writers).Exclusive s.files.lock s.users
  users : ∀ p, ∀ held ∈ s.users p,
    writers.Issues p held.1 ∧ held.2.Ready s.files.manifest
  latest : s.files.manifest = s.files.history.getLast?
  chained : Chained s

theorem manifestKept_start (writers : ManifestWriters P) (lock : Option LockFile)
    (manifest : Option SyncManifest) : ManifestKept writers (.start lock manifest) := by
  refine ⟨⟨?_, ?_, ?_, ?_, ?_, Nat.le_refl 1⟩, ?_, ?_, ?_⟩
  · intro p _ hp
    cases hp
  · intro p hp
    cases hp
  · intro path inode hentry
    simp only [ManifestSystem.start, Option.map_eq_some_iff] at hentry
    obtain ⟨_, -, rfl⟩ := hentry
    exact ⟨Nat.one_pos, fun hours => by cases hours⟩
  · intro inode hpos hlt
    exact absurd hlt (Nat.not_lt.mpr hpos)
  · intro p inode hwrites
    cases hwrites
  · intro p held hheld
    cases hheld
  · cases manifest <;> rfl
  · cases manifest with
    | none => exact .nil
    | some manifest => exact .singleton manifest

variable {writers : ManifestWriters P} {s : ManifestSystem P} {p : P} {files : ManifestFiles}
  {user : LockUser} {token : LockToken} {stage : LockStage} {manifest current : SyncManifest}

theorem follows_after (manifest current : SyncManifest) :
    current.Follows (manifest.after current).withId := ⟨rfl, rfl⟩

/-- A file that the rules of a breaker condemn was written by no running process. -/
theorem not_live_of_abandoned {now : Timestamp} {file : LockFile}
    (hyoung : now - file.mtime ≤ lockHardTimeoutSeconds)
    (habandoned : writers.isAbandoned p now file = true) :
    ¬(manifestProtocol writers).live file := by
  rintro ⟨q, token, ⟨hpid, hhost⟩, hcontent⟩
  simp only [ManifestWriters.isAbandoned, hcontent, LockToken.toJson, Bool.or_eq_true,
    Bool.and_eq_true, decide_eq_true_eq] at habandoned
  rcases habandoned with hold | ⟨-, hgone⟩
  · exact absurd hyoung (Int.not_le.mpr hold)
  · simp only [ManifestWriters.ownerIsGone, Bool.and_eq_true, decide_eq_true_eq,
      Option.some.injEq] at hgone
    obtain ⟨hsame, hkill⟩ := hgone
    have hrunning := writers.running p q (hhost.symm.trans hsame)
    have hpos := writers.pid_ne_zero q
    rw [← hpid] at hrunning hpos
    split at hkill
    · rename_i hnone
      cases hnone
    · rename_i hzero
      exact hpos (Option.some.inj hzero)
    · rename_i pid _ hsome
      rw [← Option.some.inj hsome] at hkill
      exact hrunning (by simpa using hkill)

theorem ready_of_not_owns (h : stage.owns = false) : stage.Ready s.files.manifest := by
  cases stage <;> first | (cases h; done) | trivial

theorem idle_of_stage (huser : s.users p = some (token, stage)) (hwrites : stage.writes = none) :
    (manifestProtocol writers).writes (s.users p) = none := by
  rw [huser]
  exact hwrites

theorem owns_of_stage (huser : s.users p = some (token, stage)) (howns : stage.owns = true) :
    (manifestProtocol writers).owns (s.users p) = true := by
  rw [huser]
  exact howns

/-! ## Operations -/

variable [DecidableEq P]

def ManifestSystem.apply (s : ManifestSystem P) (p : P) (next : ManifestFiles × LockUser) :
    ManifestSystem P :=
  ⟨next.1, Function.update s.users p next.2⟩

/-- What an operation that saves nothing has to show. -/
theorem manifestKept_apply (h : ManifestKept writers s)
    (hexclusive : (manifestProtocol writers).Exclusive files.lock (Function.update s.users p user))
    (huser : ∀ held ∈ user, writers.Issues p held.1 ∧ held.2.Ready s.files.manifest)
    (hmanifest : files.manifest = s.files.manifest) (hhistory : files.history = s.files.history) :
    ManifestKept writers (s.apply p (files, user)) := by
  refine ⟨hexclusive, ?_, ?_, ?_⟩
  · intro q held hheld
    change held ∈ Function.update s.users p user q at hheld
    change writers.Issues q held.1 ∧ held.2.Ready files.manifest
    rw [hmanifest]
    by_cases hqp : q = p
    · subst hqp
      rw [Function.update_self] at hheld
      exact huser held hheld
    · rw [Function.update_of_ne hqp] at hheld
      exact h.users q held hheld
  · change files.manifest = files.history.getLast?
    rw [hmanifest, hhistory]
    exact h.latest
  · change files.history.IsChain SyncManifest.Follows
    rw [hhistory]
    exact h.chained

/-- To another stage, with the lock file as it is. -/
theorem manifestKept_goto (h : ManifestKept writers s) (huser : s.users p = some (token, stage))
    (hwrites : stage.writes = none) {next : LockStage} (hwrites' : next.writes = none)
    (howns : next.owns = true → stage.owns = true) (hready : next.Ready s.files.manifest)
    (hlock : files.lock = s.files.lock) (hmanifest : files.manifest = s.files.manifest)
    (hhistory : files.history = s.files.history) :
    ManifestKept writers (s.apply p (files, some (token, next))) := by
  refine manifestKept_apply h ?_ ?_ hmanifest hhistory
  · rw [hlock]
    exact h.exclusive.goto (idle_of_stage huser hwrites) hwrites'
      fun ho => owns_of_stage huser (howns ho)
  · intro held hheld
    cases hheld
    exact ⟨(h.users p _ huser).1, hready⟩

/-- Out of `acquire_lock`, with the lock file as it is. -/
theorem manifestKept_leave (h : ManifestKept writers s) (huser : s.users p = some (token, stage))
    (hwrites : stage.writes = none) (hlock : files.lock = s.files.lock)
    (hmanifest : files.manifest = s.files.manifest)
    (hhistory : files.history = s.files.history) :
    ManifestKept writers (s.apply p (files, none)) := by
  refine manifestKept_apply h ?_ ?_ hmanifest hhistory
  · rw [hlock]
    exact h.exclusive.goto (idle_of_stage huser hwrites) rfl fun ho => by cases ho
  · intro held hheld
    cases hheld

theorem manifestKept_create (h : ManifestKept writers s)
    (huser : s.users p = some (token, .create)) (now : Timestamp) :
    ManifestKept writers (s.apply p (operateStage writers p s.files token now .create)) := by
  simp only [operateStage]
  split
  · rename_i lock inode hcreated
    refine manifestKept_apply h (h.exclusive.create (idle_of_stage huser rfl) hcreated rfl)
      ?_ rfl rfl
    intro held hheld
    cases hheld
    exact ⟨(h.users p _ huser).1, trivial⟩
  · exact manifestKept_goto h huser rfl rfl id trivial rfl rfl rfl

theorem manifestKept_write (h : ManifestKept writers s) {inode : ℕ}
    (huser : s.users p = some (token, .write inode)) (now : Timestamp) :
    ManifestKept writers (s.apply p (operateStage writers p s.files token now (.write inode))) := by
  have hissued := (h.users p _ huser).1
  have hwrites : (manifestProtocol writers).writes (s.users p) = some inode := by
    rw [huser]
    rfl
  refine manifestKept_apply h
    (h.exclusive.write hwrites (owns_of_stage huser rfl) rfl ⟨p, token, hissued, rfl⟩)
    ?_ rfl rfl
  intro held hheld
  cases hheld
  exact ⟨hissued, trivial⟩

/-- A breaker unlinks a file that nobody owns. -/
theorem manifestKept_break (h : ManifestKept writers s)
    (huser : s.users p = some (token, .breakUnlink)) {now : Timestamp}
    (hyoung : NoHardTimeout s (p, .operate now)) (hsafe : SafeBreak writers s (p, .operate now)) :
    ManifestKept writers (s.apply p (operateStage writers p s.files token now .breakUnlink)) := by
  have hnone : ∀ q, (manifestProtocol writers).owns (s.users q) = false := by
    intro q
    cases hentry : s.files.lock.entries () with
    | none =>
        cases howner : (manifestProtocol writers).owns (s.users q) with
        | false => rfl
        | true =>
            obtain ⟨inode, hentry', -⟩ := h.exclusive.taken q howner
            rw [show (manifestProtocol writers).lock = () from rfl, hentry] at hentry'
            cases hentry'
    | some inode =>
        have hstage : (s.users p).map Prod.snd = some .breakUnlink := by
          rw [huser]
          rfl
        have ⟨habandoned, hunwritten⟩ := hsafe hstage inode hentry
        exact h.exclusive.not_owned hentry
          (fun r howner hpos =>
            not_live_of_abandoned (hyoung r howner inode hentry hpos) habandoned)
          hunwritten q
  refine manifestKept_apply h
    (h.exclusive.unlink (idle_of_stage huser rfl) rfl (fun ho => by cases ho)
      fun _ => ⟨rfl, fun q _ => hnone q⟩) ?_ rfl rfl
  intro held hheld
  cases hheld
  exact ⟨(h.users p _ huser).1, trivial⟩

/-- The owner unlinks its file. -/
theorem manifestKept_releaseUnlink (h : ManifestKept writers s) {inode : ℕ}
    (huser : s.users p = some (token, .releaseUnlink inode)) (now : Timestamp) :
    ManifestKept writers
      (s.apply p (operateStage writers p s.files token now (.releaseUnlink inode))) := by
  have howner : (manifestProtocol writers).owns (s.users p) = true := owns_of_stage huser rfl
  refine manifestKept_apply h
    (h.exclusive.unlink (idle_of_stage huser rfl) rfl (fun ho => by cases ho) ?_) ?_ rfl rfl
  · refine fun _ => ⟨rfl, fun q hne => ?_⟩
    cases hother : (manifestProtocol writers).owns (s.users q) with
    | false => rfl
    | true => exact absurd (h.exclusive.alone q p hother howner) hne
  · intro held hheld
    cases hheld

/-- The manifest that the owner writes follows the one that is there, and nobody else has loaded
that one to save over it. -/
theorem manifestKept_install (h : ManifestKept writers s)
    (huser : s.users p = some (token, .saveInstall manifest)) (now : Timestamp) :
    ManifestKept writers
      (s.apply p (operateStage writers p s.files token now (.saveInstall manifest))) := by
  have ⟨hissued, hready⟩ := h.users p _ huser
  have howner : (manifestProtocol writers).owns (s.users p) = true := owns_of_stage huser rfl
  refine ⟨h.exclusive.goto (idle_of_stage huser rfl) rfl fun _ => howner, ?_, ?_, ?_⟩
  · intro q held hheld
    change held ∈ Function.update s.users p (some (token, .holding)) q at hheld
    by_cases hqp : q = p
    · subst hqp
      rw [Function.update_self] at hheld
      cases hheld
      exact ⟨hissued, trivial⟩
    · rw [Function.update_of_ne hqp] at hheld
      refine ⟨(h.users q held hheld).1, ready_of_not_owns ?_⟩
      cases howns : held.2.owns with
      | false => rfl
      | true =>
          have hother : ownsLock (s.users q) = true := by
            rw [Option.mem_def.mp hheld]
            exact howns
          exact absurd (h.exclusive.alone q p hother howner) hqp
  · exact List.getLast?_concat.symm
  · refine h.chained.append (.singleton manifest) ?_
    intro current hlast next hnext
    cases hnext
    rw [← h.latest] at hlast
    exact hready current hlast

theorem manifestKept_operate (h : ManifestKept writers s)
    (huser : s.users p = some (token, stage)) {now : Timestamp}
    (hyoung : NoHardTimeout s (p, .operate now)) (hsafe : SafeBreak writers s (p, .operate now)) :
    ManifestKept writers (s.apply p (operateStage writers p s.files token now stage)) := by
  have hready := (h.users p _ huser).2
  cases stage with
  | create => exact manifestKept_create h huser now
  | write inode => exact manifestKept_write h huser now
  | breakUnlink => exact manifestKept_break h huser hyoung hsafe
  | releaseUnlink inode => exact manifestKept_releaseUnlink h huser now
  | saveInstall manifest => exact manifestKept_install h huser now
  | breakExists =>
      simp only [operateStage]
      split <;> exact manifestKept_goto h huser rfl rfl id trivial rfl rfl rfl
  | breakStat =>
      simp only [operateStage]
      split
      · exact manifestKept_goto h huser rfl rfl id trivial rfl rfl rfl
      · split_ifs <;> exact manifestKept_goto h huser rfl rfl id trivial rfl rfl rfl
  | breakRead =>
      simp only [operateStage]
      split
      · split <;> exact manifestKept_goto h huser rfl rfl id trivial rfl rfl rfl
      · exact manifestKept_goto h huser rfl rfl id trivial rfl rfl rfl
  | holding => exact manifestKept_goto h huser rfl rfl id trivial rfl rfl rfl
  | saveExists manifest =>
      simp only [operateStage]
      split <;> exact manifestKept_goto h huser rfl rfl (fun _ => rfl) trivial rfl rfl rfl
  | saveRead manifest =>
      simp only [operateStage]
      split <;> exact manifestKept_goto h huser rfl rfl (fun _ => rfl) trivial rfl rfl rfl
  | saveStat manifest =>
      simp only [operateStage]
      split <;> exact manifestKept_goto h huser rfl rfl (fun _ => rfl) trivial rfl rfl rfl
  | saveLoad manifest =>
      simp only [operateStage]
      split
      · rename_i current hfound
        exact manifestKept_goto h huser rfl rfl (fun _ => rfl)
          ⟨hfound, follows_after manifest current⟩ rfl rfl rfl
      · rename_i hnone
        refine manifestKept_goto h huser rfl rfl (fun _ => rfl) ?_ rfl rfl rfl
        intro current hcurrent
        rw [hnone] at hcurrent
        cases hcurrent
  | saveBackup manifest current =>
      obtain ⟨hfound, hfollows⟩ := hready
      refine manifestKept_goto h huser rfl rfl (fun _ => rfl) ?_ rfl rfl rfl
      intro current' hcurrent
      rw [hfound] at hcurrent
      cases hcurrent
      exact hfollows
  | releaseExists =>
      simp only [operateStage]
      split
      · exact manifestKept_goto h huser rfl rfl (fun _ => rfl) trivial rfl rfl rfl
      · exact manifestKept_leave h huser rfl rfl rfl rfl
  | releaseOpen =>
      simp only [operateStage]
      cases s.files.lock.entries () with
      | none => exact manifestKept_leave h huser rfl rfl rfl rfl
      | some inode => exact manifestKept_goto h huser rfl rfl (fun _ => rfl) trivial rfl rfl rfl
  | releaseFlock inode =>
      simp only [operateStage]
      split
      · exact manifestKept_leave h huser rfl rfl rfl rfl
      · exact manifestKept_goto h huser rfl rfl (fun _ => rfl) trivial rfl rfl rfl
  | releaseRead inode =>
      simp only [operateStage]
      split
      · split
        · exact manifestKept_goto h huser rfl rfl (fun _ => rfl) trivial rfl rfl rfl
        · exact manifestKept_leave h huser rfl rfl rfl rfl
      · exact manifestKept_leave h huser rfl rfl rfl rfl

/-! ## Runs -/

theorem manifestKept_stay (h : ManifestKept writers s) (p : P) :
    ManifestKept writers (s.apply p (s.files, s.users p)) := by
  rw [ManifestSystem.apply, Function.update_eq_self]
  exact h

theorem manifestKept_step (h : ManifestKept writers s) (a : P × ManifestEvent)
    (hyoung : NoHardTimeout s a) (hsafe : SafeBreak writers s a) :
    ManifestKept writers (manifestStep writers s a) := by
  obtain ⟨p, event⟩ := a
  change ManifestKept writers (s.apply p (userStep writers p s.files (s.users p) event))
  have hstay := manifestKept_stay h p
  cases huser : s.users p with
  | none =>
      rw [huser] at hstay
      cases event with
      | acquire writerId now =>
          refine manifestKept_apply h (h.exclusive.goto ?_ rfl fun ho => by cases ho) ?_ rfl rfl
          · rw [huser]
            rfl
          · intro held hheld
            cases hheld
            exact ⟨⟨rfl, rfl⟩, trivial⟩
      | giveUp => exact hstay
      | save manifest => exact hstay
      | raise => exact hstay
      | release => exact hstay
      | operate now => exact hstay
  | some held =>
      obtain ⟨token, stage⟩ := held
      rw [huser] at hstay
      cases event with
      | acquire writerId now => exact hstay
      | operate now => exact manifestKept_operate h huser hyoung hsafe
      | giveUp =>
          cases stage with
          | create => exact manifestKept_leave h huser rfl rfl rfl rfl
          | _ => exact hstay
      | save manifest =>
          cases stage with
          | holding => exact manifestKept_goto h huser rfl rfl (fun _ => rfl) trivial rfl rfl rfl
          | _ => exact hstay
      | release =>
          cases stage with
          | holding => exact manifestKept_goto h huser rfl rfl (fun _ => rfl) trivial rfl rfl rfl
          | _ => exact hstay
      | raise =>
          simp only [userStep]
          split
          · rename_i hsaving
            refine manifestKept_goto h huser ?_ rfl ?_ trivial rfl rfl rfl
            · cases stage <;> first | (cases hsaving; done) | rfl
            · intro _
              cases stage <;> first | (cases hsaving; done) | rfl
          · exact hstay

/-- Any number of processes, whatever lock file and manifest there are at the start: if no owner
of the lock reaches the hard timeout and every breaker unlinks a file that is abandoned at that
moment, each save follows the one before it. -/
theorem saves_chain_of_safeBreak (writers : ManifestWriters P) (lock : Option LockFile)
    (manifest : Option SyncManifest) (events : List (P × ManifestEvent))
    (hyoung : EachStep (manifestStep writers) NoHardTimeout (.start lock manifest) events)
    (hsafe : EachStep (manifestStep writers) (SafeBreak writers) (.start lock manifest) events) :
    EveryState (manifestStep writers) Chained (.start lock manifest) events := by
  have hboth := eachStep_and.mpr ⟨hyoung, hsafe⟩
  have hkept := everyState_of_eachStep (P := ManifestKept writers)
    (C := fun s a => NoHardTimeout s a ∧ SafeBreak writers s a)
    (fun _ a h hstep => manifestKept_step h a hstep.1 hstep.2)
    (manifestKept_start writers lock manifest) hboth
  exact hkept.mono fun _ h => h.chained

/-! ## Two processes -/

/-- Both run on one host, where nothing else runs. -/
def twoSyncs : ManifestWriters Bool where
  pid := fun first => if first then 1 else 2
  hostname := fun _ => "worker-01"
  kill := fun _ pid => if pid = 1 ∨ pid = 2 then .delivered else .noSuchProcess
  running := by decide
  pid_ne_zero := by decide

instance (current manifest : SyncManifest) : Decidable (current.Follows manifest) :=
  inferInstanceAs (Decidable (_ ∧ _))

instance (s : ManifestSystem Bool) (a : Bool × ManifestEvent) : Decidable (NoHardTimeout s a) :=
  match a with
  | (_, .operate _) => inferInstanceAs (Decidable (∀ _ : Bool, _ → ∀ _ ∈ _, _ → _))
  | (_, .acquire _ _) => instDecidableTrue
  | (_, .giveUp) => instDecidableTrue
  | (_, .save _) => instDecidableTrue
  | (_, .raise) => instDecidableTrue
  | (_, .release) => instDecidableTrue

instance (s : ManifestSystem Bool) (a : Bool × ManifestEvent) :
    Decidable (SafeBreak twoSyncs s a) :=
  match a with
  | (_, .operate _) => inferInstanceAs (Decidable (_ → ∀ _ ∈ _, _ ∧ ∀ _ : Bool, _))
  | (_, .acquire _ _) => instDecidableTrue
  | (_, .giveUp) => instDecidableTrue
  | (_, .save _) => instDecidableTrue
  | (_, .raise) => instDecidableTrue
  | (_, .release) => instDecidableTrue

/-- The lock of a process that is gone, seven minutes before the operations below. -/
def leftLock : LockFile := ⟨(⟨9, "worker-01", "sync-9", 0, 14400⟩ : LockToken).toJson, 0⟩

def firstManifest : SyncManifest := ⟨"crsp", "c1", 1, none, none⟩

/-- `count` operations of one of them. -/
def syncTurns (first : Bool) (count : ℕ) : List (Bool × ManifestEvent) :=
  List.replicate count (first, .operate 420)

/-- One process breaks the lock, saves and releases. -/
def breakRun : List (Bool × ManifestEvent) :=
  (true, .acquire "sync-1" 420) :: syncTurns true 7 ++
    (true, .save ⟨"crsp", "c2", 1, none, none⟩) :: syncTurns true 6 ++
    (true, .release) :: syncTurns true 5

theorem saves_chain_of_safeBreak_break :
    EveryState (manifestStep twoSyncs) Chained (.start (some leftLock) (some firstManifest))
      breakRun :=
  saves_chain_of_safeBreak twoSyncs (some leftLock) (some firstManifest) breakRun (by decide)
    (by decide)

/-- Both find the lock stale. The second unlinks the file that the first has created since, while
the first is about to write over what it has loaded. -/
def twoBreakersRun : List (Bool × ManifestEvent) :=
  [(true, .acquire "sync-1" 420), (false, .acquire "sync-2" 420)] ++ syncTurns true 4 ++
    syncTurns false 4 ++ syncTurns true 3 ++
    (true, .save ⟨"crsp", "c2", 1, none, none⟩) :: syncTurns true 4 ++
    syncTurns false 3 ++ (false, .save ⟨"crsp", "c3", 1, none, none⟩) :: syncTurns false 6 ++
    syncTurns true 2

/-- The manifest of the second is lost, and both saves take version 2. -/
theorem breaker_unlinks_held_lock :
    EachStep (manifestStep twoSyncs) NoHardTimeout (.start (some leftLock) (some firstManifest))
        twoBreakersRun ∧
      ¬EveryState (manifestStep twoSyncs) Chained (.start (some leftLock) (some firstManifest))
        twoBreakersRun := by
  constructor
  · decide
  · intro h
    have hversions : ((run (manifestStep twoSyncs) (.start (some leftLock) (some firstManifest))
        twoBreakersRun).files.history.map SyncManifest.manifestVersion) = [1, 2, 2] := by
      decide
    have hlast := (List.isChain_map (R := fun m n => n = m + 1) SyncManifest.manifestVersion).mpr
      (h.last.imp fun _ _ hfollows => hfollows.1)
    rw [hversions] at hlast
    revert hlast
    decide

end TradingPlatform.Data
