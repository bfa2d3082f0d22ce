import TradingPlatform.Data.FileLock

/-! # The manifest of a dataset and its lock

Processes that take the lock of one dataset, save its manifest and release the
lock. A step is one operation on a file. The manifest and its backups are
written to a temporary file that takes the place of the old one, so that such a
write is one step. A token carries what the lock file says.
-/

namespace TradingPlatform.Data

open Base

def lockStaleSeconds : ℤ := 300
def lockHardTimeoutSeconds : ℤ := 1800

structure LockFile where
  content : LockContent
  mtime : Timestamp
  deriving DecidableEq, Repr

/-- The fields of a manifest that a save reads or sets. -/
structure SyncManifest where
  dataset : String
  checksum : String
  manifestVersion : ℕ
  previousChecksum : Option String
  manifestId : Option String
  deriving DecidableEq, Repr

/-- What `os.kill(pid, 0)` answers. -/
inductive KillAnswer where
  | delivered | noSuchProcess | notPermitted
  deriving DecidableEq, Repr

/-- The processes, all of them running; a process of another user may not be signalled. -/
structure ManifestWriters (P : Type*) where
  pid : P → ℕ
  hostname : P → String
  kill : P → ℕ → KillAnswer
  running : ∀ p q, hostname q = hostname p → kill p (pid q) ≠ .noSuchProcess
  pid_ne_zero : ∀ p, pid p ≠ 0

variable {P : Type*}

/-- The test for the owner of a lock that is older than five minutes. -/
def ManifestWriters.ownerIsDead (writers : ManifestWriters P) (p : P) (data : LockData) : Bool :=
  data.hostname = some (writers.hostname p) &&
    match data.pid with
    | none => true
    | some 0 => true
    | some pid => writers.kill p pid ≠ .delivered

/-! ## The save -/

/-- `assert_lock_held`, on what was read. A time that cannot be read raises too. -/
def lockHeld (token : LockToken) (now : Timestamp) : Option LockContent → Bool
  | some (.object data) =>
      data.isOf token &&
        (match data.expiresAt with
          | none => true
          | some expiry => expiry.any (now ≤ ·)) &&
        match data.acquiredAt with
        | none => true
        | some acquired => acquired.any (now ≤ · + lockHardTimeoutSeconds)
  | _ => false

def SyncManifest.withId (manifest : SyncManifest) : SyncManifest :=
  { manifest with
    manifestId := some
      (manifest.dataset ++ "@v" ++ toString manifest.manifestVersion ++ ":" ++
        manifest.checksum) }

def SyncManifest.after (manifest current : SyncManifest) : SyncManifest :=
  { manifest with
    manifestVersion := current.manifestVersion + 1
    previousChecksum := some current.checksum }

/-! ## Processes -/

/-- The next operation of a process that is in `acquire_lock`. -/
inductive LockStage where
  | create
  | write (inode : ℕ)
  /-- `_try_break_stale_lock` -/
  | breakExists | breakStat | breakRead | breakUnlink
  | holding
  /-- `save_manifest` -/
  | saveExists (manifest : SyncManifest)
  | saveRead (manifest : SyncManifest)
  | saveStat (manifest : SyncManifest)
  | saveLoad (manifest : SyncManifest)
  | saveBackup (manifest current : SyncManifest)
  | saveInstall (manifest : SyncManifest)
  /-- `_release_lock` -/
  | releaseExists | releaseOpen
  | releaseFlock (inode : ℕ)
  | releaseRead (inode : ℕ)
  | releaseUnlink (inode : ℕ)
  deriving DecidableEq, Repr

/-- No process state: the process is outside of `acquire_lock`. -/
abbrev LockUser := Option (LockToken × LockStage)

/-- The parts of the store that the processes share. -/
structure ManifestFiles where
  lock : FileSystem Unit LockFile
  flocked : ℕ → Bool
  manifest : Option SyncManifest
  backups : ℕ → Option SyncManifest
  /-- The manifest that was there from the start, and those that the saves wrote. -/
  history : List SyncManifest

structure ManifestSystem (P : Type*) where
  files : ManifestFiles
  users : P → LockUser

def ManifestFiles.withLock (files : ManifestFiles) (lock : FileSystem Unit LockFile) :
    ManifestFiles := { files with lock }

def ManifestFiles.setFlock (files : ManifestFiles) (inode : ℕ) (held : Bool) : ManifestFiles :=
  { files with flocked := Function.update files.flocked inode held }

def ManifestFiles.install (files : ManifestFiles) (manifest : SyncManifest) : ManifestFiles :=
  { files with manifest := some manifest, history := files.history ++ [manifest] }

def ManifestFiles.backup (files : ManifestFiles) (current : SyncManifest) : ManifestFiles :=
  { files with
    backups := Function.update files.backups current.manifestVersion (some current) }

variable (writers : ManifestWriters P) (p : P)

/-- One operation on a file, by the stage of the process. -/
def operateStage (files : ManifestFiles) (token : LockToken) (now : Timestamp) :
    LockStage → ManifestFiles × LockUser
  | .create =>
      match files.lock.createExclusive () ⟨.malformed, now⟩ with
      | some (lock, inode) => (files.withLock lock, some (token, .write inode))
      | none => (files, some (token, .breakExists))
  | .write inode =>
      (files.withLock (files.lock.write inode ⟨token.toJson, now⟩), some (token, .holding))
  | .breakExists =>
      (files, some (token, if files.lock.exists? () then .breakStat else .create))
  | .breakStat =>
      match files.lock.content () with
      | none => (files, some (token, .create))
      | some file =>
          let age := now - file.mtime
          (files, some (token,
            if lockHardTimeoutSeconds < age then .breakUnlink
            else if lockStaleSeconds < age then .breakRead
            else .create))
  | .breakRead =>
      match (files.lock.content ()).map LockFile.content with
      | some (.object data) =>
          (files, some (token, if writers.ownerIsDead p data then .breakUnlink else .create))
      | _ => (files, some (token, .breakUnlink))
  | .breakUnlink => (files.withLock (files.lock.unlink ()), some (token, .create))
  | .holding => (files, some (token, .holding))
  | .saveExists manifest =>
      (files, some (token, if files.lock.exists? () then .saveRead manifest else .holding))
  | .saveRead manifest =>
      (files, some (token,
        if lockHeld token now ((files.lock.content ()).map LockFile.content) then
          .saveStat manifest
        else .holding))
  | .saveStat manifest =>
      (files, some (token, if files.lock.exists? () then .saveLoad manifest else .holding))
  | .saveLoad manifest =>
      (files, some (token,
        match files.manifest with
        | some current => .saveBackup (manifest.after current).withId current
        | none => .saveInstall manifest.withId))
  | .saveBackup manifest current =>
      (files.backup current, some (token, .saveInstall manifest))
  | .saveInstall manifest => (files.install manifest, some (token, .holding))
  | .releaseExists =>
      (files, if files.lock.exists? () then some (token, .releaseOpen) else none)
  | .releaseOpen =>
      (files, (files.lock.entries ()).map fun inode => (token, .releaseFlock inode))
  | .releaseFlock inode =>
      if files.flocked inode then (files, none)
      else (files.setFlock inode true, some (token, .releaseRead inode))
  | .releaseRead inode =>
      match (files.lock.data inode).content with
      | .object data =>
          if data.isOf token then (files, some (token, .releaseUnlink inode))
          else (files.setFlock inode false, none)
      | .malformed => (files.setFlock inode false, none)
  | .releaseUnlink inode =>
      ((files.withLock (files.lock.unlink ())).setFlock inode false, none)

inductive ManifestEvent where
  | acquire (writerId : String) (now : Timestamp)
  /-- The timeout of `acquire_lock` has passed. -/
  | giveUp
  | save (manifest : SyncManifest)
  /-- `save_manifest` raises: a data file is missing or empty, the disk is full. -/
  | raise
  /-- The body of the `with` statement ends. -/
  | release
  | operate (now : Timestamp)

/-- Whether the process is in `save_manifest`. -/
def LockStage.saving : LockStage → Bool
  | .saveExists _ => true
  | .saveRead _ => true
  | .saveStat _ => true
  | .saveLoad _ => true
  | .saveBackup _ _ => true
  | .saveInstall _ => true
  | _ => false

def userStep (files : ManifestFiles) (user : LockUser) : ManifestEvent → ManifestFiles × LockUser
  | .acquire writerId now =>
      match user with
      | none =>
          (files, some (⟨writers.pid p, writers.hostname p, writerId, now, now + lockTimeout⟩,
            .create))
      | some _ => (files, user)
  | .giveUp =>
      match user with
      | some (_, .create) => (files, none)
      | _ => (files, user)
  | .save manifest =>
      match user with
      | some (token, .holding) => (files, some (token, .saveExists manifest))
      | _ => (files, user)
  | .raise =>
      match user with
      | some (token, stage) => (files, some (token, if stage.saving then .holding else stage))
      | none => (files, user)
  | .release =>
      match user with
      | some (token, .holding) => (files, some (token, .releaseExists))
      | _ => (files, user)
  | .operate now =>
      match user with
      | some (token, stage) => operateStage writers p files token now stage
      | none => (files, user)

def manifestStep [DecidableEq P] (s : ManifestSystem P) (a : P × ManifestEvent) :
    ManifestSystem P :=
  let next := userStep writers a.1 s.files (s.users a.1) a.2
  ⟨next.1, Function.update s.users a.1 next.2⟩

/-- The lock file that is there from the start, if there is one, has the inode 0. -/
def ManifestSystem.start (lock : Option LockFile) (manifest : Option SyncManifest) :
    ManifestSystem P where
  files :=
    { lock :=
        { entries := fun _ => lock.map fun _ => 0
          data := fun _ => lock.getD ⟨.malformed, 0⟩
          next := 1 }
      flocked := fun _ => false
      manifest
      backups := fun _ => none
      history := manifest.toList }
  users := fun _ => none

end TradingPlatform.Data
