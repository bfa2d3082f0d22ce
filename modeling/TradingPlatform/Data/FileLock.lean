import TradingPlatform.Base.FileSystem
import TradingPlatform.Base.Run

/-! # The atomic file lock

Processes that take, refresh and give back one lock file. A step of a process is
one operation on a file, with the computing up to the next one; the path of a
process through `acquire`, `refresh` and `release` is its phase. Operations fail
only where the file is missing or already there.
-/

namespace TradingPlatform.Data

open Base

abbrev Timestamp := ℤ

/-- Four hours. -/
def lockTimeout : ℤ := 4 * 3600

/-- The lock file and its neighbours; two of them carry a process id in their name. -/
inductive LockPath where
  | lock
  | releasing
  | recovery (pid : ℕ)
  | temp (pid : ℕ)
  deriving DecidableEq, Repr

structure LockToken where
  pid : ℕ
  hostname : String
  writerId : String
  acquiredAt : Timestamp
  expiresAt : Timestamp
  deriving DecidableEq, Repr

/-- A JSON object in a lock file. A time that is given and cannot be read is `some none`. -/
structure LockData where
  pid : Option ℕ
  hostname : Option String
  writerId : Option String
  acquiredAt : Option (Option Timestamp)
  expiresAt : Option (Option Timestamp)
  /-- Whether it has fields that a lock file has not. -/
  extraFields : Bool
  deriving DecidableEq, Repr

inductive LockContent where
  /-- No JSON: an empty or a truncated file. -/
  | malformed
  | object (data : LockData)
  deriving DecidableEq, Repr

/-- `LockToken.to_json` -/
def LockToken.toJson (token : LockToken) : LockContent :=
  .object ⟨some token.pid, some token.hostname, some token.writerId, some (some token.acquiredAt),
    some (some token.expiresAt), false⟩

/-- `LockToken.from_dict`, after the check of the fields -/
def LockData.toToken (data : LockData) : Option LockToken :=
  match data with
  | ⟨some pid, some hostname, some writerId, some (some acquiredAt), some (some expiresAt),
      false⟩ => some ⟨pid, hostname, writerId, acquiredAt, expiresAt⟩
  | _ => none

def LockToken.isExpired (token : LockToken) (now : Timestamp) : Bool := token.expiresAt < now

/-- The processes, all of them running, and which pids run on a host. -/
structure LockWriters (P : Type*) where
  pid : P → ℕ
  hostname : P → String
  writerId : P → String
  isPidAlive : String → ℕ → Bool
  alive : ∀ p, isPidAlive (hostname p) (pid p) = true

variable {P : Type*}

/-- `_is_lock_stale`, on what was read; a missing file is as stale as a malformed one. -/
def LockWriters.isLockStale (writers : LockWriters P) (p : P) (now : Timestamp) :
    Option LockContent → Bool
  | none => true
  | some .malformed => true
  | some (.object data) =>
      match data.toToken with
      | none => true
      | some token =>
          token.isExpired now ||
            (token.hostname = writers.hostname p &&
              !writers.isPidAlive token.hostname token.pid)

/-- The comparison of `release` and `refresh` with what the file says. -/
def LockData.isOf (data : LockData) (token : LockToken) : Bool :=
  data.writerId = some token.writerId && data.hostname = some token.hostname &&
    data.pid = some token.pid

/-! ## Processes -/

/-- The next operation on a file. -/
inductive LockPhase where
  | idle
  /-- `_cleanup_stale_releasing_file` -/
  | cleanupExists | cleanupRead | cleanupStat | cleanupUnlink
  /-- `_try_acquire` -/
  | create
  | write (inode : ℕ) (token : LockToken)
  /-- `_is_lock_stale` and `_recover_stale_lock` -/
  | readLock | recoverRename | recoverUnlink
  | releaseRename (token : LockToken)
  | releaseRead (token : LockToken)
  | releaseRestore | releaseUnlink | releaseExists | releaseRestoreUnread
  | refreshExists (token : LockToken)
  | refreshRead (token : LockToken)
  | refreshWrite (token : LockToken)
  | refreshReplace (token : LockToken)
  deriving DecidableEq, Repr

structure LockProcess where
  /-- `_current_token` -/
  token : Option LockToken
  phase : LockPhase
  deriving DecidableEq, Repr

def LockProcess.goto (proc : LockProcess) (phase : LockPhase) : LockProcess :=
  { proc with phase }

/-- The call is over, and no token is left. -/
def LockProcess.dropped : LockProcess := ⟨none, .idle⟩

/-- `_validate_token`; the path is the same in all tokens. -/
def LockProcess.validates (proc : LockProcess) (token : LockToken) : Bool :=
  proc.token.any fun current =>
    token.pid = current.pid && token.hostname = current.hostname &&
      token.writerId = current.writerId

structure LockSystem (P : Type*) where
  files : FileSystem LockPath LockContent
  procs : P → LockProcess

inductive LockEvent where
  | acquire
  | release (token : LockToken)
  | refresh (token : LockToken)
  /-- The timeout of `acquire` has passed. -/
  | giveUp
  /-- The next operation of the call; `aged` answers the question for the age of the file. -/
  | operate (now : Timestamp) (aged : Bool)

/-- A process and the files after one of its operations. -/
abbrev LockStep := FileSystem LockPath LockContent × LockProcess

variable (writers : LockWriters P) (p : P)

def newToken (now : Timestamp) : LockToken :=
  ⟨writers.pid p, writers.hostname p, writers.writerId p, now, now + lockTimeout⟩

/-- The checks of `_cleanup_stale_releasing_file` on what was read. -/
def cleanupPhase (content : Option LockContent) : LockPhase :=
  match content with
  | none => .cleanupUnlink
  | some .malformed => .cleanupUnlink
  | some (.object data) =>
      if data.hostname.getD "" = writers.hostname p then
        if writers.isPidAlive (writers.hostname p) (data.pid.getD 0) then .create
        else .cleanupUnlink
      else .cleanupStat

/-- One operation on a file, by the phase of the process. -/
def operate (fs : FileSystem LockPath LockContent) (proc : LockProcess) (now : Timestamp)
    (aged : Bool) : LockStep :=
  match proc.phase with
  | .idle => (fs, proc)
  | .cleanupExists =>
      (fs, proc.goto (if fs.exists? .releasing then .cleanupRead else .create))
  | .cleanupRead => (fs, proc.goto (cleanupPhase writers p (fs.content .releasing)))
  | .cleanupStat =>
      -- A file that is gone by now raises, and is unlinked as a corrupted one.
      (fs, proc.goto (if fs.exists? .releasing && !aged then .create else .cleanupUnlink))
  | .cleanupUnlink => (fs.unlink .releasing, proc.goto .create)
  | .create =>
      match fs.createExclusive .lock .malformed with
      | some (fs, inode) => (fs, proc.goto (.write inode (newToken writers p now)))
      | none => (fs, proc.goto .readLock)
  | .write inode token => (fs.write inode token.toJson, ⟨some token, .idle⟩)
  | .readLock =>
      (fs, proc.goto
        (if writers.isLockStale p now (fs.content .lock) then .recoverRename else .create))
  | .recoverRename =>
      match fs.rename .lock (.recovery (writers.pid p)) with
      | some fs => (fs, proc.goto .recoverUnlink)
      | none => (fs, proc.goto .create)
  | .recoverUnlink => (fs.unlink (.recovery (writers.pid p)), proc.goto .create)
  | .releaseRename token =>
      match fs.rename .lock .releasing with
      | some fs => (fs, proc.goto (.releaseRead token))
      | none => (fs, .dropped)
  | .releaseRead token =>
      match fs.content .releasing with
      | some (.object data) =>
          (fs, proc.goto (if data.isOf token then .releaseUnlink else .releaseRestore))
      | _ => (fs, proc.goto .releaseExists)
  | .releaseRestore =>
      match fs.rename .releasing .lock with
      | some fs => (fs, .dropped)
      | none => (fs, proc.goto .releaseExists)
  | .releaseUnlink =>
      if fs.exists? .releasing then (fs.unlink .releasing, .dropped)
      else (fs, proc.goto .releaseExists)
  | .releaseExists =>
      if fs.exists? .releasing then (fs, proc.goto .releaseRestoreUnread) else (fs, .dropped)
  | .releaseRestoreUnread => ((fs.rename .releasing .lock).getD fs, .dropped)
  | .refreshExists token =>
      if fs.exists? .lock then (fs, proc.goto (.refreshRead token)) else (fs, .dropped)
  | .refreshRead token =>
      match fs.content .lock with
      | some (.object data) =>
          if data.isOf token then
            (fs, proc.goto (.refreshWrite { token with expiresAt := now + lockTimeout }))
          else (fs, .dropped)
      | _ => (fs, .dropped)
  | .refreshWrite token =>
      (fs.put (.temp (writers.pid p)) token.toJson, proc.goto (.refreshReplace token))
  | .refreshReplace token =>
      match fs.rename (.temp (writers.pid p)) .lock with
      | some fs => (fs, ⟨some token, .idle⟩)
      | none => (fs, proc.goto .idle)

/-- A call starts only between calls; a token that does not match raises at once. -/
def processStep (fs : FileSystem LockPath LockContent) (proc : LockProcess) :
    LockEvent → LockStep
  | .acquire => (fs, if proc.phase = .idle then proc.goto .cleanupExists else proc)
  | .release token =>
      (fs, if proc.phase = .idle ∧ proc.validates token = true then
        proc.goto (.releaseRename token) else proc)
  | .refresh token =>
      (fs, if proc.phase = .idle ∧ proc.validates token = true then
        proc.goto (.refreshExists token) else proc)
  | .giveUp => (fs, if proc.phase = .create then proc.goto .idle else proc)
  | .operate now aged => operate writers p fs proc now aged

def lockStep [DecidableEq P] (s : LockSystem P) (a : P × LockEvent) : LockSystem P :=
  let next := processStep writers a.1 s.files (s.procs a.1) a.2
  ⟨next.1, Function.update s.procs a.1 next.2⟩

/-- The lock file that is there from the start, if there is one, has the inode 0. -/
def LockSystem.start (content : Option LockContent) : LockSystem P where
  files :=
    { entries := fun path => if path = .lock then content.map fun _ => 0 else none
      data := fun _ => content.getD .malformed
      next := 1 }
  procs := fun _ => ⟨none, .idle⟩

end TradingPlatform.Data
