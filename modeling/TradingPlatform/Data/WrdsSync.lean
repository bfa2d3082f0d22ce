import TradingPlatform.Base.Calendar
import TradingPlatform.Base.LastRow
import TradingPlatform.Data.SnapshotStore
import Mathlib.Data.Prod.Lex
import Mathlib.Data.String.Basic

/-! # The sync of the WRDS datasets

A dataset in one file a year, with the manifest that signs them and the progress of a
full sync. A run takes the lock, fetches its years one by one, refreshes the lock in
between and saves the manifest. What the database answers is a parameter of each run,
and a run is cut short where the readings of its clock end. No other process touches
the lock.
-/

namespace TradingPlatform.Data.Wrds

open Base

variable {κ V : Type*}

/-- A row, with the columns besides the primary key as its values. -/
structure WrdsRow (κ V : Type*) where
  date : ℤ
  id : κ
  values : V
  deriving DecidableEq, Repr

/-- `DATASET_PRIMARY_KEYS`, the second of which the Fama-French factors do without. -/
def WrdsRow.key (row : WrdsRow κ V) : ℤ ×ₗ κ := toLex (row.date, row.id)

def WrdsRow.year (row : WrdsRow κ V) : ℤ := yearOf row.date

inductive SyncStatus where
  | running | paused | completed | failed
  deriving DecidableEq, Repr

structure SyncProgress where
  yearsCompleted : List ℤ
  yearsRemaining : List ℤ
  totalRowsSynced : ℕ
  status : SyncStatus
  deriving DecidableEq, Repr

/-- The fields of the manifest that a sync reads; its files are those of these years. -/
structure WrdsManifest where
  startDate : ℤ
  endDate : ℤ
  rowCount : ℕ
  checksum : String
  filePaths : List ℤ
  deriving DecidableEq, Repr

/-- The file of each year, by its rows. -/
structure WrdsStore (κ V : Type*) where
  files : ℤ → Option (List (WrdsRow κ V))
  progress : Option SyncProgress
  manifest : Option WrdsManifest

/-- The query of `_build_query`, for the rows from a first to a last date. -/
abbrev Query (κ V : Type*) := ℤ → ℤ → List (WrdsRow κ V)

/-- The file name of a year. -/
def pathName (year : ℤ) : String := toString year ++ ".parquet"

/-- `_compute_combined_checksum`: of the files that exist, sorted by path. -/
def combinedChecksum (sha : Sha256 (List (WrdsRow κ V))) (store : WrdsStore κ V)
    (filePaths : List ℤ) : String :=
  sha.ofText (String.join
    (((sortByKey pathName filePaths).filterMap store.files).map sha.ofFile))

/-- The rows in the files of these years. -/
def WrdsStore.countRows (store : WrdsStore κ V) (years : List ℤ) : ℕ :=
  (years.map fun year => ((store.files year).map List.length).getD 0).sum

/-! ## The lock -/

/-- What a process writes of itself into the lock file. -/
structure SyncWriter where
  pid : ℕ
  hostname : String
  writerId : String

/-- `acquire` -/
def SyncWriter.acquire (writer : SyncWriter) (now : Timestamp) : LockToken :=
  ⟨writer.pid, writer.hostname, writer.writerId, now, now + lockTimeout⟩

/-- `REFRESH_INTERVAL_SECONDS` -/
def refreshIntervalSeconds : ℤ := 60

/-- The lock, which is refreshed where its last refresh is too long ago. -/
structure HeldLock where
  token : LockToken
  lastRefresh : Timestamp

def HeldLock.refreshIfDue (lock : HeldLock) (now : Timestamp) : HeldLock :=
  if refreshIntervalSeconds ≤ now - lock.lastRefresh then
    ⟨{ lock.token with expiresAt := now + lockTimeout }, now⟩
  else lock

/-- The readings of the clock during a run: at the acquisition of the lock, after each year and
at the save of the manifest. -/
structure SyncClock where
  acquired : Timestamp
  years : List Timestamp
  save : Timestamp

/-- Time goes on, and no year takes as long as the lock lasts. -/
def SyncClock.Regular (clock : SyncClock) : Prop :=
  (clock.acquired :: clock.years).IsChain (fun now next => now ≤ next ∧ next < now + lockTimeout) ∧
    ∀ now ∈ clock.acquired :: clock.years, now ≤ clock.save

/-! ## A year -/

variable [LinearOrder κ]

/-- `_validate_partition`: the primary keys are unique. -/
def validatePartition (rows : List (WrdsRow κ V)) : Bool :=
  (uniqueFirst WrdsRow.key rows).length = rows.length

/-- The rows that have no key of the new ones, and the new ones. -/
def mergedRows (existing newDf : List (WrdsRow κ V)) : List (WrdsRow κ V) :=
  let deduped := uniqueLast WrdsRow.key newDf
  sortByKey WrdsRow.key
    ((existing.filter fun r => r.key ∉ deduped.map WrdsRow.key) ++ deduped)

/-- The store and the number of rows written, unless the validation fails. -/
def WrdsStore.writePartition (store : WrdsStore κ V) (year : ℤ) (df : List (WrdsRow κ V)) :
    Option (WrdsStore κ V × ℕ) :=
  if validatePartition df then
    some ({ store with files := Function.update store.files year (some df) }, df.length)
  else none

/-- `_sync_year_partition` -/
def WrdsStore.syncYearPartition (store : WrdsStore κ V) (year : ℤ) (newDf : List (WrdsRow κ V))
    (incremental : Bool) : Option (WrdsStore κ V × ℕ) :=
  match incremental, store.files year with
  | true, some existing =>
      if newDf = [] then some (store, existing.length)
      else store.writePartition year (mergedRows existing newDf)
  | _, _ => store.writePartition year newDf

/-- `save_manifest` raises unless the lock is held and all files exist. -/
def WrdsStore.saveManifest (store : WrdsStore κ V) (manifest : WrdsManifest) (lock : HeldLock)
    (now : Timestamp) : Option WrdsManifest × WrdsStore κ V :=
  if lockHeld lock.token now (some lock.token.toJson) ∧
      ∀ year ∈ manifest.filePaths, (store.files year).isSome then
    (some manifest, { store with manifest := some manifest })
  else (none, store)

/-! ## Full syncs -/

structure FullSync (κ V : Type*) where
  writer : SyncWriter
  startYear : ℤ
  endYear : Option ℤ
  currentYear : ℤ
  query : Query κ V

/-- `end_year`, or the current year; zero is no year. -/
def FullSync.lastYear (call : FullSync κ V) : ℤ :=
  match call.endYear with
  | some year => if year = 0 then call.currentYear else year
  | none => call.currentYear

def FullSync.requestedYears (call : FullSync κ V) : List ℤ :=
  yearRange call.startYear call.lastYear

/-- What the loop over the years keeps. -/
structure SyncLoop (κ V : Type*) where
  store : WrdsStore κ V
  progress : SyncProgress
  filePaths : List ℤ
  totalRows : ℕ
  lock : HeldLock

/-- The progress that a full sync resumes from. -/
def WrdsStore.resumable (store : WrdsStore κ V) : Option SyncProgress :=
  store.progress.filter fun progress => progress.status = .paused ∨ progress.status = .running

def FullSync.initialProgress (call : FullSync κ V) (store : WrdsStore κ V) : SyncProgress :=
  match store.resumable with
  | some progress => { progress with status := .running }
  | none => ⟨[], call.requestedYears, 0, .running⟩

def FullSync.begin (call : FullSync κ V) (store : WrdsStore κ V) (clock : SyncClock) :
    SyncLoop κ V :=
  let progress := call.initialProgress store
  { store := { store with progress := some progress }
    progress
    filePaths := progress.yearsCompleted
    totalRows := progress.totalRowsSynced
    lock := ⟨call.writer.acquire clock.acquired, clock.acquired⟩ }

def SyncLoop.saveProgress (loop : SyncLoop κ V) (progress : SyncProgress) : SyncLoop κ V :=
  { loop with progress, store := { loop.store with progress := some progress } }

/-- The rows of the year. -/
def FullSync.newDf (call : FullSync κ V) (year : ℤ) : List (WrdsRow κ V) :=
  call.query (newYear year) (newYear (year + 1) - 1)

/-- One year of the loop, after which the clock is read. -/
def FullSync.syncYear (call : FullSync κ V) (loop : SyncLoop κ V) (year : ℤ) (now : Timestamp) :
    Option (SyncLoop κ V) := do
  let (store, rows) ← loop.store.syncYearPartition year (call.newDf year) false
  let totalRows := loop.totalRows + rows
  let loop := { loop with store, totalRows, filePaths := loop.filePaths ++ [year] }.saveProgress
    { loop.progress with
      yearsCompleted := loop.progress.yearsCompleted ++ [year]
      yearsRemaining := loop.progress.yearsRemaining.erase year
      totalRowsSynced := totalRows }
  return { loop with lock := loop.lock.refreshIfDue now }

/-- The loop, and whether none of the years has failed. -/
def FullSync.syncYears (call : FullSync κ V) (loop : SyncLoop κ V) :
    List (ℤ × Timestamp) → SyncLoop κ V × Bool
  | [] => (loop, true)
  | (year, now) :: rest =>
      match call.syncYear loop year now with
      | some loop => call.syncYears loop rest
      | none => (loop, false)

def FullSync.manifest (sha : Sha256 (List (WrdsRow κ V))) (call : FullSync κ V)
    (loop : SyncLoop κ V) : WrdsManifest where
  startDate := newYear call.startYear
  endDate := newYear (call.lastYear + 1) - 1
  rowCount := loop.totalRows
  checksum := combinedChecksum sha loop.store loop.filePaths
  filePaths := loop.filePaths

/-- A file that is written when the run ends, before the progress is saved. -/
def FullSync.tear (call : FullSync κ V) (store : WrdsStore κ V) (year : Option ℤ) :
    WrdsStore κ V :=
  match year with
  | none => store
  | some year => ((store.syncYearPartition year (call.newDf year) false).map Prod.fst).getD store

/-- `full_sync`, with the manifest that it returns. Where the clock ends before the years do, the
run raises there or is killed, before or after the file of the next year is written. -/
def fullSync (sha : Sha256 (List (WrdsRow κ V))) (store : WrdsStore κ V) (call : FullSync κ V)
    (clock : SyncClock) (killed torn : Bool) : Option WrdsManifest × WrdsStore κ V :=
  let begun := call.begin store clock
  let years := begun.progress.yearsRemaining
  let (loop, succeeded) := call.syncYears begun (years.zip clock.years)
  if succeeded ∧ years.length ≤ clock.years.length then
    let loop := loop.saveProgress { loop.progress with status := .completed }
    loop.store.saveManifest (call.manifest sha loop) loop.lock clock.save
  else
    let next := if succeeded ∧ torn then years[clock.years.length]? else none
    if succeeded ∧ killed then (none, call.tear loop.store next)
    else
      (none, call.tear (loop.saveProgress { loop.progress with status := .failed }).store next)

/-! ## Incremental syncs -/

structure IncrementalSync (κ V : Type*) where
  writer : SyncWriter
  today : ℤ
  query : Query κ V

/-- The rows of the year, in the year of the last date those after it. -/
def IncrementalSync.newDf (call : IncrementalSync κ V) (lastDate year : ℤ) :
    List (WrdsRow κ V) :=
  call.query (if year = yearOf lastDate then lastDate + 1 else newYear year)
    (newYear (year + 1) - 1)

structure IncrementalLoop (κ V : Type*) where
  store : WrdsStore κ V
  filePaths : List ℤ
  totalRows : ℕ
  lock : HeldLock

def IncrementalSync.syncYear (call : IncrementalSync κ V) (lastDate : ℤ)
    (loop : IncrementalLoop κ V) (year : ℤ) (now : Timestamp) : Option (IncrementalLoop κ V) := do
  let (store, rows) ← loop.store.syncYearPartition year (call.newDf lastDate year) true
  return {
    store
    filePaths := (loop.filePaths.filter fun path => path ≠ year) ++ [year]
    totalRows := loop.totalRows + rows
    lock := loop.lock.refreshIfDue now }

def IncrementalSync.syncYears (call : IncrementalSync κ V) (lastDate : ℤ)
    (loop : IncrementalLoop κ V) : List (ℤ × Timestamp) → IncrementalLoop κ V × Bool
  | [] => (loop, true)
  | (year, now) :: rest =>
      match call.syncYear lastDate loop year now with
      | some loop => call.syncYears lastDate loop rest
      | none => (loop, false)

/-- The years from the last date to today. -/
def IncrementalSync.years (call : IncrementalSync κ V) (lastDate : ℤ) : List ℤ :=
  yearRange (yearOf lastDate) (yearOf call.today)

/-- The rows of the years that are not updated count. -/
def IncrementalSync.begin (call : IncrementalSync κ V) (store : WrdsStore κ V)
    (current : WrdsManifest) (clock : SyncClock) : IncrementalLoop κ V where
  store
  filePaths := current.filePaths
  totalRows := store.countRows
    (current.filePaths.filter fun path => path ∉ call.years current.endDate)
  lock := ⟨call.writer.acquire clock.acquired, clock.acquired⟩

def IncrementalSync.manifest (sha : Sha256 (List (WrdsRow κ V))) (call : IncrementalSync κ V)
    (current : WrdsManifest) (loop : IncrementalLoop κ V) : WrdsManifest where
  startDate := current.startDate
  endDate := call.today
  rowCount := loop.totalRows
  checksum := combinedChecksum sha loop.store loop.filePaths
  filePaths := loop.filePaths

/-- `incremental_sync`, with the manifest that it returns. -/
def incrementalSync (sha : Sha256 (List (WrdsRow κ V))) (store : WrdsStore κ V)
    (call : IncrementalSync κ V) (clock : SyncClock) : Option WrdsManifest × WrdsStore κ V :=
  match store.manifest with
  | none => (none, store)
  | some current =>
      if call.today ≤ current.endDate then (some current, store)
      else
        let years := call.years current.endDate
        let (loop, succeeded) := call.syncYears current.endDate
          (call.begin store current clock) (years.zip clock.years)
        if succeeded ∧ years.length ≤ clock.years.length then
          loop.store.saveManifest (call.manifest sha current loop) loop.lock clock.save
        else (none, loop.store)

/-! ## Verification -/

inductive IntegrityError where
  | noManifest
  | missingFile (year : ℤ)
  | checksumMismatch
  | rowCountMismatch (manifest computed : ℕ)
  deriving DecidableEq, Repr

/-- `verify_integrity` -/
def verifyIntegrity (sha : Sha256 (List (WrdsRow κ V))) (store : WrdsStore κ V) :
    List IntegrityError :=
  match store.manifest with
  | none => [.noManifest]
  | some manifest =>
      let missing := manifest.filePaths.filter fun year => (store.files year).isNone
      if missing ≠ [] then missing.map .missingFile
      else
        (if combinedChecksum sha store manifest.filePaths = manifest.checksum then []
          else [.checksumMismatch]) ++
        (if store.countRows manifest.filePaths = manifest.rowCount then []
          else [.rowCountMismatch manifest.rowCount (store.countRows manifest.filePaths)])

end TradingPlatform.Data.Wrds
