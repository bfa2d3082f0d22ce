import TradingPlatform.Data.SnapshotStore

/-! # Reading snapshots

Where the readers of a snapshot look for its files, and what the verification of a
snapshot reports. A directory is named by its snapshot and its place in it.
-/

namespace TradingPlatform.Data

open Base

variable {P κ : Type*}

structure SnapshotPath where
  versionTag : String
  directory : String
  deriving DecidableEq, Repr

inductive ReadError where
  | snapshotNotFound (versionTag : String)
  | noSnapshotUntil (asOf : ℤ)
  | datasetNotInSnapshot (versionTag dataset : String)
  deriving DecidableEq, Repr

/-- The file of that name in the directory. A creation makes one directory, `files`. -/
def SnapshotStore.fileAt (s : SnapshotStore P κ) (path : SnapshotPath) (name : String) : Option κ :=
  match s.snapshots.find? path.versionTag with
  | some snapshot => if path.directory = "files" then snapshot.files name else none
  | none => none

def SnapshotStore.getDataAtVersion (s : SnapshotStore P κ) (dataset versionTag : String) :
    Except ReadError SnapshotPath :=
  match s.snapshots.find? versionTag with
  | none => .error (.snapshotNotFound versionTag)
  | some snapshot =>
      if (snapshot.datasets.find? dataset).isSome then .ok ⟨versionTag, "files"⟩
      else .error (.datasetNotInSnapshot versionTag dataset)

/-! ## Queries by date -/

/-- `YYYY-MM-DD`; the pattern admits a line feed at the end. -/
def isDateBasedTag (versionTag : String) : Bool :=
  match versionTag.toList with
  | y₁ :: y₂ :: y₃ :: y₄ :: '-' :: m₁ :: m₂ :: '-' :: d₁ :: d₂ :: rest =>
      [y₁, y₂, y₃, y₄, m₁, m₂, d₁, d₂].all Char.isDigit && (rest = [] || rest = ['\n'])
  | _ => false

/-- Newest first. -/
def SnapshotStore.listSnapshots (s : SnapshotStore P κ) : List (Snapshot κ) :=
  s.snapshots.rows.mergeSort fun a b => b.createdAt ≤ a.createdAt

def secondsPerDay : ℤ := 86400

/-- The date is a number of days, as the time of creation is one of seconds. -/
def SnapshotStore.queryAsOf (s : SnapshotStore P κ) (dataset : String) (asOf : ℤ) :
    Except ReadError (SnapshotPath × Snapshot κ) :=
  let candidates := s.listSnapshots.filter fun snapshot =>
    isDateBasedTag snapshot.versionTag && snapshot.createdAt / secondsPerDay ≤ asOf
  match candidates with
  | [] => .error (.noSnapshotUntil asOf)
  | newest :: _ =>
      match candidates.find? fun snapshot => (snapshot.datasets.find? dataset).isSome with
      | some snapshot =>
          (s.getDataAtVersion dataset snapshot.versionTag).map fun path => (path, snapshot)
      | none => .error (.datasetNotInSnapshot newest.versionTag dataset)

/-! ## Backtests -/

/-- What `_get_pit_prices` and `_get_pit_fundamentals` scan. -/
def pitDatasets : List String := ["crsp", "compustat"]

/-- `_get_snapshot_data_path` -/
def snapshotDataPath (snapshot : Snapshot κ) (dataset : String) : Option SnapshotPath :=
  if (snapshot.datasets.find? dataset).isSome then some ⟨snapshot.versionTag, dataset⟩ else none

/-! ## Verification -/

def verifyFile (sha : Sha256 κ) (s : SnapshotStore P κ) (snapshot : Snapshot κ)
    (file : StoredFile κ) : List String :=
  let found :=
    match file.storageMode with
    | .cas target => s.casFiles target
    | .copy => snapshot.files file.path
  match found with
  | none => ["Missing file: " ++ file.path]
  | some content =>
      if sha.ofFile content = file.checksum then []
      else ["Checksum mismatch for " ++ file.path ++ ": expected " ++ file.checksum ++ ", got " ++
        sha.ofFile content]

def SnapshotStore.verifySnapshotIntegrity (sha : Sha256 κ) (s : SnapshotStore P κ)
    (versionTag : String) : List String :=
  match s.snapshots.find? versionTag with
  | none => ["Snapshot not found: " ++ versionTag]
  | some snapshot =>
      let allFiles := snapshot.datasets.rows.flatMap DatasetSnapshot.files
      let expected := aggregateChecksum sha allFiles
      allFiles.flatMap (verifyFile sha s snapshot) ++
        if expected = snapshot.aggregateChecksum then []
        else ["Aggregate checksum mismatch: expected " ++ snapshot.aggregateChecksum ++ ", got " ++
          expected]

end TradingPlatform.Data
