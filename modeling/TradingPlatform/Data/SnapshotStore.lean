import TradingPlatform.Base.RefCount
import TradingPlatform.Base.Table
import TradingPlatform.Data.ManifestStore

/-! # Snapshots and the content-addressed store

The source files and manifests that writers change, and the snapshots made of
them. A snapshot is created in steps, one for each operation on a file, between
which anything but another operation under the snapshot lock may happen. Deletion
and collection are one step each, under the lock. A crash loses what the creating
process has in memory.
-/

namespace TradingPlatform.Data

open Base

variable {P κ : Type*}

/-- SHA-256 of the content of a file and of a text, in hex digits. -/
structure Sha256 (κ : Type*) where
  ofFile : κ → String
  ofText : String → String

structure FilePath where
  parent : String
  name : String
  deriving DecidableEq, Repr

/-- A manifest with the files that it signs, each as it was when the manifest was made. -/
structure FileManifest (κ : Type*) extends SyncManifest where
  signed : List (FilePath × κ)
  signed_ne_nil : signed ≠ []

def FileManifest.filePaths (manifest : FileManifest κ) : List FilePath :=
  manifest.signed.map Prod.fst

/-- The checksum of `_create_sync_manifest`: over the files, sorted by path. -/
def combinedChecksum (sha : Sha256 κ) (files : List (FilePath × κ)) : String :=
  sha.ofText (String.join
    ((files.mergeSort fun f g => f.1.parent ++ "/" ++ f.1.name ≤ g.1.parent ++ "/" ++ g.1.name).map
      fun f => sha.ofFile f.2))

/-- With the name of the file in the content-addressed store. -/
inductive StorageMode where
  | copy
  | cas (target : String)
  deriving DecidableEq, Repr

/-- `FileStorageInfo`; the content is what the checksum was computed of. -/
structure StoredFile (κ : Type*) where
  path : String
  originalPath : FilePath
  storageMode : StorageMode
  checksum : String
  content : κ
  deriving DecidableEq, Repr

structure DatasetSnapshot (κ : Type*) where
  dataset : String
  syncManifestVersion : ℕ
  files : List (StoredFile κ)
  deriving DecidableEq, Repr

/-- `SnapshotManifest`, with the `files` directory beside it. The datasets as they were processed
are kept for the properties to speak about. -/
structure Snapshot (κ : Type*) where
  versionTag : String
  createdAt : ℤ
  datasets : Table String (DatasetSnapshot κ) DatasetSnapshot.dataset
  aggregateChecksum : String
  referencedBy : List String
  files : String → Option κ
  processed : List (DatasetSnapshot κ)

inductive CreateError where
  | dataNotFound (message : String)
  | inconsistent (dataset : String) (expected actual : ℤ)
  | value (message : String)
  | os
  deriving DecidableEq, Repr

/-- A call of `create_snapshot` that has not got the lock yet. -/
structure Pinning (κ : Type*) where
  versionTag : String
  useCas : Bool
  datasets : List String
  unpinned : List String
  /-- `sync_manifests` -/
  pinned : Table String (String × FileManifest κ) Prod.fst

inductive CreateStage (κ : Type*) where
  | nextDataset
  | reading
  /-- The checksum of the first path is that of this content. -/
  | copying (content : κ)
  | checking (versions : List (String × ℕ))
  | persisting
  | committing

/-- What the process that creates a snapshot has in memory, and its staging directory. -/
structure Creation (κ : Type*) where
  versionTag : String
  pinned : Table String (String × FileManifest κ) Prod.fst
  /-- `cas_index`, where content-addressed storage is used -/
  casIndex : Option (RefIndex String)
  /-- `existing_cas_hashes` -/
  existing : String → Bool
  /-- `cas_hashes_added` -/
  added : List String
  /-- `cas_new_files` -/
  newFiles : List String
  persisted : Bool
  files : String → Option κ
  /-- The names of the datasets left, after the current one. -/
  datasets : List String
  dataset : String
  version : ℕ
  paths : List FilePath
  /-- `ds_files` -/
  stored : List (StoredFile κ)
  processed : List (DatasetSnapshot κ)
  stage : CreateStage κ
  error : Option CreateError

structure SnapshotStore (P κ : Type*) where
  sources : FilePath → Option κ
  manifests : String → Option (FileManifest κ)
  backups : String → ℕ → Option (FileManifest κ)
  /-- The manifests that were there from the start, and those that were saved. -/
  saved : String → List (FileManifest κ)
  casFiles : String → Option κ
  casIndex : RefIndex String
  snapshots : Table String (Snapshot κ) Snapshot.versionTag
  pinning : P → Option (Pinning κ)
  /-- The creation that holds the snapshot lock. -/
  creation : Option (Creation κ)
  /-- What the calls of `create_snapshot` have raised. -/
  raised : List CreateError

/-! ## Writers -/

/-- `save_manifest`, of the files as they are. -/
def SnapshotStore.saveManifest (sha : Sha256 κ) (s : SnapshotStore P κ) (dataset : String)
    (paths : List FilePath) : SnapshotStore P κ :=
  match paths.mapM fun path => (s.sources path).map fun content => (path, content) with
  | none => s
  | some signed =>
      if hsigned : signed = [] then s
      else
        let manifest : SyncManifest := ⟨dataset, combinedChecksum sha signed, 1, none, none⟩
        match s.manifests dataset with
        | none =>
            let saved : FileManifest κ := ⟨manifest.withId, signed, hsigned⟩
            { s with
              manifests := Function.update s.manifests dataset (some saved)
              saved := Function.update s.saved dataset (s.saved dataset ++ [saved]) }
        | some current =>
            let saved : FileManifest κ :=
              ⟨(manifest.after current.toSyncManifest).withId, signed, hsigned⟩
            { s with
              manifests := Function.update s.manifests dataset (some saved)
              backups := Function.update s.backups dataset
                (Function.update (s.backups dataset) current.manifestVersion (some current))
              saved := Function.update s.saved dataset (s.saved dataset ++ [saved]) }

/-- `rollback_on_failure` -/
def SnapshotStore.rollback (s : SnapshotStore P κ) (dataset : String) : SnapshotStore P κ :=
  match s.manifests dataset with
  | none => s
  | some current =>
      match current.previousChecksum, s.backups dataset (current.manifestVersion - 1) with
      | some previous, some backup =>
          if previous ≠ "" ∧ backup.checksum = previous then
            { s with manifests := Function.update s.manifests dataset (some backup) }
          else s
      | _, _ => s

/-! ## Creation -/

/-- What `_safe_copy_to_cas` and the `stat` after it do. -/
inductive CasAnswer where
  | stored
  /-- `OSError` before the file has its name. -/
  | failed
  /-- `OSError` after that. -/
  | left
  deriving DecidableEq, Repr

def Creation.raise (c : Creation κ) (error : CreateError) : Creation κ :=
  { c with error := some error }

/-- The entry of a file that has been stored. -/
def Creation.record (c : Creation κ) (file : StoredFile κ) : Creation κ :=
  { c with stored := c.stored ++ [file], paths := c.paths.tail, stage := .reading }

def destName (checksum : String) (path : FilePath) : String :=
  (checksum.take 8).toString ++ "_" ++ path.name

def mismatchMessage (kind checksum actual : String) : String :=
  kind ++ " checksum mismatch: expected " ++ checksum ++ ", got " ++ actual

/-- `_copy_with_fsync`, into the staging directory. -/
def Creation.copyFile (sha : Sha256 κ) (c : Creation κ) (path : FilePath) (content copied : κ) :
    Creation κ :=
  let checksum := sha.ofFile content
  let name := destName checksum path
  if sha.ofFile copied = checksum then
    { c with files := Function.update c.files name (some copied) }.record
      ⟨name, path, .copy, checksum, content⟩
  else c.raise (.value (mismatchMessage "Copy" checksum (sha.ofFile copied)))

/-- What `_store_in_cas_batched` keeps of a file in memory. -/
def Creation.acquire (sha : Sha256 κ) (c : Creation κ) (index : RefIndex String) (path : FilePath)
    (content : κ) : Creation κ :=
  let checksum := sha.ofFile content
  { c with
    casIndex := some (index.acquire checksum)
    added := c.added ++ [checksum]
    newFiles := if c.existing checksum then c.newFiles else c.newFiles ++ [checksum] }.record
      ⟨destName checksum path, path, .cas checksum, checksum, content⟩

/-- `_store_file_batched`, of a path whose content is by now `copied`. -/
def Creation.storeFile (sha : Sha256 κ) (c : Creation κ) (casFiles : String → Option κ)
    (answer : CasAnswer) (path : FilePath) (content copied : κ) :
    (String → Option κ) × Creation κ :=
  let checksum := sha.ofFile content
  match c.casIndex with
  | none => (casFiles, c.copyFile sha path content copied)
  | some index =>
      if (index checksum).isSome then (casFiles, c.acquire sha index path content)
      else
        match answer with
        | .failed => (casFiles, c.copyFile sha path content copied)
        | .stored =>
            if sha.ofFile copied = checksum then
              (Function.update casFiles checksum (some copied), c.acquire sha index path content)
            else
              (casFiles, c.raise (.value (mismatchMessage "CAS" checksum (sha.ofFile copied))))
        | .left =>
            if sha.ofFile copied = checksum then
              (Function.update casFiles checksum (some copied), c.copyFile sha path content copied)
            else
              (casFiles, c.raise (.value (mismatchMessage "CAS" checksum (sha.ofFile copied))))

/-- The next dataset, with the manifest that was loaded for its name. -/
def Creation.startDataset (c : Creation κ) : Creation κ :=
  match c.datasets with
  | [] => { c with
      stage := .checking (c.pinned.rows.map fun pin => (pin.1, pin.2.manifestVersion)) }
  | dataset :: datasets =>
      match c.pinned.find? dataset with
      | none => c
      | some (_, manifest) => { c with
          datasets
          dataset
          version := manifest.manifestVersion
          paths := manifest.filePaths
          stored := []
          stage := .reading }

/-- `_compute_aggregate_checksum` -/
def aggregateChecksum (sha : Sha256 κ) (files : List (StoredFile κ)) : String :=
  sha.ofText (String.intercalate "\n"
    ((files.mergeSort fun f g => f.path ≤ g.path).map fun f => f.path ++ ":" ++ f.checksum))

def Creation.snapshot (sha : Sha256 κ) (c : Creation κ) (now : ℤ) : Snapshot κ where
  versionTag := c.versionTag
  createdAt := now
  datasets := Table.ofList c.processed
  aggregateChecksum := aggregateChecksum sha (c.processed.flatMap DatasetSnapshot.files)
  referencedBy := []
  files := c.files
  processed := c.processed

/-- The next operation of the creation that holds the lock, in the order of the source. -/
def SnapshotStore.proceed (sha : Sha256 κ) (s : SnapshotStore P κ) (c : Creation κ)
    (answer : CasAnswer) (now : ℤ) : SnapshotStore P κ :=
  match c.stage with
  | .nextDataset => { s with creation := some c.startDataset }
  | .reading =>
      match c.paths with
      | [] => { s with creation := some { c with
          processed := c.processed ++ [⟨c.dataset, c.version, c.stored⟩]
          stored := []
          stage := .nextDataset } }
      | path :: _ =>
          match s.sources path with
          | some content => { s with creation := some { c with stage := .copying content } }
          | none => { s with creation := some (c.raise (.dataNotFound
              ("File not found: " ++ path.parent ++ "/" ++ path.name))) }
  | .copying content =>
      match c.paths with
      | [] => s
      | path :: _ =>
          match s.sources path with
          | none => { s with creation := some (c.raise .os) }
          | some copied =>
              let next := c.storeFile sha s.casFiles answer path content copied
              { s with casFiles := next.1, creation := some next.2 }
  | .checking [] => { s with creation := some { c with stage := .persisting } }
  | .checking ((dataset, version) :: versions) =>
      let actual := (s.manifests dataset).map fun m => m.manifestVersion
      if actual = some version then
        { s with creation := some { c with stage := .checking versions } }
      else { s with creation := some (c.raise
          (.inconsistent dataset version (actual.elim (-1) Nat.cast))) }
  | .persisting =>
      match c.casIndex with
      | some index => { s with
          casIndex := index
          creation := some { c with persisted := true, stage := .committing } }
      | none => { s with creation := some { c with stage := .committing } }
  | .committing =>
      match s.snapshots.insert (c.snapshot sha now) with
      | some snapshots => { s with snapshots, creation := none }
      | none => { s with creation := some (c.raise .os) }

/-- `_cleanup_partial_snapshot_with_cas`. Nothing is released where that fails, and the files
that cannot be deleted stay. -/
def SnapshotStore.cleanup (s : SnapshotStore P κ) (c : Creation κ) (released : Bool)
    (stuck : String → Bool) : SnapshotStore P κ :=
  if c.persisted then
    { s with casIndex := if released then s.casIndex.releaseAll c.added else s.casIndex }
  else
    { s with casFiles := fun hash =>
        if hash ∈ c.newFiles ∧ stuck hash = false then none else s.casFiles hash }

/-! ## Deletion and collection -/

def StoredFile.casTarget (file : StoredFile κ) : Option String :=
  match file.storageMode with
  | .cas target => some target
  | .copy => none

def DatasetSnapshot.casTargets (snapshot : DatasetSnapshot κ) : List String :=
  snapshot.files.filterMap StoredFile.casTarget

/-- `cas_hashes_to_release` -/
def Snapshot.casTargets (snapshot : Snapshot κ) : List String :=
  snapshot.datasets.rows.flatMap DatasetSnapshot.casTargets

/-- `delete_snapshot` -/
def SnapshotStore.deleteSnapshot (s : SnapshotStore P κ) (versionTag : String)
    (force released : Bool) : SnapshotStore P κ :=
  match s.snapshots.find? versionTag with
  | none => s
  | some snapshot =>
      if snapshot.referencedBy ≠ [] ∧ force = false then s
      else { s with
        snapshots := s.snapshots.delete versionTag
        casIndex :=
          if released then s.casIndex.releaseAll snapshot.casTargets else s.casIndex }

/-- `gc_cas`. The first of its scans looks for names with a suffix and finds none, the second
deletes what has no entry in the index by then. -/
def SnapshotStore.gcCas (s : SnapshotStore P κ) (stuck : String → Bool) : SnapshotStore P κ :=
  let index := s.casIndex.sweep
  { s with
    casIndex := index
    casFiles := fun hash =>
      if index hash = none ∧ stuck hash = false then none else s.casFiles hash }

/-- `link_backtest` -/
def SnapshotStore.linkBacktest (s : SnapshotStore P κ) (backtestId versionTag : String) :
    SnapshotStore P κ :=
  { s with
    snapshots := s.snapshots.update versionTag
      (fun snapshot => { snapshot with referencedBy := snapshot.referencedBy ++ [backtestId] })
      fun _ => rfl }

/-! ## The system -/

inductive SnapshotEvent (P κ : Type*) where
  | write (path : FilePath) (content : Option κ)
  | save (dataset : String) (paths : List FilePath)
  | rollback (dataset : String)
  /-- A call of `create_snapshot`; one with a tag that is in use or without a dataset is
  refused. -/
  | request (p : P) (versionTag : String) (datasets : List String) (useCas : Bool)
  | pin (p : P)
  | lock (p : P)
  | proceed (answer : CasAnswer) (now : ℤ)
  /-- An operation of the creation fails. -/
  | fail (error : CreateError)
  | cleanup (released : Bool) (stuck : String → Bool)
  | crash
  | delete (versionTag : String) (force released : Bool)
  | gc (stuck : String → Bool)
  | link (backtestId versionTag : String)

/-- The manifest of the next dataset is loaded. -/
def SnapshotStore.pinNext [DecidableEq P] (s : SnapshotStore P κ) (p : P) : SnapshotStore P κ :=
  match s.pinning p with
  | none => s
  | some pinning =>
      match pinning.unpinned with
      | [] => s
      | dataset :: unpinned =>
          match s.manifests dataset with
          | some manifest => { s with pinning := Function.update s.pinning p (some { pinning with
              unpinned
              pinned := pinning.pinned.upsert (dataset, manifest) }) }
          | none => { s with
              pinning := Function.update s.pinning p none
              raised := s.raised ++ [.dataNotFound ("No manifest found for dataset: " ++ dataset)] }

/-- The creation starts once the lock is free and every manifest is loaded. -/
def SnapshotStore.takeLock [DecidableEq P] (s : SnapshotStore P κ) (p : P) : SnapshotStore P κ :=
  match s.creation, s.pinning p with
  | none, some pinning =>
      if pinning.unpinned = [] then
        { s with
          pinning := Function.update s.pinning p none
          creation := some {
            versionTag := pinning.versionTag
            pinned := pinning.pinned
            casIndex := if pinning.useCas then some s.casIndex else none
            existing := fun hash => (s.casIndex hash).isSome
            added := []
            newFiles := []
            persisted := false
            files := fun _ => none
            datasets := pinning.datasets
            dataset := ""
            version := 0
            paths := []
            stored := []
            processed := []
            stage := .nextDataset
            error := none } }
      else s
  | _, _ => s

def snapshotStep [DecidableEq P] (sha : Sha256 κ) (s : SnapshotStore P κ) :
    SnapshotEvent P κ → SnapshotStore P κ
  | .write path content => { s with sources := Function.update s.sources path content }
  | .save dataset paths => s.saveManifest sha dataset paths
  | .rollback dataset => s.rollback dataset
  | .request p versionTag datasets useCas =>
      if (s.snapshots.find? versionTag).isSome ∨ datasets = [] then s
      else
        { s with
          pinning := Function.update s.pinning p
            (some ⟨versionTag, useCas, datasets, datasets, .empty⟩) }
  | .pin p => s.pinNext p
  | .lock p => s.takeLock p
  | .proceed answer now =>
      match s.creation with
      | some c => if c.error = none then s.proceed sha c answer now else s
      | none => s
  | .fail error =>
      match s.creation with
      | some c =>
          if c.error = none then { s with creation := some (c.raise error) } else s
      | none => s
  | .cleanup released stuck =>
      match s.creation with
      | some c =>
          match c.error with
          | some error => { s.cleanup c released stuck with
              creation := none
              raised := s.raised ++ [error] }
          | none => s
      | none => s
  | .crash => { s with creation := none }
  | .delete versionTag force released =>
      match s.creation with
      | some _ => s
      | none => s.deleteSnapshot versionTag force released
  | .gc stuck =>
      match s.creation with
      | some _ => s
      | none => s.gcCas stuck
  | .link backtestId versionTag =>
      match s.creation with
      | some _ => s
      | none => s.linkBacktest backtestId versionTag

/-- No snapshot yet, and nothing in the content-addressed store. -/
def SnapshotStore.start (sources : FilePath → Option κ)
    (manifests : String → Option (FileManifest κ)) : SnapshotStore P κ where
  sources
  manifests
  backups := fun _ _ => none
  saved := fun dataset => (manifests dataset).toList
  casFiles := fun _ => none
  casIndex := fun _ => none
  snapshots := .empty
  pinning := fun _ => none
  creation := none
  raised := []

end TradingPlatform.Data
