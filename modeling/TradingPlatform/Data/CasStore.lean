import TradingPlatform.Base.RefCount
import TradingPlatform.Base.Table

/-! # The content-addressed store and its index

The files below `cas_dir`, by name, and the index in `_refcount.json`, with the
sizes that the index adds up. `create_snapshot` and `delete_snapshot` are taken
as far as they touch either of the two; all of it happens under the snapshot lock.
-/

namespace TradingPlatform.Data

open Base

/-- What `hexdigest` gives for SHA-256. -/
def IsDigest (hash : String) : Prop :=
  hash.toList.length = 64 ∧ ∀ c ∈ hash.toList, c ∈ "0123456789abcdef".toList

instance (hash : String) : Decidable (IsDigest hash) := inferInstanceAs (Decidable (_ ∧ _))

/-- A file of `cas_dir`. -/
structure CasFile where
  name : String
  size : ℕ
  deriving DecidableEq, Repr

structure CasEntry where
  hash : String
  sizeBytes : ℤ
  refCount : ℤ
  referencingSnapshots : List String
  deriving DecidableEq, Repr

structure CasIndex where
  files : Table String CasEntry CasEntry.hash
  totalSizeBytes : ℤ

/-- All but the index itself is in `files`. -/
structure CasStore where
  files : Table String CasFile CasFile.name
  index : CasIndex

def sizes (files : List CasFile) : ℤ := (files.map fun file => (file.size : ℤ)).sum

def entrySizes (entries : List CasEntry) : ℤ := (entries.map CasEntry.sizeBytes).sum

/-! ## References -/

/-- A reference to what has no entry is not released. -/
def CasIndex.release (versionTag : String) (index : CasIndex) (hash : String) : CasIndex :=
  { index with
    files := index.files.update hash
      (fun entry => { entry with
        refCount := entry.refCount - 1
        referencingSnapshots := entry.referencingSnapshots.erase versionTag })
      fun _ => rfl }

def CasIndex.releaseAll (index : CasIndex) (versionTag : String) (hashes : List String) :
    CasIndex :=
  hashes.foldl (CasIndex.release versionTag) index

/-- The branch of `_store_in_cas_batched` for what is in the index. -/
def CasIndex.reference (index : CasIndex) (versionTag hash : String) : CasIndex :=
  { index with
    files := index.files.update hash
      (fun entry => { entry with
        refCount := entry.refCount + 1
        referencingSnapshots := entry.referencingSnapshots ++ [versionTag] })
      fun _ => rfl }

/-- The branch for what is not, once it has been copied. -/
def CasIndex.enter (index : CasIndex) (versionTag hash : String) (sizeBytes : ℤ) : CasIndex where
  files := index.files.upsert ⟨hash, sizeBytes, 1, [versionTag]⟩
  totalSizeBytes := index.totalSizeBytes + sizeBytes

/-! ## Snapshots -/

/-- What the copy into `cas_dir` and the `stat` of the source after it do. -/
inductive CasCopy where
  | stored
  /-- `OSError` before the file has its name. -/
  | failed
  /-- `OSError` after that. -/
  | left
  /-- `ValueError`: the copy has another checksum. -/
  | refused
  deriving DecidableEq, Repr

/-- A file of a snapshot. Its source may have changed when its size is read after the copy. -/
structure CasWrite where
  checksum : String
  copied : ℕ
  sizeBytes : ℕ
  answer : CasCopy

/-- `cas_index`, `cas_hashes_added` and `cas_new_files`, with the directory. -/
structure CasBatch where
  files : Table String CasFile CasFile.name
  index : CasIndex
  added : List String
  newFiles : List String

/-- The lists of what there is to clean up. -/
def CasBatch.track (batch : CasBatch) (existing : String → Bool) (hash : String) : CasBatch :=
  { batch with
    added := batch.added ++ [hash]
    newFiles := if existing hash then batch.newFiles else batch.newFiles ++ [hash] }

/-- `_store_file_batched`; after an `OSError` the file is copied to the snapshot instead. The flag
says that it raises. -/
def CasBatch.store (versionTag : String) (existing : String → Bool) (batch : CasBatch)
    (write : CasWrite) : CasBatch × Bool :=
  let hash := write.checksum
  if (batch.index.files.find? hash).isSome then
    ({ batch with index := batch.index.reference versionTag hash }.track existing hash, false)
  else
    match write.answer with
    | .stored =>
        ({ batch with
          files := batch.files.upsert ⟨hash, write.copied⟩
          index := batch.index.enter versionTag hash write.sizeBytes }.track existing hash, false)
    | .failed => (batch, false)
    | .left => ({ batch with files := batch.files.upsert ⟨hash, write.copied⟩ }, false)
    | .refused => (batch, true)

def CasBatch.storeAll (versionTag : String) (existing : String → Bool) :
    CasBatch → List CasWrite → CasBatch × Bool
  | batch, [] => (batch, false)
  | batch, write :: writes =>
      match batch.store versionTag existing write with
      | (next, true) => (next, true)
      | (next, false) => CasBatch.storeAll versionTag existing next writes

/-- How a creation goes on after the last file that it stores. -/
inductive CreateEnding where
  | committed
  /-- It fails before the index is saved. -/
  | unsaved
  /-- It fails after that; the references may not get released. -/
  | saved (released : Bool)

/-- The clean-up of a creation that has not saved the index; files that are `stuck` cannot be
deleted. -/
def CasStore.unstore (s : CasStore) (newFiles : List String) (stuck : String → Bool) : CasStore :=
  { s with
    files := ⟨s.files.rows.filter fun file => ¬ (file.name ∈ newFiles ∧ stuck file.name = false),
      s.files.keys_nodup.sublist (List.filter_sublist.map _)⟩ }

/-- `create_snapshot` of a tag that is not in use. -/
def CasStore.createSnapshot (s : CasStore) (versionTag : String) (useCas : Bool)
    (writes : List CasWrite) (ending : CreateEnding) (stuck : String → Bool) : CasStore :=
  if useCas then
    let existing := fun hash => (s.index.files.find? hash).isSome
    let (batch, raised) := CasBatch.storeAll versionTag existing ⟨s.files, s.index, [], []⟩ writes
    let stored : CasStore := { s with files := batch.files }
    if raised then stored.unstore batch.newFiles stuck
    else
      match ending with
      | .committed => { stored with index := batch.index }
      | .unsaved => stored.unstore batch.newFiles stuck
      | .saved released => { stored with
          index := if released then batch.index.releaseAll versionTag batch.added
            else batch.index }
  else s

/-- `delete_snapshot` of a snapshot with these targets, past its checks. -/
def CasStore.deleteSnapshot (s : CasStore) (versionTag : String) (targets : List String)
    (released : Bool) : CasStore :=
  { s with index := if released then s.index.releaseAll versionTag targets else s.index }

/-! ## Collection -/

/-- `Path.stem` -/
def pathStem (name : String) : String :=
  let chars := name.toList
  let suffix := (chars.reverse.takeWhile (· ≠ '.')).length
  if '.' ∈ chars ∧ suffix ≠ 0 ∧ suffix + 1 < chars.length then
    String.ofList (chars.take (chars.length - (suffix + 1)))
  else name

/-- The names that `glob(hash + ".*")` finds. -/
def globbed (hash name : String) : Bool := (hash.toList ++ ['.']).isPrefixOf name.toList

/-- The files that are gone after the loop over the entries. -/
def unlinkGlobbed (entries : List CasEntry) (files : List CasFile) : List CasFile :=
  entries.foldl
    (fun files entry =>
      if entry.refCount ≤ 0 then files.filter fun file => ¬ globbed entry.hash file.name
      else files)
    files

def CasIndex.dead (index : CasIndex) : List CasEntry :=
  index.files.rows.filter fun entry => entry.refCount ≤ 0

def CasIndex.collected (index : CasIndex) : CasIndex where
  files := ⟨index.files.rows.filter fun entry => ¬ entry.refCount ≤ 0,
    index.files.keys_nodup.sublist (List.filter_sublist.map _)⟩
  totalSizeBytes := index.totalSizeBytes - entrySizes index.dead

def isHidden (name : String) : Bool := name.toList.head? = some '_'

/-- What the scan of the directory deletes. -/
def isOrphan (index : CasIndex) (file : CasFile) : Bool :=
  ¬ isHidden file.name ∧ index.files.find? (pathStem file.name) = none

theorem unlinkGlobbed_sublist (entries : List CasEntry) (files : List CasFile) :
    (unlinkGlobbed entries files).Sublist files := by
  induction entries generalizing files with
  | nil =>
      simp [unlinkGlobbed]
  | cons entry entries ih =>
      rw [unlinkGlobbed, List.foldl_cons]
      split
      · exact (ih _).trans List.filter_sublist
      · exact ih files

/-- `gc_cas`, whose file operations succeed, with what it returns. -/
def CasStore.gcCas (s : CasStore) : CasStore × ℤ :=
  let index := s.index.collected
  let left := unlinkGlobbed s.index.files.rows s.files.rows
  ({ files := ⟨left.filter fun file => ¬ isOrphan index file, s.files.keys_nodup.sublist
        ((List.filter_sublist.trans (unlinkGlobbed_sublist _ _)).map _)⟩
     index },
   entrySizes s.index.dead + sizes (left.filter fun file => isOrphan index file))

end TradingPlatform.Data
