import TradingPlatform.Base.Attempt
import TradingPlatform.Data.HistoricalEtl

/-! # Merging into a partition

The partition is read, merged with a new frame, written beside itself, backed up
and replaced by a rename, and the checksum is verified after it. Every operation
may fail, and two handlers move files into quarantine. The frames and what polars
does with them are a parameter.
-/

namespace TradingPlatform.Data.PartitionMerge

open Base

inductive Errno where
  | enospc | eacces | eperm | other
  deriving DecidableEq

inductive MergeError where
  /-- An `OSError` that no handler has seen yet. -/
  | osError (errno : Errno)
  | polarsError
  | corruptPartition
  | validationFailed (errors : List String)
  | insufficientSpace
  | diskFull
  | permissionDenied
  | ioError
  | checksumMismatch
  deriving DecidableEq

/-- The names in the directory of a partition: `.parquet`, `.parquet.tmp`, `.parquet.bak`. -/
inductive PartitionFile where
  | target | temp | backup
  deriving DecidableEq

/-- A file from before the call, written by it, or copied from one. -/
inductive FileOrigin where
  | before | written | copied
  deriving DecidableEq

structure StoredFile (κ : Type) where
  origin : FileOrigin
  content : κ

structure PartitionFiles (κ : Type) where
  entries : PartitionFile → Option (StoredFile κ)
  /-- What the call has moved into quarantine, with the name it had. -/
  quarantined : List (PartitionFile × StoredFile κ)

/-- What the call uses of polars and of the validator; an operation that raises gives none. -/
structure MergeLibrary (φ κ χ : Type) where
  readParquet : κ → Option φ
  parquet : φ → κ
  checksum : κ → χ
  /-- Both frames with `_source` and `_seq`, and `pl.concat` of them. -/
  concatTagged : φ → φ → Option φ
  /-- Steps 2 and 3 on a frame with the two columns. -/
  sortUniqueTagged : φ → Option φ
  /-- Steps 2 and 3 on a frame without them. -/
  sortUnique : φ → Option φ
  height : φ → ℕ
  /-- The height of `unique` on the primary keys. -/
  uniqueHeight : φ → Option ℕ
  columns : φ → List String
  nullCount : φ → String → ℕ
  estimatedSize : φ → ℕ

/-- A write may raise, leaving nothing new or an unfinished file. -/
inductive WriteStep (κ : Type) where
  | succeeds
  | fails (error : MergeError) (left : Option κ)

/-- `shutil.move`: a rename, or else a copy and an unlink. -/
inductive MoveStep (κ : Type) where
  | succeeds
  | refused (errno : Errno)
  | torn (errno : Errno) (content : κ)
  /-- The copy is complete, but the source could not be removed. -/
  | copied (errno : Errno)

inductive ChecksumStep (χ : Type) where
  | reads
  | misreads (value : χ)
  | fails (errno : Errno)

structure QuarantineStep (κ : Type) where
  mkdir : Option Errno
  move : MoveStep κ

/-- How each operation of a call turns out. -/
structure MergeFaults (κ χ : Type) where
  quarantinePartition : QuarantineStep κ
  quarantineRejected : Option MergeError
  statvfs : Option Errno
  available : ℕ
  writeParquet : WriteStep κ
  checksumTemp : ChecksumStep χ
  fsyncTemp : Option Errno
  copyBackup : WriteStep κ
  rename : Option Errno
  /-- What the target holds after the rename, where that is not what was written. -/
  landed : Option κ
  fsyncDirectory : Option Errno
  checksumTarget : ChecksumStep χ
  quarantineTarget : QuarantineStep κ
  restoreBackup : MoveStep κ
  unlinkBackup : Option Errno
  quarantineTemp : QuarantineStep κ
  unlinkBackupAfter : Option Errno

variable {φ κ χ : Type}

abbrev MergeStep (κ α : Type) := Attempt (PartitionFiles κ) MergeError α

namespace PartitionFiles

def set (fs : PartitionFiles κ) (file : PartitionFile) (stored : Option (StoredFile κ)) :
    PartitionFiles κ :=
  { fs with entries := Function.update fs.entries file stored }

/-- The move into quarantine. -/
def sendAway (fs : PartitionFiles κ) (source : PartitionFile) (stored : StoredFile κ) :
    PartitionFiles κ where
  entries := Function.update fs.entries source none
  quarantined := fs.quarantined ++ [(source, stored)]

end PartitionFiles

/-! ## The operations -/

def check (fault : Option Errno) : MergeStep κ PUnit :=
  match fault with
  | none => pure ⟨⟩
  | some errno => .fail (.osError errno)

def lift {α : Type} : Option α → MergeStep κ α
  | some a => pure a
  | none => .fail .polarsError

/-- A file that is missing is an `OSError`. -/
def openFile (file : PartitionFile) : MergeStep κ (StoredFile κ) := do
  let fs ← Attempt.get
  match fs.entries file with
  | some stored => pure stored
  | none => .fail (.osError .other)

def writeFile (fault : WriteStep κ) (file : PartitionFile) (stored : StoredFile κ) :
    MergeStep κ PUnit :=
  match fault with
  | .succeeds => .modify fun fs => fs.set file (some stored)
  | .fails error none => .fail error
  | .fails error (some left) => do
      Attempt.modify fun fs => fs.set file (some { stored with content := left })
      .fail error

def unlink (fault : Option Errno) (file : PartitionFile) : MergeStep κ PUnit := do
  check fault
  .modify fun fs => fs.set file none

def computeChecksum (lib : MergeLibrary φ κ χ) (fault : ChecksumStep χ) (file : PartitionFile) :
    MergeStep κ χ := do
  let stored ← openFile file
  match fault with
  | .reads => pure (lib.checksum stored.content)
  | .misreads value => pure value
  | .fails errno => .fail (.osError errno)

/-- `shutil.move` between two names of the directory. -/
def moveFile (fault : MoveStep κ) (source dest : PartitionFile) : MergeStep κ PUnit := do
  let stored ← openFile source
  match fault with
  | .succeeds => .modify fun fs => (fs.set source none).set dest (some stored)
  | .refused errno => .fail (.osError errno)
  | .torn errno content => do
      Attempt.modify fun fs => fs.set dest (some { stored with content := content })
      .fail (.osError errno)
  | .copied errno => do
      Attempt.modify fun fs => fs.set dest (some stored)
      .fail (.osError errno)

/-- `_quarantine_temp_file`; a move that fails is only logged. -/
def quarantineTempFile (fault : QuarantineStep κ) (source : PartitionFile) :
    MergeStep κ PUnit := do
  check fault.mkdir
  let fs ← Attempt.get
  match fault.move, fs.entries source with
  | .succeeds, some stored => .modify fun fs => fs.sendAway source stored
  | _, _ => pure ⟨⟩

/-! ## `_validate_partition` and the disk space -/

def primaryKeys : List String := ["date", "symbol"]

def requiredColumns : List String := ["date", "symbol", "close", "volume"]

/-- A list of column names as Python prints it. -/
def columnList (columns : List String) : String :=
  "[" ++ String.intercalate ", " (columns.map fun column => "'" ++ column ++ "'") ++ "]"

/-- `_validate_partition`, given the height of the frame without its duplicates. -/
def validationErrors (lib : MergeLibrary φ κ χ) (df : φ) (unique : ℕ) : List String :=
  let missing := requiredColumns.filter fun column => column ∉ lib.columns df
  (if unique < lib.height df then
    ["Duplicate primary keys: " ++ toString (lib.height df - unique) ++ " rows"] else []) ++
  (primaryKeys.filter fun column => column ∈ lib.columns df ∧ 0 < lib.nullCount df column).map
    (fun column => "Null values in " ++ column ++ ": " ++ toString (lib.nullCount df column) ++
      " rows") ++
  (if missing = [] then [] else ["Missing required columns: " ++ columnList missing])

def validatePartitionFrame (lib : MergeLibrary φ κ χ) (df : φ) : Option (List String) :=
  (lib.uniqueHeight df).map (validationErrors lib df)

/-- `_estimate_parquet_size` -/
def estimateParquetSize (memorySize : ℕ) : ℕ := memorySize / 2 * 3 / 2

/-- `_check_disk_space_on_path` -/
def checkDiskSpace (faults : MergeFaults κ χ) (requiredBytes : ℕ) : MergeStep κ PUnit := do
  check faults.statvfs
  if faults.available < requiredBytes then .fail .insufficientSpace else pure ⟨⟩

/-! ## `_atomic_write_with_quarantine` -/

def rejectErrors (errors : List String) : MergeStep κ PUnit :=
  if errors = [] then pure ⟨⟩ else .fail (.validationFailed errors)

/-- Step 6; whether the target was backed up. -/
def backUp (faults : MergeFaults κ χ) : MergeStep κ Bool := do
  let fs ← Attempt.get
  match fs.entries .target with
  | some stored => do
      writeFile faults.copyBackup .backup { stored with origin := .copied }
      pure true
  | none => pure false

/-- Steps 1 to 6, up to the checksum of the temp file and the backup. -/
def prepareTemp (lib : MergeLibrary φ κ χ) (faults : MergeFaults κ χ) (df : φ) :
    MergeStep κ (χ × Bool) := do
  let errors ← lift (validatePartitionFrame lib df)
  rejectErrors errors
  checkDiskSpace faults (estimateParquetSize (lib.estimatedSize df) * 2)
  writeFile faults.writeParquet .temp ⟨.written, lib.parquet df⟩
  let checksum ← computeChecksum lib faults.checksumTemp .temp
  check faults.fsyncTemp
  let backedUp ← backUp faults
  pure (checksum, backedUp)

/-- Step 7 -/
def renameTemp (faults : MergeFaults κ χ) : MergeStep κ PUnit := do
  let stored ← openFile .temp
  check faults.rename
  .modify fun fs => (fs.set .temp none).set .target
    (some { stored with content := faults.landed.getD stored.content })

/-- What a checksum mismatch leads to before its error. -/
def restoreBackup (faults : MergeFaults κ χ) (backedUp : Bool) : MergeStep κ PUnit := do
  let fs ← Attempt.get
  if backedUp ∧ (fs.entries .backup).isSome then do
    quarantineTempFile faults.quarantineTarget .target
    moveFile faults.restoreBackup .backup .target
  else quarantineTempFile faults.quarantineTarget .target

/-- Step 10 -/
def removeBackup (faults : MergeFaults κ χ) (backedUp : Bool) : MergeStep κ PUnit := do
  let fs ← Attempt.get
  if backedUp ∧ (fs.entries .backup).isSome then unlink faults.unlinkBackup .backup else pure ⟨⟩

/-- Steps 8 to 10 -/
def verifyTarget [DecidableEq χ] (lib : MergeLibrary φ κ χ) (faults : MergeFaults κ χ)
    (checksum : χ) (backedUp : Bool) : MergeStep κ χ := do
  check faults.fsyncDirectory
  let verifyChecksum ← computeChecksum lib faults.checksumTarget .target
  if verifyChecksum = checksum then do
    removeBackup faults backedUp
    pure checksum
  else do
    restoreBackup faults backedUp
    .fail .checksumMismatch

/-- The errors an `OSError` is turned into. -/
def categorize : Errno → MergeError
  | .enospc => .diskFull
  | .eacces => .permissionDenied
  | .eperm => .permissionDenied
  | .other => .ioError

def whereExists (file : PartitionFile) (step : MergeStep κ PUnit) : MergeStep κ PUnit := do
  let fs ← Attempt.get
  if (fs.entries file).isSome then step else pure ⟨⟩

/-- The handlers of `_atomic_write_with_quarantine`. -/
def handleWriteError (faults : MergeFaults κ χ) (error : MergeError) : MergeStep κ χ :=
  match error with
  | .osError errno => do
      whereExists .temp (quarantineTempFile faults.quarantineTemp .temp)
      whereExists .backup (unlink faults.unlinkBackupAfter .backup)
      .fail (categorize errno)
  | error => .fail error

/-- The `try` block of `_atomic_write_with_quarantine`. -/
def writeTarget [DecidableEq χ] (lib : MergeLibrary φ κ χ) (faults : MergeFaults κ χ) (df : φ) :
    MergeStep κ χ := do
  let prepared ← prepareTemp lib faults df
  renameTemp faults
  verifyTarget lib faults prepared.1 prepared.2

def atomicWriteWithQuarantine [DecidableEq χ] (lib : MergeLibrary φ κ χ)
    (faults : MergeFaults κ χ) (df : φ) : MergeStep κ χ :=
  Attempt.handle (writeTarget lib faults df) (handleWriteError faults)

/-! ## `_merge_partition_deterministic` -/

/-- Step 1, where the partition exists. -/
def combineExisting (lib : MergeLibrary φ κ χ) (faults : MergeFaults κ χ) (stored : StoredFile κ)
    (newDf : φ) : MergeStep κ φ :=
  match (lib.readParquet stored.content).bind fun existing => lib.concatTagged existing newDf with
  | some combined => pure combined
  | none => do
      quarantineTempFile faults.quarantinePartition .target
      .fail .corruptPartition

/-- Steps 1 to 3 -/
def mergeFrames (lib : MergeLibrary φ κ χ) (faults : MergeFaults κ χ) (newDf : φ) :
    MergeStep κ φ := do
  let fs ← Attempt.get
  match fs.entries .target with
  | some stored => do
      let combined ← combineExisting lib faults stored newDf
      lift (lib.sortUniqueTagged combined)
  | none => lift (lib.sortUnique newDf)

/-- `_handle_validation_failure` and the error after it. -/
def rejectInvalid (faults : MergeFaults κ χ) (errors : List String) : MergeStep κ PUnit :=
  if errors = [] then pure ⟨⟩ else .fail (faults.quarantineRejected.getD (.validationFailed errors))

def mergePartitionDeterministic [DecidableEq χ] (lib : MergeLibrary φ κ χ)
    (faults : MergeFaults κ χ) (newDf : φ) : MergeStep κ PUnit := do
  let merged ← mergeFrames lib faults newDf
  let errors ← lift (validatePartitionFrame lib merged)
  rejectInvalid faults errors
  let _ ← atomicWriteWithQuarantine lib faults merged
  pure ⟨⟩

/-! ## What does not touch the partition -/

namespace PartitionFiles

/-- The files that have left the partition's name for quarantine. -/
def sentAwayTargets (fs : PartitionFiles κ) : List (StoredFile κ) :=
  (fs.quarantined.filter fun moved => moved.1 = .target).map Prod.snd

/-- The partition and what became of the files of its name. -/
def view (fs : PartitionFiles κ) : Option (StoredFile κ) × List (StoredFile κ) :=
  (fs.entries .target, fs.sentAwayTargets)

end PartitionFiles

/-- The step leaves the partition alone, whether it fails or not. -/
def Spares {α : Type} (x : MergeStep κ α) : Prop := ∀ v, x.Keeps fun fs => fs.view = v

variable {lib : MergeLibrary φ κ χ} {faults : MergeFaults κ χ} {fs fs' : PartitionFiles κ}
variable {file : PartitionFile} {stored : StoredFile κ} {content : κ}

theorem view_set (hfile : file ≠ .target) (stored : Option (StoredFile κ)) :
    (fs.set file stored).view = fs.view := by
  simp [PartitionFiles.view, PartitionFiles.set, PartitionFiles.sentAwayTargets, hfile.symm]

theorem view_sendAway (hfile : file ≠ .target) : (fs.sendAway file stored).view = fs.view := by
  simp [PartitionFiles.view, PartitionFiles.sendAway, PartitionFiles.sentAwayTargets, hfile.symm,
    hfile]

@[simp] theorem sentAwayTargets_set (stored : Option (StoredFile κ)) :
    (fs.set file stored).sentAwayTargets = fs.sentAwayTargets := rfl

@[simp] theorem sentAwayTargets_sendAway :
    (fs.sendAway .target stored).sentAwayTargets = fs.sentAwayTargets ++ [stored] := by
  simp [PartitionFiles.sentAwayTargets, PartitionFiles.sendAway]

theorem check_spares (fault : Option Errno) : Spares (κ := κ) (check fault) := by
  intro v
  cases fault with
  | none => exact Attempt.Keeps.pure
  | some errno => exact Attempt.Keeps.fail

theorem lift_spares {α : Type} (result : Option α) : Spares (κ := κ) (lift result) := by
  intro v
  cases result with
  | none => exact Attempt.Keeps.fail
  | some a => exact Attempt.Keeps.pure

theorem openFile_spares (file : PartitionFile) : Spares (κ := κ) (openFile file) := by
  intro v
  refine Attempt.Keeps.get.bind fun fs => ?_
  cases fs.entries file with
  | none => exact Attempt.Keeps.fail
  | some stored => exact Attempt.Keeps.pure

theorem writeFile_spares (fault : WriteStep κ) (hfile : file ≠ .target) :
    Spares (writeFile fault file stored) := by
  intro v
  have hset : ∀ stored, (Attempt.modify fun fs : PartitionFiles κ => fs.set file stored :
      MergeStep κ PUnit).Keeps fun fs => fs.view = v :=
    fun stored => Attempt.Keeps.modify fun fs hfs => (view_set hfile stored).trans hfs
  cases fault with
  | succeeds => exact hset _
  | fails error left =>
      cases left with
      | none => exact Attempt.Keeps.fail
      | some left => exact (hset _).bind fun _ => Attempt.Keeps.fail

theorem unlink_spares (fault : Option Errno) (hfile : file ≠ .target) :
    Spares (κ := κ) (unlink fault file) := by
  intro v
  refine (check_spares fault v).bind fun _ => Attempt.Keeps.modify fun fs hfs => ?_
  exact (view_set hfile none).trans hfs

theorem computeChecksum_spares (fault : ChecksumStep χ) (file : PartitionFile) :
    Spares (computeChecksum lib fault file) := by
  intro v
  refine (openFile_spares file v).bind fun stored => ?_
  cases fault with
  | reads => exact Attempt.Keeps.pure
  | misreads value => exact Attempt.Keeps.pure
  | fails errno => exact Attempt.Keeps.fail

theorem quarantineTempFile_spares (fault : QuarantineStep κ) (hfile : file ≠ .target) :
    Spares (quarantineTempFile fault file) := by
  intro v
  refine (check_spares fault.mkdir v).bind fun _ => Attempt.Keeps.get.bind fun fs => ?_
  cases fault.move with
  | succeeds =>
      cases fs.entries file with
      | none => exact Attempt.Keeps.pure
      | some stored =>
          exact Attempt.Keeps.modify fun fs hfs => (view_sendAway hfile).trans hfs
  | refused errno => exact Attempt.Keeps.pure
  | torn errno content => exact Attempt.Keeps.pure
  | copied errno => exact Attempt.Keeps.pure

theorem prepareTemp_spares (df : φ) : Spares (prepareTemp lib faults df) := by
  intro v
  refine (lift_spares _ v).bind fun errors => Attempt.Keeps.bind ?_ fun _ =>
    Attempt.Keeps.bind ?_ fun _ => (writeFile_spares _ (by decide) v).bind fun _ =>
    (computeChecksum_spares _ _ v).bind fun checksum => (check_spares _ v).bind fun _ =>
    Attempt.Keeps.bind ?_ fun backedUp => Attempt.Keeps.pure
  · exact Attempt.Keeps.ite Attempt.Keeps.pure Attempt.Keeps.fail
  · exact (check_spares _ v).bind fun _ => Attempt.Keeps.ite Attempt.Keeps.fail Attempt.Keeps.pure
  · refine Attempt.Keeps.get.bind fun fs => ?_
    cases fs.entries .target with
    | none => exact Attempt.Keeps.pure
    | some stored =>
        exact (writeFile_spares _ (by decide) v).bind fun _ => Attempt.Keeps.pure

theorem whereExists_spares {step : MergeStep κ PUnit} (h : Spares step) :
    Spares (whereExists file step) := by
  intro v
  exact Attempt.Keeps.get.bind fun fs => Attempt.Keeps.ite (h v) Attempt.Keeps.pure

theorem handleWriteError_spares (error : MergeError) :
    Spares (handleWriteError (χ := χ) faults error) := by
  intro v
  cases error with
  | osError errno =>
      exact (whereExists_spares (quarantineTempFile_spares _ (by decide)) v).bind fun _ =>
        (whereExists_spares (unlink_spares _ (by decide)) v).bind fun _ => Attempt.Keeps.fail
  | _ => exact Attempt.Keeps.fail

theorem handleWriteError_fails (error : MergeError) (fs : PartitionFiles κ) :
    (handleWriteError (χ := χ) faults error).Fails fs := by
  cases error with
  | osError errno =>
      exact Attempt.Fails.of_last fun _ _ => Attempt.Fails.of_last fun _ _ => ⟨_, rfl⟩
  | _ => exact ⟨_, rfl⟩

/-! ## The temp file and the rename -/

/-- The checksum that is read, of a file with the checksum given. -/
def ChecksumStep.value (fault : ChecksumStep χ) (honest : χ) : Option χ :=
  match fault with
  | .reads => some honest
  | .misreads value => some value
  | .fails _ => none

/-- The temp file and the backup are written, and the rename succeeds. -/
structure Replaces (lib : MergeLibrary φ κ χ) (faults : MergeFaults κ χ) (merged : φ)
    (checksum : χ) : Prop where
  valid : validatePartitionFrame lib merged = some []
  statvfs : faults.statvfs = none
  space : estimateParquetSize (lib.estimatedSize merged) * 2 ≤ faults.available
  writeParquet : faults.writeParquet = .succeeds
  checksum : faults.checksumTemp.value (lib.checksum (lib.parquet merged)) = some checksum
  fsync : faults.fsyncTemp = none
  copyBackup : faults.copyBackup = .succeeds
  rename : faults.rename = none

/-- What the target holds after the rename. -/
def landedContent (lib : MergeLibrary φ κ χ) (faults : MergeFaults κ χ) (merged : φ) : κ :=
  faults.landed.getD (lib.parquet merged)

/-- The partition is replaced, and the old one is in the backup. -/
structure Replaced (lib : MergeLibrary φ κ χ) (faults : MergeFaults κ χ) (merged : φ)
    (content : κ) (fs : PartitionFiles κ) : Prop where
  target : fs.entries .target = some ⟨.written, landedContent lib faults merged⟩
  backup : fs.entries .backup = some ⟨.copied, content⟩
  sentAway : fs.sentAwayTargets = []

theorem computeChecksum_apply (fault : ChecksumStep χ) (h : fs.entries file = some stored) :
    computeChecksum lib fault file fs =
      match fault.value (lib.checksum stored.content), fault with
      | some value, _ => (.ok value, fs)
      | none, .fails errno => (.error (.osError errno), fs)
      | none, _ => (.error (.osError .other), fs) := by
  have hopen : openFile file fs = (.ok stored, fs) := by
    simp [openFile, Attempt.bind_apply, h]
  rw [computeChecksum, Attempt.bind_of_ok hopen]
  cases fault <;> rfl

theorem prepareTemp_of_replaces {merged : φ} {checksum : χ}
    (h : Replaces lib faults merged checksum) (htarget : fs.entries .target = some stored) :
    prepareTemp lib faults merged fs = (.ok (checksum, true),
      (fs.set .temp (some ⟨.written, lib.parquet merged⟩)).set .backup
        (some ⟨.copied, stored.content⟩)) := by
  have hspace : ¬faults.available < estimateParquetSize (lib.estimatedSize merged) * 2 := by
    have hroom := h.space
    omega
  have htemp : (fs.set .temp (some ⟨.written, lib.parquet merged⟩)).entries .temp =
      some ⟨.written, lib.parquet merged⟩ := by simp [PartitionFiles.set]
  have hkept : (fs.set .temp (some ⟨.written, lib.parquet merged⟩)).entries .target =
      some stored := by simpa [PartitionFiles.set] using htarget
  simp [prepareTemp, Attempt.bind_apply, lift, h.valid, rejectErrors, checkDiskSpace, check,
    h.statvfs, hspace, writeFile, h.writeParquet, computeChecksum_apply _ htemp, h.checksum,
    h.fsync, backUp, hkept, h.copyBackup]

theorem check_eq_ok {fault : Option Errno} {u : PUnit} (h : check fault fs = (.ok u, fs')) :
    fault = none ∧ fs' = fs := by
  cases fault with
  | none =>
      cases h
      exact ⟨rfl, rfl⟩
  | some errno => cases h

theorem lift_eq_ok {α : Type} {result : Option α} {a : α} (h : lift result fs = (.ok a, fs')) :
    result = some a ∧ fs' = fs := by
  cases result with
  | none => cases h
  | some b =>
      cases h
      exact ⟨rfl, rfl⟩

theorem writeFile_eq_ok {fault : WriteStep κ} {u : PUnit}
    (h : writeFile fault file stored fs = (.ok u, fs')) :
    fault = .succeeds ∧ fs' = fs.set file (some stored) := by
  cases fault with
  | succeeds =>
      cases h
      exact ⟨rfl, rfl⟩
  | fails error left => cases left <;> cases h

theorem computeChecksum_eq_ok {fault : ChecksumStep χ} {value : χ}
    (hfile : fs.entries file = some stored)
    (h : computeChecksum lib fault file fs = (.ok value, fs')) :
    fault.value (lib.checksum stored.content) = some value ∧ fs' = fs := by
  rw [computeChecksum_apply fault hfile] at h
  cases fault <;> cases h <;> exact ⟨rfl, rfl⟩

/-- A preparation that succeeds and a rename after it give the conditions. -/
theorem replaces_of_ok {merged : φ} {prepared : χ × Bool} {fs₁ fs₂ : PartitionFiles κ}
    {u : PUnit} (htarget : fs.entries .target = some stored)
    (hprepare : prepareTemp lib faults merged fs = (.ok prepared, fs₁))
    (hrename : renameTemp faults fs₁ = (.ok u, fs₂)) :
    Replaces lib faults merged prepared.1 := by
  obtain ⟨errors, s₁, hlift, hrest₁⟩ := Attempt.bind_eq_ok.1 hprepare
  obtain ⟨hvalid, rfl⟩ := lift_eq_ok hlift
  obtain ⟨_, s₂, hreject, hrest₂⟩ := Attempt.bind_eq_ok.1 hrest₁
  have hnone : errors = [] ∧ s₂ = s₁ := by
    unfold rejectErrors at hreject
    split at hreject
    · cases hreject
      exact ⟨by assumption, rfl⟩
    · cases hreject
  obtain ⟨rfl, rfl⟩ := hnone
  obtain ⟨_, s₃, hspace, hrest₃⟩ := Attempt.bind_eq_ok.1 hrest₂
  obtain ⟨_, s₄, hstat, hroom⟩ := Attempt.bind_eq_ok.1 hspace
  obtain ⟨hstatvfs, rfl⟩ := check_eq_ok hstat
  have henough : ¬faults.available < estimateParquetSize (lib.estimatedSize merged) * 2 ∧
      s₃ = s₄ := by
    split at hroom
    · cases hroom
    · cases hroom
      exact ⟨by assumption, rfl⟩
  obtain ⟨henough, rfl⟩ := henough
  obtain ⟨_, s₅, hput, hrest₅⟩ := Attempt.bind_eq_ok.1 hrest₃
  obtain ⟨hwrite, rfl⟩ := writeFile_eq_ok hput
  obtain ⟨value, s₆, hread, hrest₆⟩ := Attempt.bind_eq_ok.1 hrest₅
  have htemp : (s₃.set .temp (some ⟨.written, lib.parquet merged⟩)).entries .temp =
      some ⟨.written, lib.parquet merged⟩ := by simp [PartitionFiles.set]
  obtain ⟨hchecksum, rfl⟩ := computeChecksum_eq_ok htemp hread
  obtain ⟨_, s₇, hsync, hrest₇⟩ := Attempt.bind_eq_ok.1 hrest₆
  obtain ⟨hfsync, rfl⟩ := check_eq_ok hsync
  obtain ⟨backedUp, s₈, hbackup, hrest₈⟩ := Attempt.bind_eq_ok.1 hrest₇
  obtain ⟨current, s₉, hget, hcopied⟩ := Attempt.bind_eq_ok.1 hbackup
  cases hget
  have hthere : (s₃.set .temp (some ⟨.written, lib.parquet merged⟩)).entries .target =
      some stored := by simpa [PartitionFiles.set] using htarget
  simp only [hthere] at hcopied
  obtain ⟨_, s₁₀, hcopy, -⟩ := Attempt.bind_eq_ok.1 hcopied
  obtain ⟨hcopy, -⟩ := writeFile_eq_ok hcopy
  cases hrest₈
  obtain ⟨temp, s₁₁, -, hrest₁₁⟩ := Attempt.bind_eq_ok.1 hrename
  obtain ⟨_, s₁₂, hcheck, -⟩ := Attempt.bind_eq_ok.1 hrest₁₁
  exact ⟨hvalid, hstatvfs, by omega, hwrite, hchecksum, hfsync, hcopy, (check_eq_ok hcheck).1⟩

theorem renameTemp_of_replaces {merged : φ} {checksum : χ} (content : κ)
    (h : Replaces lib faults merged checksum) (hsent : fs.sentAwayTargets = []) :
    ∃ fs₂, renameTemp faults ((fs.set .temp (some ⟨.written, lib.parquet merged⟩)).set .backup
        (some ⟨.copied, content⟩)) = (.ok ⟨⟩, fs₂) ∧
      Replaced lib faults merged content fs₂ := by
  refine ⟨(((fs.set .temp (some ⟨.written, lib.parquet merged⟩)).set .backup
    (some ⟨.copied, content⟩)).set .temp none).set .target
      (some ⟨.written, landedContent lib faults merged⟩), ?_, ?_⟩
  · simp [renameTemp, openFile, Attempt.bind_apply, check, h.rename, PartitionFiles.set,
      landedContent]
  · exact ⟨by simp [PartitionFiles.set], by simp [PartitionFiles.set], hsent⟩

theorem renameTemp_error {error : MergeError} (h : renameTemp faults fs = (.error error, fs')) :
    fs' = fs := by
  cases htemp : fs.entries .temp with
  | none =>
      simp only [renameTemp, openFile, Attempt.bind_apply, Attempt.get_apply, htemp,
        Attempt.fail_apply, Prod.mk.injEq] at h
      exact h.2.symm
  | some stored =>
      cases hrename : faults.rename with
      | none =>
          simp [renameTemp, openFile, Attempt.bind_apply, htemp, check, hrename] at h
      | some errno =>
          simp only [renameTemp, openFile, Attempt.bind_apply, Attempt.get_apply, htemp, check,
            hrename, Attempt.pure_apply, Attempt.fail_apply, Prod.mk.injEq] at h
          exact h.2.symm

/-! ## The verification -/

def MoveStep.done : MoveStep κ → Bool
  | .succeeds => true
  | _ => false

theorem quarantineTempFile_target {fault : QuarantineStep κ} (hmkdir : fault.mkdir = none)
    (h : fs.entries .target = some stored) :
    quarantineTempFile fault .target fs =
      (.ok ⟨⟩, if fault.move.done then fs.sendAway .target stored else fs) := by
  unfold quarantineTempFile
  cases hmove : fault.move <;>
    simp [Attempt.bind_apply, check, hmkdir, h, MoveStep.done]

theorem moveFile_sentAway (fault : MoveStep κ) (source dest : PartitionFile) :
    (moveFile fault source dest fs).2.sentAwayTargets = fs.sentAwayTargets := by
  cases hentry : fs.entries source <;> cases fault <;>
    simp [moveFile, openFile, Attempt.bind_apply, hentry]

theorem moveFile_target (fault : MoveStep κ) (h : fs.entries .backup = some stored) :
    (moveFile fault .backup .target fs).2.entries .target =
      match fault with
      | .succeeds => some stored
      | .refused _ => fs.entries .target
      | .torn _ left => some { stored with content := left }
      | .copied _ => some stored := by
  cases fault <;> simp [moveFile, openFile, Attempt.bind_apply, h, PartitionFiles.set]

/-- What the target holds after the backup was to be restored. -/
def restoredTarget (faults : MergeFaults κ χ) (content landed : κ) : Option (StoredFile κ) :=
  match faults.restoreBackup with
  | .succeeds => some ⟨.copied, content⟩
  | .refused _ => if faults.quarantineTarget.move.done then none else some ⟨.written, landed⟩
  | .torn _ left => some ⟨.copied, left⟩
  | .copied _ => some ⟨.copied, content⟩

variable {merged : φ} {checksum value : χ}

theorem restoreBackup_target (h : Replaced lib faults merged content fs)
    (hmkdir : faults.quarantineTarget.mkdir = none) :
    (restoreBackup faults true fs).2.entries .target =
        restoredTarget faults content (landedContent lib faults merged) ∧
      ∀ file ∈ (restoreBackup faults true fs).2.sentAwayTargets, file.origin = .written := by
  have hthere : true = true ∧ (fs.entries .backup).isSome = true := by simp [h.backup]
  have hbranch : restoreBackup faults true fs =
      (quarantineTempFile faults.quarantineTarget .target >>= fun _ =>
        moveFile faults.restoreBackup .backup .target) fs := congrFun (if_pos hthere) fs
  rw [hbranch, Attempt.bind_of_ok (quarantineTempFile_target hmkdir h.target),
    moveFile_sentAway]
  cases hdone : faults.quarantineTarget.move.done with
  | false =>
      rw [if_neg (by simp), moveFile_target _ h.backup, h.sentAway, h.target]
      exact ⟨by simp [restoredTarget, hdone], by simp⟩
  | true =>
      have hbackup : (fs.sendAway .target ⟨.written, landedContent lib faults merged⟩).entries
          .backup = some ⟨.copied, content⟩ := h.backup
      rw [if_pos rfl, moveFile_target _ hbackup, sentAwayTargets_sendAway, h.sentAway]
      exact ⟨by simp [restoredTarget, hdone, PartitionFiles.sendAway], by simp⟩

section Verification

variable [DecidableEq χ]

theorem verifyTarget_of_returns (h : Replaced lib faults merged content fs)
    (hsync : faults.fsyncDirectory = none)
    (hvalue : faults.checksumTarget.value (lib.checksum (landedContent lib faults merged)) =
      some checksum) (hunlink : faults.unlinkBackup = none) :
    verifyTarget lib faults checksum true fs = (.ok checksum, fs.set .backup none) := by
  simp [verifyTarget, Attempt.bind_apply, check, hsync, computeChecksum_apply _ h.target, hvalue,
    removeBackup, h.backup, unlink, hunlink]

/-- A verification that fails before the target is moved leaves it as the rename did. -/
theorem verifyTarget_of_error (h : Replaced lib faults merged content fs)
    (hfails : faults.fsyncDirectory ≠ none ∨
      ∀ value, faults.checksumTarget.value (lib.checksum (landedContent lib faults merged)) =
        some value → if value = checksum then faults.unlinkBackup ≠ none
          else faults.quarantineTarget.mkdir ≠ none) :
    (verifyTarget lib faults checksum true).Fails fs ∧
      (verifyTarget lib faults checksum true fs).2.view = fs.view := by
  cases hsync : faults.fsyncDirectory with
  | some errno => simp [verifyTarget, Attempt.Fails, Attempt.bind_apply, check, hsync]
  | none =>
      have hlater := hfails.resolve_left (by simp [hsync])
      cases hvalue : faults.checksumTarget.value
          (lib.checksum (landedContent lib faults merged)) with
      | none =>
          cases hstep : faults.checksumTarget <;>
            simp_all [verifyTarget, Attempt.Fails, Attempt.bind_apply, check,
              computeChecksum_apply _ h.target, ChecksumStep.value]
      | some value =>
          have hcase := hlater value hvalue
          by_cases hsame : value = checksum
          · rw [if_pos hsame] at hcase
            obtain ⟨errno, hunlink⟩ := Option.ne_none_iff_exists'.1 hcase
            simp [verifyTarget, Attempt.Fails, Attempt.bind_apply, check, hsync,
              computeChecksum_apply _ h.target, hvalue, hsame, removeBackup, h.backup, unlink,
              hunlink]
          · rw [if_neg hsame] at hcase
            obtain ⟨errno, hmkdir⟩ := Option.ne_none_iff_exists'.1 hcase
            simp [verifyTarget, Attempt.Fails, Attempt.bind_apply, check, hsync,
              computeChecksum_apply _ h.target, hvalue, hsame, restoreBackup, h.backup,
              quarantineTempFile, hmkdir]

/-- A mismatch that is noticed is answered by the backup. -/
theorem verifyTarget_of_mismatch (h : Replaced lib faults merged content fs)
    (hsync : faults.fsyncDirectory = none)
    (hvalue : faults.checksumTarget.value (lib.checksum (landedContent lib faults merged)) =
      some value) (hdiffers : value ≠ checksum)
    (hmkdir : faults.quarantineTarget.mkdir = none) :
    (verifyTarget lib faults checksum true).Fails fs ∧
      (verifyTarget lib faults checksum true fs).2.entries .target =
        restoredTarget faults content (landedContent lib faults merged) ∧
      ∀ file ∈ (verifyTarget lib faults checksum true fs).2.sentAwayTargets,
        file.origin = .written := by
  have hrestore := restoreBackup_target h hmkdir
  have hbranch : verifyTarget lib faults checksum true fs =
      (restoreBackup faults true >>= fun _ => .fail .checksumMismatch) fs := by
    simp only [verifyTarget, Attempt.bind_apply, check, hsync, computeChecksum_apply _ h.target,
      hvalue, Attempt.pure_apply, if_neg hdiffers]
  have hstate : (verifyTarget lib faults checksum true fs).2 =
      (restoreBackup faults true fs).2 := by
    rw [hbranch, Attempt.bind_apply]
    cases hcase : restoreBackup faults true fs with
    | mk result fs' => cases result <;> rfl
  refine ⟨?_, ?_⟩
  · rw [Attempt.Fails, hbranch]
    exact Attempt.Fails.of_last fun _ _ => ⟨_, rfl⟩
  · rw [hstate]
    exact hrestore

/-! ## The whole write -/

theorem writeTarget_of_not_replaces (htarget : fs.entries .target = some stored)
    (hnot : ∀ checksum, ¬Replaces lib faults merged checksum) :
    (writeTarget lib faults merged).Fails fs ∧
      (writeTarget lib faults merged fs).2.view = fs.view := by
  have hview : (prepareTemp lib faults merged fs).2.view = fs.view :=
    prepareTemp_spares merged fs.view fs rfl
  cases hprepare : prepareTemp lib faults merged fs with
  | mk result fs₁ =>
      rw [hprepare] at hview
      cases result with
      | error e =>
          rw [Attempt.Fails, writeTarget, Attempt.bind_of_error hprepare]
          exact ⟨⟨e, rfl⟩, hview⟩
      | ok prepared =>
          rw [Attempt.Fails, writeTarget, Attempt.bind_of_ok hprepare]
          cases hrename : renameTemp faults fs₁ with
          | mk result fs₂ =>
              cases result with
              | ok u => exact absurd (replaces_of_ok htarget hprepare hrename) (hnot _)
              | error e =>
                  rw [Attempt.bind_of_error hrename, renameTemp_error hrename]
                  exact ⟨⟨e, rfl⟩, hview⟩

theorem writeTarget_of_replaces (h : Replaces lib faults merged checksum)
    (htarget : fs.entries .target = some stored) (hsent : fs.sentAwayTargets = []) :
    ∃ fs₂, Replaced lib faults merged stored.content fs₂ ∧
      writeTarget lib faults merged fs = verifyTarget lib faults checksum true fs₂ := by
  obtain ⟨fs₂, hrename, hreplaced⟩ := renameTemp_of_replaces stored.content h hsent
  refine ⟨fs₂, hreplaced, ?_⟩
  rw [writeTarget, Attempt.bind_of_ok (prepareTemp_of_replaces h htarget),
    Attempt.bind_of_ok hrename]

/-- The handlers raise, and leave the partition as they find it. -/
theorem atomicWrite_of_fails (h : (writeTarget lib faults merged).Fails fs) :
    (atomicWriteWithQuarantine lib faults merged).Fails fs ∧
      (atomicWriteWithQuarantine lib faults merged fs).2.view =
        (writeTarget lib faults merged fs).2.view := by
  refine ⟨h.handle handleWriteError_fails, ?_⟩
  obtain ⟨e, he⟩ := h
  have hpair : writeTarget lib faults merged fs =
      (.error e, (writeTarget lib faults merged fs).2) := Prod.ext he rfl
  rw [atomicWriteWithQuarantine, Attempt.handle_of_error hpair]
  exact handleWriteError_spares e _ _ rfl

/-! ## The partition after a merge -/

/-- What a partition may hold: the old content, or the merged one. -/
def Complete (lib : MergeLibrary φ κ χ) (content : κ) (merged : Option φ) (held : κ) : Prop :=
  held = content ∨ merged.map lib.parquet = some held

/-- The frame that the merge is to write. -/
def mergedFrame (lib : MergeLibrary φ κ χ) (existing newDf : φ) : Option φ :=
  (lib.concatTagged existing newDf).bind lib.sortUniqueTagged

/-- A merge that raises leaves a complete partition, and a partition that was there before is
never moved into quarantine. -/
structure PartitionIntact (lib : MergeLibrary φ κ χ) (content : κ) (merged : Option φ)
    (outcome : Except MergeError PUnit × PartitionFiles κ) : Prop where
  held : ∀ error, outcome.1 = .error error →
    ∃ stored, outcome.2.entries .target = some stored ∧ Complete lib content merged stored.content
  kept : ∀ stored, (.target, stored) ∈ outcome.2.quarantined → stored.origin ≠ .before

/-- The partition before the merge, with what earlier calls may have left beside it. -/
def startFiles (content : κ) (temp backup : Option κ) : PartitionFiles κ where
  entries := fun file =>
    match file with
    | .target => some ⟨.before, content⟩
    | .temp => temp.map fun left => ⟨.before, left⟩
    | .backup => backup.map fun left => ⟨.before, left⟩
  quarantined := []

/-- The file is moved away. -/
def QuarantineStep.Moves (fault : QuarantineStep κ) : Prop :=
  fault.mkdir = none ∧ fault.move.done = true

/-- The checksum is read after the rename, differs, and the quarantine can be made. -/
def Mismatch (lib : MergeLibrary φ κ χ) (faults : MergeFaults κ χ) (merged : φ)
    (checksum : χ) : Prop :=
  faults.fsyncDirectory = none ∧
    (∃ value, faults.checksumTarget.value (lib.checksum (landedContent lib faults merged)) =
      some value ∧ value ≠ checksum) ∧
    faults.quarantineTarget.mkdir = none

/-- The checksum is read and agrees, and the backup can be removed. -/
def Agrees (lib : MergeLibrary φ κ χ) (faults : MergeFaults κ χ) (merged : φ)
    (checksum : χ) : Prop :=
  faults.fsyncDirectory = none ∧
    faults.checksumTarget.value (lib.checksum (landedContent lib faults merged)) = some checksum ∧
    faults.unlinkBackup = none

/-- Moving the backup back leaves a complete partition. -/
def RestoreCompletes (lib : MergeLibrary φ κ χ) (faults : MergeFaults κ χ) (content : κ)
    (merged : φ) : Prop :=
  match faults.restoreBackup with
  | .succeeds => True
  | .refused _ => faults.quarantineTarget.move.done = false ∧
      Complete lib content (some merged) (landedContent lib faults merged)
  | .torn _ left => Complete lib content (some merged) left
  | .copied _ => True

/-- What makes a merge safe: the frames go together or the partition cannot be moved, and after
the rename the backup comes back or the target is complete. -/
structure MergeSafe (lib : MergeLibrary φ κ χ) (faults : MergeFaults κ χ) (content : κ)
    (existing newDf : φ) : Prop where
  combines : lib.concatTagged existing newDf = none → ¬faults.quarantinePartition.Moves
  mismatch : ∀ merged checksum, mergedFrame lib existing newDf = some merged →
    Replaces lib faults merged checksum → Mismatch lib faults merged checksum →
    RestoreCompletes lib faults content merged
  landed : ∀ merged checksum, mergedFrame lib existing newDf = some merged →
    Replaces lib faults merged checksum → ¬Mismatch lib faults merged checksum →
    Agrees lib faults merged checksum ∨
      Complete lib content (some merged) (landedContent lib faults merged)

theorem mem_sentAwayTargets : stored ∈ fs.sentAwayTargets ↔ (.target, stored) ∈ fs.quarantined := by
  simp [PartitionFiles.sentAwayTargets]

section Merge

variable {existing newDf : φ} {temp backup : Option κ}

omit [DecidableEq χ] in
theorem intact_of_view {outcome : Except MergeError PUnit × PartitionFiles κ}
    {merged : Option φ} (h : outcome.2.view = (startFiles content temp backup).view) :
    PartitionIntact lib content merged outcome := by
  have htarget : outcome.2.entries .target = some ⟨.before, content⟩ := congrArg Prod.fst h
  have hsent : outcome.2.sentAwayTargets = [] := congrArg Prod.snd h
  constructor
  · intro error _
    exact ⟨_, htarget, Or.inl rfl⟩
  · intro stored hstored
    rw [← mem_sentAwayTargets, hsent] at hstored
    cases hstored

/-- Frames that do not go together send the partition away, where that succeeds. -/
theorem merge_of_not_combined (faults : MergeFaults κ χ) (temp backup : Option κ)
    (hread : lib.readParquet content = some existing)
    (hconcat : lib.concatTagged existing newDf = none) :
    (mergePartitionDeterministic lib faults newDf).Fails (startFiles content temp backup) ∧
      (faults.quarantinePartition.Moves →
        (mergePartitionDeterministic lib faults newDf
          (startFiles content temp backup)).2.entries .target = none) ∧
      (¬faults.quarantinePartition.Moves →
        (mergePartitionDeterministic lib faults newDf (startFiles content temp backup)).2.view =
          (startFiles content temp backup).view) := by
  have htarget : (startFiles content temp backup).entries .target = some ⟨.before, content⟩ := rfl
  cases hmkdir : faults.quarantinePartition.mkdir with
  | some errno =>
      simp [mergePartitionDeterministic, mergeFrames, Attempt.Fails, Attempt.bind_apply, htarget,
        combineExisting, hread, hconcat, quarantineTempFile, check, hmkdir,
        QuarantineStep.Moves]
  | none =>
      have hmoved := quarantineTempFile_target hmkdir htarget
      cases hdone : faults.quarantinePartition.move.done <;>
        simp [mergePartitionDeterministic, mergeFrames, Attempt.Fails, Attempt.bind_apply, htarget,
          combineExisting, hread, hconcat, hmoved, hdone, PartitionFiles.sendAway,
          QuarantineStep.Moves, hmkdir]

/-- A frame that cannot be sorted or that fails the validation leaves everything as it is. -/
theorem merge_of_invalid (hread : lib.readParquet content = some existing) {combined : φ}
    (hconcat : lib.concatTagged existing newDf = some combined)
    (hinvalid : ∀ merged, mergedFrame lib existing newDf = some merged →
      validatePartitionFrame lib merged ≠ some []) :
    (mergePartitionDeterministic lib faults newDf (startFiles content temp backup)).2.view =
      (startFiles content temp backup).view := by
  have htarget : (startFiles content temp backup).entries .target = some ⟨.before, content⟩ := rfl
  cases hsort : lib.sortUniqueTagged combined with
  | none =>
      simp [mergePartitionDeterministic, mergeFrames, Attempt.bind_apply, htarget,
        combineExisting, hread, hconcat, hsort, lift]
  | some merged =>
      have hnot := hinvalid merged (by simp [mergedFrame, hconcat, hsort])
      cases hvalid : validatePartitionFrame lib merged with
      | none =>
          simp [mergePartitionDeterministic, mergeFrames, Attempt.bind_apply, htarget,
            combineExisting, hread, hconcat, hsort, lift, hvalid]
      | some errors =>
          have hne : errors ≠ [] := by
            rintro rfl
            exact hnot hvalid
          simp [mergePartitionDeterministic, mergeFrames, Attempt.bind_apply, htarget,
            combineExisting, hread, hconcat, hsort, lift, hvalid, rejectInvalid, hne]

theorem merge_of_valid (hread : lib.readParquet content = some existing)
    (hmerged : mergedFrame lib existing newDf = some merged)
    (hvalid : validatePartitionFrame lib merged = some []) :
    mergePartitionDeterministic lib faults newDf (startFiles content temp backup) =
      (atomicWriteWithQuarantine lib faults merged >>= fun _ => pure ⟨⟩)
        (startFiles content temp backup) := by
  have htarget : (startFiles content temp backup).entries .target = some ⟨.before, content⟩ := rfl
  obtain ⟨combined, hconcat, hsort⟩ := Option.bind_eq_some_iff.1 hmerged
  simp [mergePartitionDeterministic, mergeFrames, Attempt.bind_apply, htarget, combineExisting,
    hread, hconcat, hsort, lift, hvalid, rejectInvalid]

omit [DecidableEq χ] in
/-- An error, with only files of the call in quarantine, is judged by the partition it leaves. -/
theorem intact_iff_of_error {outcome : Except MergeError PUnit × PartitionFiles κ}
    {mergedFrame : Option φ} {error : MergeError} (herror : outcome.1 = .error error)
    (hview : outcome.2.view = fs.view)
    (hsent : ∀ file ∈ fs.sentAwayTargets, file.origin = .written) :
    PartitionIntact lib content mergedFrame outcome ↔
      ∃ stored, fs.entries .target = some stored ∧
        Complete lib content mergedFrame stored.content := by
  have htarget : outcome.2.entries .target = fs.entries .target := congrArg Prod.fst hview
  have haway : outcome.2.sentAwayTargets = fs.sentAwayTargets := congrArg Prod.snd hview
  constructor
  · intro h
    rw [← htarget]
    exact h.held error herror
  · intro h
    refine ⟨fun _ _ => by rwa [htarget], fun stored hstored => ?_⟩
    rw [← mem_sentAwayTargets, haway] at hstored
    rw [hsent stored hstored]
    decide

omit [DecidableEq χ] in
theorem restoreCompletes_iff :
    RestoreCompletes lib faults content merged ↔
      ∃ stored, restoredTarget faults content (landedContent lib faults merged) = some stored ∧
        Complete lib content (some merged) stored.content := by
  unfold RestoreCompletes restoredTarget
  cases faults.restoreBackup with
  | succeeds => simp [Complete]
  | refused errno => cases faults.quarantineTarget.move.done <;> simp
  | torn errno left => simp
  | copied errno => simp [Complete]

/-- An attempt on the file that fails is the outcome of the merge. -/
theorem merge_of_writeTarget_fails (hread : lib.readParquet content = some existing)
    (hmerged : mergedFrame lib existing newDf = some merged)
    (hvalid : validatePartitionFrame lib merged = some [])
    (hfails : (writeTarget lib faults merged).Fails (startFiles content temp backup)) :
    (mergePartitionDeterministic lib faults newDf).Fails (startFiles content temp backup) ∧
      (mergePartitionDeterministic lib faults newDf (startFiles content temp backup)).2.view =
        (writeTarget lib faults merged (startFiles content temp backup)).2.view := by
  obtain ⟨⟨e, he⟩, hview⟩ := atomicWrite_of_fails hfails
  have hpair : atomicWriteWithQuarantine lib faults merged (startFiles content temp backup) =
      (.error e, (atomicWriteWithQuarantine lib faults merged
        (startFiles content temp backup)).2) := Prod.ext he rfl
  rw [Attempt.Fails, merge_of_valid hread hmerged hvalid, Attempt.bind_of_error hpair]
  exact ⟨⟨e, rfl⟩, hview⟩

/-- Where the partition is not replaced it stays as it was. -/
theorem merge_of_not_replaces (hread : lib.readParquet content = some existing) {combined : φ}
    (hconcat : lib.concatTagged existing newDf = some combined)
    (hnot : ∀ merged checksum, mergedFrame lib existing newDf = some merged →
      ¬Replaces lib faults merged checksum) :
    (mergePartitionDeterministic lib faults newDf (startFiles content temp backup)).2.view =
      (startFiles content temp backup).view := by
  by_cases hvalid : ∃ merged, mergedFrame lib existing newDf = some merged ∧
      validatePartitionFrame lib merged = some []
  · obtain ⟨merged, hmerged, hvalid⟩ := hvalid
    obtain ⟨hfails, hview⟩ := writeTarget_of_not_replaces
      (show (startFiles content temp backup).entries .target = some ⟨.before, content⟩ from rfl)
      fun checksum => hnot merged checksum hmerged
    exact (merge_of_writeTarget_fails hread hmerged hvalid hfails).2.trans hview
  · exact merge_of_invalid hread hconcat fun merged hmerged hvalid' =>
      hvalid ⟨merged, hmerged, hvalid'⟩

/-- A verification that fails after the replacement is the outcome of the merge. -/
theorem merge_of_verify_fails (hread : lib.readParquet content = some existing)
    (hmerged : mergedFrame lib existing newDf = some merged)
    (h : Replaces lib faults merged checksum) {fs₂ : PartitionFiles κ}
    (hwrite : writeTarget lib faults merged (startFiles content temp backup) =
      verifyTarget lib faults checksum true fs₂)
    (hfails : (verifyTarget lib faults checksum true).Fails fs₂) :
    (mergePartitionDeterministic lib faults newDf).Fails (startFiles content temp backup) ∧
      (mergePartitionDeterministic lib faults newDf (startFiles content temp backup)).2.view =
        (verifyTarget lib faults checksum true fs₂).2.view := by
  have hwriteFails : (writeTarget lib faults merged).Fails (startFiles content temp backup) := by
    rw [Attempt.Fails, hwrite]
    exact hfails
  rw [← hwrite]
  exact merge_of_writeTarget_fails hread hmerged h.valid hwriteFails

theorem intact_iff_of_replaces (hread : lib.readParquet content = some existing)
    (hmerged : mergedFrame lib existing newDf = some merged)
    (h : Replaces lib faults merged checksum) :
    PartitionIntact lib content (some merged)
        (mergePartitionDeterministic lib faults newDf (startFiles content temp backup)) ↔
      (Mismatch lib faults merged checksum → RestoreCompletes lib faults content merged) ∧
      (¬Mismatch lib faults merged checksum → Agrees lib faults merged checksum ∨
        Complete lib content (some merged) (landedContent lib faults merged)) := by
  have hstart : (startFiles content temp backup).entries .target = some ⟨.before, content⟩ := rfl
  obtain ⟨fs₂, hreplaced, hwrite⟩ := writeTarget_of_replaces h hstart rfl
  by_cases hmismatch : Mismatch lib faults merged checksum
  · obtain ⟨hsync, ⟨value, hvalue, hdiffers⟩, hmkdir⟩ := id hmismatch
    obtain ⟨hfails, htarget, hsent⟩ :=
      verifyTarget_of_mismatch hreplaced hsync hvalue hdiffers hmkdir
    obtain ⟨⟨e, he⟩, hview⟩ := merge_of_verify_fails hread hmerged h hwrite hfails
    rw [intact_iff_of_error he hview hsent, htarget, ← restoreCompletes_iff]
    tauto
  · by_cases hagrees : Agrees lib faults merged checksum
    · obtain ⟨hsync, hvalue, hunlink⟩ := id hagrees
      have hverify := verifyTarget_of_returns hreplaced hsync hvalue hunlink
      have hok : atomicWriteWithQuarantine lib faults merged (startFiles content temp backup) =
          (.ok checksum, fs₂.set .backup none) :=
        Attempt.handle_of_ok (hwrite.trans hverify)
      rw [merge_of_valid hread hmerged h.valid, Attempt.bind_of_ok hok]
      have hintact : PartitionIntact lib content (some merged)
          ((pure ⟨⟩ : MergeStep κ PUnit) (fs₂.set .backup none)) := by
        refine ⟨fun error herror => (by cases herror), fun stored hstored => ?_⟩
        rw [← mem_sentAwayTargets] at hstored
        simp [hreplaced.sentAway] at hstored
      tauto
    · have hnot : faults.fsyncDirectory ≠ none ∨
          ∀ value, faults.checksumTarget.value (lib.checksum (landedContent lib faults merged)) =
            some value → if value = checksum then faults.unlinkBackup ≠ none
              else faults.quarantineTarget.mkdir ≠ none := by
        by_cases hsync : faults.fsyncDirectory = none
        · refine Or.inr fun value hvalue => ?_
          split
          · rename_i hsame
            subst hsame
            exact fun hunlink => hagrees ⟨hsync, hvalue, hunlink⟩
          · rename_i hdiffers
            exact fun hmkdir => hmismatch ⟨hsync, ⟨value, hvalue, hdiffers⟩, hmkdir⟩
        · exact Or.inl hsync
      obtain ⟨hfails, hsame⟩ := verifyTarget_of_error hreplaced hnot
      obtain ⟨⟨e, he⟩, hview⟩ := merge_of_verify_fails hread hmerged h hwrite hfails
      rw [intact_iff_of_error he (hview.trans hsame) (by simp [hreplaced.sentAway]),
        hreplaced.target]
      constructor
      · rintro ⟨stored, hstored, hcomplete⟩
        cases hstored
        exact ⟨fun hm => absurd hm hmismatch, fun _ => Or.inr hcomplete⟩
      · intro hsafe
        exact ⟨_, rfl, (hsafe.2 hmismatch).resolve_left hagrees⟩

/-- A merge keeps the partition exactly where it is safe. -/
theorem merge_keeps_partition_iff (hread : lib.readParquet content = some existing) :
    PartitionIntact lib content (mergedFrame lib existing newDf)
        (mergePartitionDeterministic lib faults newDf (startFiles content temp backup)) ↔
      MergeSafe lib faults content existing newDf := by
  have hstart : (startFiles content temp backup).entries .target = some ⟨.before, content⟩ := rfl
  cases hconcat : lib.concatTagged existing newDf with
  | none =>
      have hnone : mergedFrame lib existing newDf = none := by simp [mergedFrame, hconcat]
      obtain ⟨⟨e, he⟩, hcall⟩ := merge_of_not_combined faults temp backup hread hconcat
      by_cases hmoves : faults.quarantinePartition.Moves
      · have hgone := hcall.1 hmoves
        constructor
        · intro h
          obtain ⟨stored, hstored, -⟩ := h.held e he
          rw [hgone] at hstored
          cases hstored
        · intro h
          exact absurd hmoves (h.combines hconcat)
      · constructor
        · intro _
          exact ⟨fun _ => hmoves, fun _ _ hmerged => by simp [hnone] at hmerged,
            fun _ _ hmerged => by simp [hnone] at hmerged⟩
        · intro _
          exact intact_of_view (hcall.2 hmoves)
  | some combined =>
      by_cases hreplaces : ∃ merged checksum, mergedFrame lib existing newDf = some merged ∧
          Replaces lib faults merged checksum
      · obtain ⟨merged, checksum, hmerged, hreplaces⟩ := hreplaces
        rw [hmerged, intact_iff_of_replaces hread hmerged hreplaces]
        have hunique : ∀ merged' checksum', mergedFrame lib existing newDf = some merged' →
            Replaces lib faults merged' checksum' → merged' = merged ∧ checksum' = checksum := by
          intro merged' checksum' hmerged' hreplaces'
          have hsame : merged = merged' := Option.some.inj (hmerged.symm.trans hmerged')
          subst hsame
          exact ⟨rfl, Option.some.inj (hreplaces'.checksum.symm.trans hreplaces.checksum)⟩
        constructor
        · rintro ⟨hmismatch, hlanded⟩
          refine ⟨fun hfalse => by simp [hconcat] at hfalse, ?_, ?_⟩
          · intro merged' checksum' hmerged' hreplaces'
            obtain ⟨rfl, rfl⟩ := hunique merged' checksum' hmerged' hreplaces'
            exact hmismatch
          · intro merged' checksum' hmerged' hreplaces'
            obtain ⟨rfl, rfl⟩ := hunique merged' checksum' hmerged' hreplaces'
            exact hlanded
        · intro h
          exact ⟨h.mismatch merged checksum hmerged hreplaces,
            h.landed merged checksum hmerged hreplaces⟩
      · have hnot : ∀ merged checksum, mergedFrame lib existing newDf = some merged →
            ¬Replaces lib faults merged checksum :=
          fun merged checksum hmerged h => hreplaces ⟨merged, checksum, hmerged, h⟩
        constructor
        · intro _
          exact ⟨fun hfalse => by simp [hconcat] at hfalse,
            fun merged checksum hmerged h => absurd h (hnot merged checksum hmerged),
            fun merged checksum hmerged h => absurd h (hnot merged checksum hmerged)⟩
        · intro _
          exact intact_of_view (merge_of_not_replaces hread hconcat hnot)

end Merge

end Verification

/-! ## Frames of prices -/

/-- A frame with the names and types of its columns. -/
structure PriceFrame (V : Type) where
  columns : List (String × String)
  rows : List (PriceRow V)
  deriving DecidableEq

/-- Frames whose files hold them as they are. In the concatenation the rows stand in the order
of `_source` and `_seq`. -/
def priceFrames (V : Type) : MergeLibrary (PriceFrame V) (PriceFrame V) (PriceFrame V) where
  readParquet := some
  parquet := id
  checksum := id
  concatTagged := fun existingDf newDf =>
    if existingDf.columns = newDf.columns then
      some ⟨existingDf.columns, existingDf.rows ++ newDf.rows⟩
    else none
  sortUniqueTagged := fun df => some ⟨df.columns, sortByKey PriceRow.key
    (uniqueFirst PriceRow.key (sortByKey PriceRow.key df.rows.reverse))⟩
  sortUnique := fun df => some ⟨df.columns, sortByKey PriceRow.key
    (uniqueLast PriceRow.key df.rows)⟩
  height := fun df => df.rows.length
  uniqueHeight := fun df => some (uniqueFirst PriceRow.key df.rows).length
  columns := fun df => df.columns.map Prod.fst
  nullCount := fun _ _ => 0
  estimatedSize := fun df => df.rows.length

/-- On frames with the same columns the merge is to write the merged rows. -/
theorem mergedFrame_priceFrames {V : Type} {existingDf newDf : PriceFrame V}
    (h : existingDf.columns = newDf.columns) :
    mergedFrame (priceFrames V) existingDf newDf =
      some ⟨existingDf.columns, mergedRows (some existingDf.rows) newDf.rows⟩ := by
  simp [mergedFrame, priceFrames, h, mergedRows]

/-- Every operation goes through. -/
def noMergeFaults (κ χ : Type) : MergeFaults κ χ where
  quarantinePartition := ⟨none, .succeeds⟩
  quarantineRejected := none
  statvfs := none
  available := 1000000
  writeParquet := .succeeds
  checksumTemp := .reads
  fsyncTemp := none
  copyBackup := .succeeds
  rename := none
  landed := none
  fsyncDirectory := none
  checksumTarget := .reads
  quarantineTarget := ⟨none, .succeeds⟩
  restoreBackup := .succeeds
  unlinkBackup := none
  quarantineTemp := ⟨none, .succeeds⟩
  unlinkBackupAfter := none

/-- A day of closing prices, with the type of the column. -/
def closingPrices (day : ℤ) (dtype : String) : PriceFrame ℤ where
  columns := [("date", "Date"), ("symbol", "String"), ("close", dtype), ("volume", "Int64")]
  rows := [⟨day, "AAPL", 150⟩]

theorem merge_keeps_closingPrices :
    PartitionIntact (priceFrames ℤ) (closingPrices 20000 "Float64")
      (mergedFrame (priceFrames ℤ) (closingPrices 20000 "Float64") (closingPrices 20001 "Float64"))
      (mergePartitionDeterministic (priceFrames ℤ) (noMergeFaults _ _)
        (closingPrices 20001 "Float64")
        (startFiles (closingPrices 20000 "Float64") none none)) := by
  refine (merge_keeps_partition_iff rfl).2 ⟨?_, ?_, ?_⟩
  · intro hconcat
    simp [priceFrames, closingPrices] at hconcat
  · rintro merged checksum - hreplaces ⟨-, ⟨value, hvalue, hdiffers⟩, -⟩
    exact absurd (Option.some.inj (hvalue.symm.trans hreplaces.checksum)) hdiffers
  · intro merged checksum _ _ _
    exact Or.inr (Or.inr rfl)

/-- A new frame with another type in a column sends the partition into quarantine. -/
theorem merge_loses_closingPrices :
    ¬PartitionIntact (priceFrames ℤ) (closingPrices 20000 "Float64")
      (mergedFrame (priceFrames ℤ) (closingPrices 20000 "Float64") (closingPrices 20001 "Int64"))
      (mergePartitionDeterministic (priceFrames ℤ) (noMergeFaults _ _)
        (closingPrices 20001 "Int64")
        (startFiles (closingPrices 20000 "Float64") none none)) := by
  intro h
  have hread : (priceFrames ℤ).readParquet (closingPrices 20000 "Float64") =
      some (closingPrices 20000 "Float64") := rfl
  have hconcat : (priceFrames ℤ).concatTagged (closingPrices 20000 "Float64")
      (closingPrices 20001 "Int64") = none := by
    simp [priceFrames, closingPrices]
  obtain ⟨⟨e, he⟩, hgone, -⟩ :=
    merge_of_not_combined (noMergeFaults _ _) none none hread hconcat
  obtain ⟨stored, hstored, -⟩ := h.held e he
  rw [hgone ⟨rfl, rfl⟩] at hstored
  cases hstored

end TradingPlatform.Data.PartitionMerge
