import TradingPlatform.Base.FileSystem
import Mathlib.Data.List.Induction
import Mathlib.Data.List.Nodup

/-! # Quarantine of a sync

The files of a manifest are linked or copied into a staging directory, the
manifest and a reason are written beside them, and a rename makes the directory
the quarantine. Every operation may fail; the manifest object is changed between
the first write and the rename.
-/

namespace TradingPlatform.Data

open Base

/-- The names in a quarantine directory. -/
inductive QuarantineName where
  | file (uniqueName : String)
  | manifestJson
  | reasonTxt
  deriving DecidableEq

/-- A data file by its resolved path, and the names in the two directories of the call. -/
inductive QuarantinePath where
  | original (path : String)
  | staging (name : QuarantineName)
  | final (name : QuarantineName)
  deriving DecidableEq

inductive ValidationStatus where
  | passed | failed | quarantined
  deriving DecidableEq

/-- The fields of a manifest that the call reads or sets. -/
structure QuarantineManifest where
  filePaths : List String
  validationStatus : ValidationStatus
  quarantinePath : Option String
  deriving DecidableEq

/-- The directory of the call, and the pure functions of paths and texts that it uses. -/
structure QuarantineContext where
  timestamp : String
  reason : String
  quarantinePath : String
  /-- `_resolve_data_file_path` -/
  resolve : String → String
  /-- `_validate_file_path` -/
  inRoot : String → Bool
  /-- The first eight digits of the SHA-256 of the path. -/
  pathHash : String → String
  baseName : String → String
  manifestJson : QuarantineManifest → String

/-- How an operation that writes may go wrong: before it writes, or in the middle. -/
inductive WriteFault where
  | succeeds
  | refused
  | torn (content : String)
  deriving DecidableEq

/-- Which operations raise an `OSError`, by the listed path or the place of the file. -/
structure QuarantineFaults where
  lookup : String → Bool
  mkdir : Bool
  link : ℕ → Bool
  copy : ℕ → WriteFault
  writeManifest : WriteFault
  writeReason : WriteFault
  rename : Bool
  unlink : ℕ → Bool
  /-- What a `rmtree` that fails leaves of the staging directory. -/
  leaves : QuarantineName → Bool

abbrev QuarantineFiles := FileSystem QuarantinePath String

namespace QuarantineContext

variable (ctx : QuarantineContext)

def uniqueName (resolvedPath : String) : String :=
  ctx.pathHash resolvedPath ++ "_" ++ ctx.baseName resolvedPath

def destPath (resolvedPath : String) : QuarantinePath :=
  .staging (.file (ctx.uniqueName resolvedPath))

/-- `str(quarantine_path / "data" / unique_name)` -/
def finalPath (uniqueName : String) : String := ctx.quarantinePath ++ "/data/" ++ uniqueName

/-- Stage 0: the files that exist, resolved, and the paths of those that do not. -/
def validateFiles (faults : QuarantineFaults) (fs : QuarantineFiles) :
    List String → Option (List String × List String)
  | [] => some ([], [])
  | path :: paths =>
      if faults.lookup path then none
      else if fs.exists? (.original (ctx.resolve path)) then
        if ctx.inRoot (ctx.resolve path) then
          (validateFiles faults fs paths).map fun found => (ctx.resolve path :: found.1, found.2)
        else none
      else (validateFiles faults fs paths).map fun found => (found.1, path :: found.2)

end QuarantineContext

/-- Opening, writing and syncing a file. -/
def WriteFault.write (fault : WriteFault) (fs : QuarantineFiles) (path : QuarantinePath)
    (content : String) : QuarantineFiles × Bool :=
  match fault with
  | .succeeds => (fs.put path content, true)
  | .refused => (fs, false)
  | .torn written => (fs.put path written, false)

/-- `shutil.copy2`, which refuses a file that is its own copy. -/
def WriteFault.copy2 (fault : WriteFault) (fs : QuarantineFiles) (src dest : QuarantinePath) :
    QuarantineFiles × Bool :=
  if fs.entries src = fs.entries dest then (fs, false)
  else
    match fs.content src with
    | none => (fs, false)
    | some content => fault.write fs dest content

namespace QuarantineContext

variable (ctx : QuarantineContext)

/-- Link, or else copy, one file. -/
def stageFile (faults : QuarantineFaults) (i : ℕ) (fs : QuarantineFiles) (resolvedPath : String) :
    QuarantineFiles × Bool :=
  let linked := if faults.link i then none
    else fs.link (.original resolvedPath) (ctx.destPath resolvedPath)
  match linked with
  | some fs => (fs, true)
  | none => (faults.copy i).copy2 fs (.original resolvedPath) (ctx.destPath resolvedPath)

/-- Stage 1 -/
def stageFiles (faults : QuarantineFaults) : ℕ → QuarantineFiles → List String →
    QuarantineFiles × Bool
  | _, fs, [] => (fs, true)
  | i, fs, resolvedPath :: files =>
      match ctx.stageFile faults i fs resolvedPath with
      | (fs, true) => stageFiles faults (i + 1) fs files
      | (fs, false) => (fs, false)

def stagedPaths (files missing : List String) : List String :=
  (files.map fun file => ctx.finalPath (ctx.uniqueName file)) ++ missing.map ("MISSING:" ++ ·)

def quarantined (files missing : List String) : QuarantineManifest where
  filePaths := ctx.stagedPaths files missing
  validationStatus := .quarantined
  quarantinePath := some ctx.quarantinePath

def reasonText (originalPaths : List String) : String :=
  "Quarantined at: " ++ ctx.timestamp ++ "\n" ++ "Reason: " ++ ctx.reason ++ "\n" ++
    "\nOriginal file paths:\n" ++ String.join (originalPaths.map fun path => "  - " ++ path ++ "\n")

end QuarantineContext

/-- The staging directory takes the name of the quarantine. -/
def publish (fs : QuarantineFiles) : QuarantineFiles :=
  { fs with
    entries := fun path =>
      match path with
      | .original file => fs.entries (.original file)
      | .staging _ => none
      | .final name => fs.entries (.staging name) }

/-- `rmtree`, of what it can remove. -/
def cleanUp (faults : QuarantineFaults) (fs : QuarantineFiles) : QuarantineFiles :=
  { fs with
    entries := fun path =>
      match path with
      | .staging name => if faults.leaves name then fs.entries (.staging name) else none
      | other => fs.entries other }

/-- Stage 4 -/
def deleteOriginals (faults : QuarantineFaults) : ℕ → QuarantineFiles → List String →
    QuarantineFiles
  | _, fs, [] => fs
  | i, fs, file :: files =>
      let fs := if faults.unlink i then fs else fs.unlink (.original file)
      deleteOriginals faults (i + 1) fs files

/-- What a call leaves behind; the path where it returns. -/
structure QuarantineOutcome where
  files : QuarantineFiles
  manifest : QuarantineManifest
  returned : Option String

/-- Stages 2 to 4, with the manifest as it has been changed for them. -/
def commitStaged (ctx : QuarantineContext) (faults : QuarantineFaults) (fs : QuarantineFiles)
    (manifest : QuarantineManifest) (originalPaths files : List String) : QuarantineOutcome :=
  match faults.writeManifest.write fs (.staging .manifestJson) (ctx.manifestJson manifest) with
  | (fs, false) => ⟨cleanUp faults fs, manifest, none⟩
  | (fs, true) =>
      match faults.writeReason.write fs (.staging .reasonTxt) (ctx.reasonText originalPaths) with
      | (fs, false) => ⟨cleanUp faults fs, manifest, none⟩
      | (fs, true) =>
          if faults.rename then ⟨cleanUp faults fs, manifest, none⟩
          else
            ⟨deleteOriginals faults 0 (publish fs) files, manifest, some ctx.quarantinePath⟩

/-- `quarantine_data`; `held` says whether the token holds the lock of the dataset. -/
def quarantineData (ctx : QuarantineContext) (faults : QuarantineFaults) (held : Bool)
    (fs : QuarantineFiles) (manifest : QuarantineManifest) : QuarantineOutcome :=
  if held = false then ⟨fs, manifest, none⟩
  else
    match ctx.validateFiles faults fs manifest.filePaths with
    | none => ⟨fs, manifest, none⟩
    | some (files, missing) =>
        if faults.mkdir then ⟨cleanUp faults fs, manifest, none⟩
        else
          match ctx.stageFiles faults 0 fs files with
          | (fs, false) => ⟨cleanUp faults fs, manifest, none⟩
          | (fs, true) =>
              commitStaged ctx faults fs (ctx.quarantined files missing) manifest.filePaths files

/-! ## What is kept up to the rename -/

variable {ctx : QuarantineContext} {faults : QuarantineFaults} {fs₀ fs fs' : QuarantineFiles}
variable {done files : List String} {file : String} {name : QuarantineName} {content : String}

/-- The originals are there with their contents, and the quarantine is not there yet. -/
structure Kept (fs₀ fs : QuarantineFiles) : Prop where
  original : ∀ path, fs.entries (.original path) = fs₀.entries (.original path)
  final : ∀ name, fs.entries (.final name) = fs₀.entries (.final name)
  data : ∀ inode < fs₀.next, fs.data inode = fs₀.data inode
  le : fs₀.next ≤ fs.next
  inUse : fs.InUse

theorem Kept.refl (hin : fs₀.InUse) : Kept fs₀ fs₀ :=
  ⟨fun _ => rfl, fun _ => rfl, fun _ _ => rfl, Nat.le_refl _, hin⟩

theorem Kept.content_original (h : Kept fs₀ fs) (hin : fs₀.InUse) (path : String) :
    fs.content (.original path) = fs₀.content (.original path) := by
  unfold FileSystem.content
  rw [h.original]
  cases hentry : fs₀.entries (.original path) with
  | none => rfl
  | some inode => simp [h.data inode (hin _ inode hentry)]

/-- Writing in the staging directory, except through a link to an original. -/
theorem Kept.put (h : Kept fs₀ fs)
    (hnew : ∀ inode, fs.entries (.staging name) = some inode → fs₀.next ≤ inode) :
    Kept fs₀ (fs.put (.staging name) content) := by
  have hle := h.le
  cases hentry : fs.entries (.staging name) with
  | none =>
      rw [FileSystem.put_of_free hentry]
      constructor
      · intro path
        rw [FileSystem.bindNew_entries_ne (by simp), h.original]
      · intro name
        rw [FileSystem.bindNew_entries_ne (by simp), h.final]
      · intro inode hlt
        rw [FileSystem.bindNew_data_ne (by omega), h.data inode hlt]
      · show fs₀.next ≤ fs.next + 1
        omega
      · exact h.inUse.bindNew
  | some inode =>
      have hge := hnew inode hentry
      rw [FileSystem.put_of_taken hentry]
      constructor
      · exact h.original
      · exact h.final
      · intro other hlt
        rw [FileSystem.write_data_ne _ (by omega), h.data other hlt]
      · exact hle
      · exact h.inUse

theorem Kept.write (h : Kept fs₀ fs) (fault : WriteFault)
    (hnew : ∀ inode, fs.entries (.staging name) = some inode → fs₀.next ≤ inode) :
    Kept fs₀ (fault.write fs (.staging name) content).1 := by
  cases fault with
  | succeeds => exact h.put hnew
  | refused => exact h
  | torn written => exact h.put hnew

theorem Kept.cleanUp (h : Kept fs₀ fs) : Kept fs₀ (cleanUp faults fs) := by
  constructor
  · exact h.original
  · exact h.final
  · exact h.data
  · exact h.le
  · intro path inode hentry
    cases path with
    | original path => exact h.inUse _ _ hentry
    | final name => exact h.inUse _ _ hentry
    | staging name =>
        cases hleft : faults.leaves name with
        | true => exact h.inUse (.staging name) inode (by simpa [Data.cleanUp, hleft] using hentry)
        | false => simp [Data.cleanUp, hleft] at hentry

/-! ## Staging -/

/-- The files so far are staged, linked or copied as the faults say. -/
structure Staged (ctx : QuarantineContext) (faults : QuarantineFaults) (fs₀ : QuarantineFiles)
    (done : List String) (fs : QuarantineFiles) : Prop extends Kept fs₀ fs where
  absent : ∀ name, (∀ file ∈ done, .staging name ≠ ctx.destPath file) →
    fs.entries (.staging name) = none
  held : ∀ file ∈ done, fs.content (ctx.destPath file) = fs₀.content (.original file)
  linked : ∀ file ∈ done, faults.link (done.idxOf file) = false →
    fs.entries (ctx.destPath file) = fs₀.entries (.original file)
  copied : ∀ file ∈ done, faults.link (done.idxOf file) = true →
    ∀ inode, fs.entries (ctx.destPath file) = some inode → fs₀.next ≤ inode

/-- A file is staged after those before it: a repeated one only as a copy of a copy. -/
def Stages (faults : QuarantineFaults) (done : List String) (file : String) : Prop :=
  if file ∈ done then faults.link (done.idxOf file) = true ∧ faults.copy done.length = .succeeds
  else faults.link done.length = false ∨ faults.copy done.length = .succeeds

def StagesAll (faults : QuarantineFaults) (files : List String) : Prop :=
  ∀ done file rest, files = done ++ file :: rest → Stages faults done file

theorem stageFile_of_not_linked {i : ℕ}
    (h : faults.link i = true ∨ fs.entries (ctx.destPath file) ≠ none) :
    ctx.stageFile faults i fs file =
      (faults.copy i).copy2 fs (.original file) (ctx.destPath file) := by
  unfold QuarantineContext.stageFile
  cases hlink : faults.link i with
  | true => rfl
  | false =>
      have htaken : fs.entries (ctx.destPath file) ≠ none := by simpa [hlink] using h
      cases hentry : fs.entries (ctx.destPath file) with
      | none => exact absurd hentry htaken
      | some inode =>
          cases horiginal : fs.entries (.original file) <;>
            simp [FileSystem.link, hentry, horiginal]

theorem copy2_of_ne {fault : WriteFault} {src dest : QuarantinePath}
    (hne : fs.entries src ≠ fs.entries dest) (hcontent : fs.content src = some content) :
    fault.copy2 fs src dest = fault.write fs dest content := by
  unfold WriteFault.copy2
  rw [if_neg hne]
  simp [hcontent]

theorem Staged.nil (hin : fs₀.InUse) (hempty : ∀ name, fs₀.entries (.staging name) = none) :
    Staged ctx faults fs₀ [] fs₀ :=
  ⟨Kept.refl hin, fun name _ => hempty name, by simp, by simp, by simp⟩

namespace Staged

variable {inode₀ : ℕ}

/-- The entry of a file that is staged already. -/
theorem entry_ne_none (h : Staged ctx faults fs₀ done fs) (hmem : file ∈ done)
    (hfound : fs₀.entries (.original file) = some inode₀) :
    fs.entries (ctx.destPath file) ≠ none := by
  intro hnone
  have hheld := h.held file hmem
  simp [FileSystem.content, hnone, hfound] at hheld

/-- Another copy of a file changes nothing. -/
theorem append_repeated (h : Staged ctx faults fs₀ done fs) (hmem : file ∈ done) :
    Staged ctx faults fs₀ (done ++ [file]) fs := by
  have hback : ∀ other ∈ done ++ [file], other ∈ done := by
    intro other hother
    rcases List.mem_append.1 hother with hdone | hfile
    · exact hdone
    · rwa [List.mem_singleton.1 hfile]
  have hidx : ∀ other ∈ done ++ [file], (done ++ [file]).idxOf other = done.idxOf other :=
    fun other hother => List.idxOf_append_of_mem (hback other hother)
  refine ⟨h.toKept, ?_, ?_, ?_, ?_⟩
  · intro name hname
    exact h.absent name fun other hother => hname other (List.mem_append_left _ hother)
  · intro other hother
    exact h.held other (hback other hother)
  · intro other hother hlink
    rw [hidx other hother] at hlink
    exact h.linked other (hback other hother) hlink
  · intro other hother hlink
    rw [hidx other hother] at hlink
    exact h.copied other (hback other hother) hlink

/-- A file that is listed again is accepted only as a copy of a copy. -/
theorem repeated (h : Staged ctx faults fs₀ done fs) (hin : fs₀.InUse) (hmem : file ∈ done)
    (hfound : fs₀.entries (.original file) = some inode₀) :
    Kept fs₀ (ctx.stageFile faults done.length fs file).1 ∧
      ((ctx.stageFile faults done.length fs file).2 = true ↔ Stages faults done file) ∧
      ((ctx.stageFile faults done.length fs file).2 = true →
        Staged ctx faults fs₀ (done ++ [file]) (ctx.stageFile faults done.length fs file).1) := by
  rw [stageFile_of_not_linked (Or.inr (h.entry_ne_none hmem hfound))]
  cases hlink : faults.link (done.idxOf file) with
  | false =>
      -- the earlier entry is a link to this very file
      have hsame : fs.entries (.original file) = fs.entries (ctx.destPath file) := by
        rw [h.original, h.linked file hmem hlink]
      simp [WriteFault.copy2, hsame, Stages, hmem, hlink, h.toKept]
  | true =>
      have hnew := h.copied file hmem hlink
      have hne : fs.entries (.original file) ≠ fs.entries (ctx.destPath file) := by
        intro hsame
        rw [h.original, hfound] at hsame
        have hge := hnew inode₀ hsame.symm
        have hlt := hin _ _ hfound
        omega
      have hcontent : fs.content (.original file) = some (fs₀.data inode₀) := by
        rw [h.content_original hin]
        simp [FileSystem.content, hfound]
      rw [copy2_of_ne hne hcontent]
      have hkept : Kept fs₀ ((faults.copy done.length).write fs (ctx.destPath file)
          (fs₀.data inode₀)).1 := h.toKept.write _ hnew
      cases hcopy : faults.copy done.length with
      | succeeds =>
          have hthere : fs.content (ctx.destPath file) = some (fs₀.data inode₀) := by
            rw [h.held file hmem]
            simp [FileSystem.content, hfound]
          simp only [WriteFault.write, FileSystem.put_of_content hthere]
          exact ⟨h.toKept, by simp [Stages, hmem, hlink, hcopy], fun _ => h.append_repeated hmem⟩
      | refused =>
          rw [hcopy] at hkept
          exact ⟨hkept, by simp [WriteFault.write, Stages, hmem, hcopy],
            by simp [WriteFault.write]⟩
      | torn written =>
          rw [hcopy] at hkept
          exact ⟨hkept, by simp [WriteFault.write, Stages, hmem, hcopy],
            by simp [WriteFault.write]⟩

/-- A file takes a name that is free. -/
theorem append_first (h : Staged ctx faults fs₀ done fs) (hnot : file ∉ done)
    (hapart : ∀ other ∈ done, ctx.destPath other ≠ ctx.destPath file) (hkept : Kept fs₀ fs')
    (hentries : ∀ path, path ≠ ctx.destPath file → fs'.entries path = fs.entries path)
    (hcontents : ∀ path, path ≠ ctx.destPath file → fs'.content path = fs.content path)
    (hheld : fs'.content (ctx.destPath file) = fs₀.content (.original file))
    (hlinked : faults.link done.length = false →
      fs'.entries (ctx.destPath file) = fs₀.entries (.original file))
    (hcopied : faults.link done.length = true →
      ∀ inode, fs'.entries (ctx.destPath file) = some inode → fs₀.next ≤ inode) :
    Staged ctx faults fs₀ (done ++ [file]) fs' := by
  have hidx : (done ++ [file]).idxOf file = done.length := by
    rw [List.idxOf_append_of_notMem hnot]
    simp
  refine ⟨hkept, ?_, ?_, ?_, ?_⟩
  · intro name hname
    have hne := hname file (by simp)
    rw [hentries _ hne]
    exact h.absent name fun other hother => hname other (List.mem_append_left _ hother)
  · intro other hother
    rcases List.mem_append.1 hother with hdone | hfile
    · rw [hcontents _ (hapart other hdone), h.held other hdone]
    · rw [List.mem_singleton.1 hfile, hheld]
  · intro other hother hlink
    rcases List.mem_append.1 hother with hdone | hfile
    · rw [List.idxOf_append_of_mem hdone] at hlink
      rw [hentries _ (hapart other hdone), h.linked other hdone hlink]
    · rw [List.mem_singleton.1 hfile] at hlink ⊢
      rw [hidx] at hlink
      exact hlinked hlink
  · intro other hother hlink
    rcases List.mem_append.1 hother with hdone | hfile
    · rw [List.idxOf_append_of_mem hdone] at hlink
      rw [hentries _ (hapart other hdone)]
      exact h.copied other hdone hlink
    · rw [List.mem_singleton.1 hfile] at hlink ⊢
      rw [hidx] at hlink
      exact hcopied hlink

/-- A file that is listed for the first time is linked, or else copied. -/
theorem first (h : Staged ctx faults fs₀ done fs) (hin : fs₀.InUse) (hnot : file ∉ done)
    (hapart : ∀ other ∈ done, ctx.destPath other ≠ ctx.destPath file)
    (hfound : fs₀.entries (.original file) = some inode₀) :
    Kept fs₀ (ctx.stageFile faults done.length fs file).1 ∧
      ((ctx.stageFile faults done.length fs file).2 = true ↔ Stages faults done file) ∧
      ((ctx.stageFile faults done.length fs file).2 = true →
        Staged ctx faults fs₀ (done ++ [file]) (ctx.stageFile faults done.length fs file).1) := by
  have hfree : fs.entries (ctx.destPath file) = none :=
    h.absent _ fun other hother heq => hapart other hother heq.symm
  have hfile : fs.entries (.original file) = some inode₀ := by rw [h.original, hfound]
  have hcontent : fs.content (.original file) = some (fs₀.data inode₀) := by
    rw [h.content_original hin]
    simp [FileSystem.content, hfound]
  have hle := h.le
  cases hlink : faults.link done.length with
  | false =>
      have hstage : ctx.stageFile faults done.length fs file =
          ({ fs with entries := Function.update fs.entries (ctx.destPath file) (some inode₀) },
            true) := by
        simp [QuarantineContext.stageFile, hlink, FileSystem.link, hfile, hfree]
      have hne : ∀ path, path ≠ ctx.destPath file →
          Function.update fs.entries (ctx.destPath file) (some inode₀) path = fs.entries path :=
        fun path hpath => Function.update_of_ne hpath ..
      have hkept : Kept fs₀ { fs with
          entries := Function.update fs.entries (ctx.destPath file) (some inode₀) } := by
        constructor
        · intro path
          exact (hne _ (by simp [QuarantineContext.destPath])).trans (h.original path)
        · intro name
          exact (hne _ (by simp [QuarantineContext.destPath])).trans (h.final name)
        · exact h.data
        · exact h.le
        · intro path inode hentry
          by_cases hpath : path = ctx.destPath file
          · subst hpath
            have hsame : inode₀ = inode := by simpa using hentry
            have hlt := h.inUse _ _ hfile
            show inode < fs.next
            omega
          · exact h.inUse path inode ((hne path hpath).symm.trans hentry)
      rw [hstage]
      refine ⟨hkept, by simp [Stages, hnot, hlink], fun _ => ?_⟩
      refine h.append_first hnot hapart hkept hne ?_ ?_ ?_ ?_
      · intro path hpath
        simp [FileSystem.content, hne path hpath]
      · rw [← h.content_original hin file]
        simp [FileSystem.content, hfile]
      · intro _
        rw [hfound]
        exact Function.update_self ..
      · intro hfalse
        rw [hlink] at hfalse
        cases hfalse
  | true =>
      have hne : fs.entries (.original file) ≠ fs.entries (ctx.destPath file) := by
        simp [hfile, hfree]
      rw [stageFile_of_not_linked (Or.inl hlink), copy2_of_ne hne hcontent]
      have hkept : Kept fs₀ ((faults.copy done.length).write fs (ctx.destPath file)
          (fs₀.data inode₀)).1 := by
        refine h.toKept.write _ fun inode hentry => ?_
        rw [show fs.entries (.staging _) = none from hfree] at hentry
        cases hentry
      cases hcopy : faults.copy done.length with
      | succeeds =>
          rw [hcopy] at hkept
          simp only [WriteFault.write, FileSystem.put_of_free hfree] at hkept ⊢
          refine ⟨hkept, by simp [Stages, hnot, hcopy], fun _ => ?_⟩
          refine h.append_first hnot hapart hkept ?_ ?_ ?_ ?_ ?_
          · intro path hpath
            exact FileSystem.bindNew_entries_ne hpath
          · intro path hpath
            exact FileSystem.content_bindNew_ne h.inUse hpath
          · rw [FileSystem.content_bindNew_self, ← h.content_original hin, hcontent]
          · intro hfalse
            rw [hlink] at hfalse
            cases hfalse
          · intro _ inode hentry
            have hsame : fs.next = inode := by simpa using hentry
            omega
      | refused =>
          rw [hcopy] at hkept
          exact ⟨hkept, by simp [WriteFault.write, Stages, hnot, hlink, hcopy],
            by simp [WriteFault.write]⟩
      | torn written =>
          rw [hcopy] at hkept
          exact ⟨hkept, by simp [WriteFault.write, Stages, hnot, hlink, hcopy],
            by simp [WriteFault.write]⟩

end Staged

/-- No two listed files share a name in the staging directory. -/
def DistinctNames (ctx : QuarantineContext) (files : List String) : Prop :=
  ∀ file ∈ files, ∀ other ∈ files, ctx.destPath other = ctx.destPath file → other = file

theorem stageFiles_spec (faults : QuarantineFaults) (hin : fs₀.InUse)
    (hnames : DistinctNames ctx files)
    (hfound : ∀ file ∈ files, (fs₀.entries (.original file)).isSome) :
    ∀ (rest done : List String) (fs : QuarantineFiles), files = done ++ rest →
      Staged ctx faults fs₀ done fs →
      Kept fs₀ (ctx.stageFiles faults done.length fs rest).1 ∧
        ((ctx.stageFiles faults done.length fs rest).2 = true ↔
          ∀ middle file rest', rest = middle ++ file :: rest' →
            Stages faults (done ++ middle) file) ∧
        ((ctx.stageFiles faults done.length fs rest).2 = true →
          Staged ctx faults fs₀ files (ctx.stageFiles faults done.length fs rest).1) := by
  intro rest
  induction rest with
  | nil =>
      intro done fs hfiles hstaged
      rw [List.append_nil] at hfiles
      subst hfiles
      exact ⟨hstaged.toKept, by simp [QuarantineContext.stageFiles], fun _ => hstaged⟩
  | cons file rest ih =>
      intro done fs hfiles hstaged
      have hmem : file ∈ files := by simp [hfiles]
      obtain ⟨inode₀, hinode⟩ := Option.isSome_iff_exists.1 (hfound file hmem)
      have hstep : Kept fs₀ (ctx.stageFile faults done.length fs file).1 ∧
          ((ctx.stageFile faults done.length fs file).2 = true ↔ Stages faults done file) ∧
          ((ctx.stageFile faults done.length fs file).2 = true →
            Staged ctx faults fs₀ (done ++ [file])
              (ctx.stageFile faults done.length fs file).1) := by
        by_cases hdone : file ∈ done
        · exact hstaged.repeated hin hdone hinode
        · refine hstaged.first hin hdone ?_ hinode
          intro other hother hsame
          have heq := hnames file hmem other (by simp [hfiles, hother]) hsame
          exact hdone (heq ▸ hother)
      cases hcase : ctx.stageFile faults done.length fs file with
      | mk fs₁ staged =>
          rw [hcase] at hstep
          obtain ⟨hkept, hiff, hnext⟩ := hstep
          cases staged with
          | false =>
              simp only [QuarantineContext.stageFiles, hcase]
              refine ⟨hkept, ?_, by simp⟩
              have hnot : ¬Stages faults done file := by simpa using hiff.symm
              constructor
              · intro hfalse
                cases hfalse
              · intro hall
                have hone := hall [] file rest rfl
                rw [List.append_nil] at hone
                exact absurd hone hnot
          | true =>
              have hone : Stages faults done file := hiff.1 rfl
              have hrec := ih (done ++ [file]) fs₁ (by simp [hfiles]) (hnext rfl)
              rw [List.length_append, List.length_singleton] at hrec
              simp only [QuarantineContext.stageFiles, hcase]
              refine ⟨hrec.1, hrec.2.1.trans ?_, hrec.2.2⟩
              constructor
              · intro hall middle other rest' heq
                cases middle with
                | nil =>
                    cases heq
                    simpa using hone
                | cons head middle =>
                    cases heq
                    simpa using hall middle other rest' rfl
              · intro hall middle other rest' heq
                have hthis := hall (file :: middle) other rest' (by simp [heq])
                simpa using hthis

theorem stageFiles_found (faults : QuarantineFaults) (hin : fs₀.InUse)
    (hempty : ∀ name, fs₀.entries (.staging name) = none) (hnames : DistinctNames ctx files)
    (hfound : ∀ file ∈ files, (fs₀.entries (.original file)).isSome) :
    Kept fs₀ (ctx.stageFiles faults 0 fs₀ files).1 ∧
      ((ctx.stageFiles faults 0 fs₀ files).2 = true ↔ StagesAll faults files) ∧
      ((ctx.stageFiles faults 0 fs₀ files).2 = true →
        Staged ctx faults fs₀ files (ctx.stageFiles faults 0 fs₀ files).1) := by
  have hspec := stageFiles_spec faults hin hnames hfound files [] fs₀ rfl (Staged.nil hin hempty)
  simpa only [List.nil_append, List.length_nil, StagesAll] using hspec

/-- Without a fault only a repeated file is refused. -/
theorem stagesAll_iff_nodup (hlink : ∀ i, faults.link i = false) :
    StagesAll faults files ↔ files.Nodup := by
  constructor
  · intro hall
    induction files using List.reverseRecOn with
    | nil => simp
    | append_singleton files file ih =>
        have hnodup := ih fun done other rest heq =>
          hall done other (rest ++ [file]) (by simp [heq])
        have hlast := hall files file [] rfl
        have hnot : file ∉ files := by
          intro hmem
          simp [Stages, hmem, hlink] at hlast
        exact List.nodup_append_comm.1 (by simpa using ⟨hnot, hnodup⟩)
  · intro hnodup done file rest hfiles
    have hnot : file ∉ done := by
      rw [hfiles] at hnodup
      intro hmem
      exact List.disjoint_of_nodup_append hnodup hmem (by simp)
    simp [Stages, hnot, hlink]

/-! ## Stage 0 -/

namespace QuarantineContext

/-- The listed files that exist, resolved, and the paths of the others. -/
def found (ctx : QuarantineContext) (fs : QuarantineFiles) (paths : List String) : List String :=
  (paths.filter fun path => fs.exists? (.original (ctx.resolve path))).map ctx.resolve

def missing (ctx : QuarantineContext) (fs : QuarantineFiles) (paths : List String) : List String :=
  paths.filter fun path => !fs.exists? (.original (ctx.resolve path))

def Admits (ctx : QuarantineContext) (faults : QuarantineFaults) (fs : QuarantineFiles)
    (paths : List String) : Prop :=
  ∀ path ∈ paths, faults.lookup path = false ∧
    (fs.exists? (.original (ctx.resolve path)) = true → ctx.inRoot (ctx.resolve path) = true)

variable {paths : List String}

theorem validateFiles_of_admits (h : ctx.Admits faults fs paths) :
    ctx.validateFiles faults fs paths = some (ctx.found fs paths, ctx.missing fs paths) := by
  induction paths with
  | nil => rfl
  | cons path paths ih =>
      obtain ⟨hlookup, hroot⟩ := h path (by simp)
      have hrest := ih fun other hother => h other (List.mem_cons_of_mem _ hother)
      cases hexists : fs.exists? (.original (ctx.resolve path)) with
      | false => simp [validateFiles, hlookup, hexists, hrest, found, missing]
      | true => simp [validateFiles, hlookup, hexists, hroot hexists, hrest, found, missing]

theorem validateFiles_of_not_admits (h : ¬ctx.Admits faults fs paths) :
    ctx.validateFiles faults fs paths = none := by
  induction paths with
  | nil => exact absurd (by simp [Admits]) h
  | cons path paths ih =>
      cases hlookup : faults.lookup path with
      | true => simp [validateFiles, hlookup]
      | false =>
          cases hexists : fs.exists? (.original (ctx.resolve path)) with
          | false =>
              have hrest := ih fun hall => h (by simpa [Admits, hlookup, hexists] using hall)
              simp [validateFiles, hlookup, hexists, hrest]
          | true =>
              cases hroot : ctx.inRoot (ctx.resolve path) with
              | false => simp [validateFiles, hlookup, hexists, hroot]
              | true =>
                  have hrest := ih fun hall =>
                    h (by simpa [Admits, hlookup, hexists, hroot] using hall)
                  simp [validateFiles, hlookup, hexists, hroot, hrest]

theorem exists_of_mem_found (h : file ∈ ctx.found fs paths) :
    (fs.entries (.original file)).isSome := by
  simp only [found, List.mem_map, List.mem_filter] at h
  obtain ⟨path, ⟨-, hexists⟩, rfl⟩ := h
  exact hexists

end QuarantineContext

/-! ## All or nothing -/

/-- Every listed file that existed is stored, and the manifest points to it. -/
structure QuarantineOutcome.Stored (ctx : QuarantineContext) (fs : QuarantineFiles)
    (manifest : QuarantineManifest) (outcome : QuarantineOutcome) (path : String) : Prop where
  quarantinePath : outcome.manifest.quarantinePath = some path
  status : outcome.manifest.validationStatus = .quarantined
  listed : ∀ listed ∈ manifest.filePaths, fs.exists? (.original (ctx.resolve listed)) = true →
    ctx.finalPath (ctx.uniqueName (ctx.resolve listed)) ∈ outcome.manifest.filePaths ∧
      outcome.files.content (.final (.file (ctx.uniqueName (ctx.resolve listed)))) =
        fs.content (.original (ctx.resolve listed))

/-- Nothing has happened, as far as the manifest and the names outside of the staging go. -/
structure QuarantineOutcome.Untouched (ctx : QuarantineContext) (fs : QuarantineFiles)
    (manifest : QuarantineManifest) (outcome : QuarantineOutcome) : Prop where
  unchanged : outcome.manifest = manifest
  original : ∀ listed ∈ manifest.filePaths,
    outcome.files.content (.original (ctx.resolve listed)) =
      fs.content (.original (ctx.resolve listed))
  invisible : ∀ name, outcome.files.entries (.final name) = none

/-- No operation is made to fail. -/
structure QuarantineFaults.Harmless (faults : QuarantineFaults) : Prop where
  lookup : ∀ path, faults.lookup path = false
  mkdir : faults.mkdir = false
  link : ∀ i, faults.link i = false
  copy : ∀ i, faults.copy i = .succeeds
  writeManifest : faults.writeManifest = .succeeds
  writeReason : faults.writeReason = .succeeds
  rename : faults.rename = false
  unlink : ∀ i, faults.unlink i = false

/-- Every listed file exists within the data directory. -/
def QuarantineContext.AllThere (ctx : QuarantineContext) (fs : QuarantineFiles)
    (paths : List String) : Prop :=
  ∀ path ∈ paths, fs.exists? (.original (ctx.resolve path)) = true ∧
    ctx.inRoot (ctx.resolve path) = true

structure AllOrNothing (ctx : QuarantineContext) (faults : QuarantineFaults) (held : Bool)
    (fs : QuarantineFiles) (manifest : QuarantineManifest) : Prop where
  all : ∀ path, (quarantineData ctx faults held fs manifest).returned = some path →
    (quarantineData ctx faults held fs manifest).Stored ctx fs manifest path
  nothing : (quarantineData ctx faults held fs manifest).returned = none →
    (quarantineData ctx faults held fs manifest).Untouched ctx fs manifest
  accepts : held = true → faults.Harmless → ctx.AllThere fs manifest.filePaths →
    (quarantineData ctx faults held fs manifest).returned ≠ none

/-- The call comes to the point where the manifest is changed. -/
structure Prepares (ctx : QuarantineContext) (faults : QuarantineFaults) (held : Bool)
    (fs : QuarantineFiles) (manifest : QuarantineManifest) : Prop where
  held : held = true
  admits : ctx.Admits faults fs manifest.filePaths
  mkdir : faults.mkdir = false
  stages : StagesAll faults (ctx.found fs manifest.filePaths)

/-- The operations from there on go through. -/
structure QuarantineFaults.Commits (faults : QuarantineFaults) : Prop where
  writeManifest : faults.writeManifest = .succeeds
  writeReason : faults.writeReason = .succeeds
  rename : faults.rename = false

/-- The names of the call are free, and those of its files differ. -/
structure Fresh (ctx : QuarantineContext) (fs : QuarantineFiles) (paths : List String) : Prop where
  inUse : fs.InUse
  staging : ∀ name, fs.entries (.staging name) = none
  final : ∀ name, fs.entries (.final name) = none
  names : DistinctNames ctx (ctx.found fs paths)

/-- What the call sets in the manifest before it writes it. -/
def QuarantineContext.changed (ctx : QuarantineContext) (fs : QuarantineFiles)
    (manifest : QuarantineManifest) : QuarantineManifest :=
  ctx.quarantined (ctx.found fs manifest.filePaths) (ctx.missing fs manifest.filePaths)

variable {held : Bool} {manifest : QuarantineManifest}

theorem QuarantineFaults.Harmless.commits (h : faults.Harmless) : faults.Commits :=
  ⟨h.writeManifest, h.writeReason, h.rename⟩

theorem QuarantineContext.AllThere.found_eq {paths : List String} (h : ctx.AllThere fs paths) :
    ctx.found fs paths = paths.map ctx.resolve := by
  rw [QuarantineContext.found, List.filter_eq_self.2 fun path hpath => (h path hpath).1]

theorem publish_content : (publish fs).content (.final name) = fs.content (.staging name) := rfl

theorem deleteOriginals_content (i : ℕ) :
    (deleteOriginals faults i fs files).content (.final name) = fs.content (.final name) := by
  induction files generalizing i fs with
  | nil => rfl
  | cons file files ih =>
      rw [deleteOriginals, ih]
      cases faults.unlink i with
      | true => rfl
      | false => exact FileSystem.content_unlink_ne (by simp)

theorem quarantineData_of_not_prepares (hfresh : Fresh ctx fs manifest.filePaths)
    (h : ¬Prepares ctx faults held fs manifest) :
    (quarantineData ctx faults held fs manifest).returned = none ∧
      (quarantineData ctx faults held fs manifest).manifest = manifest ∧
      Kept fs (quarantineData ctx faults held fs manifest).files := by
  have hrefl := Kept.refl hfresh.inUse
  unfold quarantineData
  by_cases hheld : held = false
  · simpa [hheld] using hrefl
  · by_cases hadmits : ctx.Admits faults fs manifest.filePaths
    · rw [if_neg hheld, QuarantineContext.validateFiles_of_admits hadmits]
      cases hmkdir : faults.mkdir with
      | true => simpa using hrefl.cleanUp
      | false =>
          have hspec := stageFiles_found faults hfresh.inUse hfresh.staging hfresh.names
            fun _ => QuarantineContext.exists_of_mem_found
          have hstages : ¬StagesAll faults (ctx.found fs manifest.filePaths) := fun hall =>
            h ⟨by simpa using hheld, hadmits, hmkdir, hall⟩
          cases hcase : ctx.stageFiles faults 0 fs (ctx.found fs manifest.filePaths) with
          | mk fs₁ staged =>
              rw [hcase] at hspec
              cases staged with
              | true => exact absurd (hspec.2.1.1 rfl) hstages
              | false => simpa [hcase] using hspec.1.cleanUp
    · simpa [hheld, QuarantineContext.validateFiles_of_not_admits hadmits] using hrefl

theorem quarantineData_of_prepares (hfresh : Fresh ctx fs manifest.filePaths)
    (h : Prepares ctx faults held fs manifest) :
    ∃ fs₁, Staged ctx faults fs (ctx.found fs manifest.filePaths) fs₁ ∧
      quarantineData ctx faults held fs manifest =
        commitStaged ctx faults fs₁ (ctx.changed fs manifest) manifest.filePaths
          (ctx.found fs manifest.filePaths) := by
  have hspec := stageFiles_found faults hfresh.inUse hfresh.staging hfresh.names
    fun _ => QuarantineContext.exists_of_mem_found
  have hstaged := hspec.2.1.2 h.stages
  refine ⟨_, hspec.2.2 hstaged, ?_⟩
  unfold quarantineData
  rw [if_neg (by simp [h.held]), QuarantineContext.validateFiles_of_admits h.admits]
  cases hcase : ctx.stageFiles faults 0 fs (ctx.found fs manifest.filePaths) with
  | mk fs₁ staged =>
      have htrue : staged = true := by simpa [hcase] using hstaged
      subst htrue
      simp [h.mkdir, hcase, QuarantineContext.changed]

/-- A file that is new in the staging directory leaves the staged ones as they are. -/
theorem Staged.free (h : Staged ctx faults fs₀ done fs)
    (hname : ∀ uniqueName, name ≠ .file uniqueName) : fs.entries (.staging name) = none := by
  refine h.absent name fun file _ hsame => ?_
  simp only [QuarantineContext.destPath, QuarantinePath.staging.injEq] at hsame
  exact hname _ hsame

theorem commitStaged_of_not_commits (manifest : QuarantineManifest)
    (originalPaths files : List String) (h : Staged ctx faults fs₀ done fs)
    (hnot : ¬faults.Commits) :
    (commitStaged ctx faults fs manifest originalPaths files).returned = none ∧
      (commitStaged ctx faults fs manifest originalPaths files).manifest = manifest ∧
      Kept fs₀ (commitStaged ctx faults fs manifest originalPaths files).files := by
  have hfree : ∀ inode, fs.entries (.staging .manifestJson) = some inode → fs₀.next ≤ inode := by
    intro inode hentry
    rw [h.free (by simp)] at hentry
    cases hentry
  have hmanifest : Kept fs₀ (faults.writeManifest.write fs (.staging .manifestJson)
      (ctx.manifestJson manifest)).1 := h.toKept.write _ hfree
  unfold commitStaged
  cases hwrite : faults.writeManifest.write fs (.staging .manifestJson)
      (ctx.manifestJson manifest) with
  | mk fs₁ written =>
      rw [hwrite] at hmanifest
      cases written with
      | false => exact ⟨rfl, rfl, hmanifest.cleanUp⟩
      | true =>
          have hsucceeds : faults.writeManifest = .succeeds := by
            cases hfault : faults.writeManifest <;> simp [WriteFault.write, hfault] at hwrite
            rfl
          have hentries : fs₁.entries (.staging .reasonTxt) = none := by
            rw [hsucceeds] at hwrite
            simp only [WriteFault.write, Prod.mk.injEq, and_true] at hwrite
            rw [← hwrite, FileSystem.put_of_free (h.free (by simp)),
              FileSystem.bindNew_entries_ne (by simp), h.free (by simp)]
          have hreason : Kept fs₀ (faults.writeReason.write fs₁ (.staging .reasonTxt)
              (ctx.reasonText originalPaths)).1 := hmanifest.write _ (by simp [hentries])
          cases hwrite' : faults.writeReason.write fs₁ (.staging .reasonTxt)
              (ctx.reasonText originalPaths) with
          | mk fs₂ written =>
              rw [hwrite'] at hreason
              cases written with
              | false => simpa [hwrite'] using hreason.cleanUp
              | true =>
                  have hsucceeds' : faults.writeReason = .succeeds := by
                    cases hfault : faults.writeReason <;>
                      simp [WriteFault.write, hfault] at hwrite'
                    rfl
                  cases hrename : faults.rename with
                  | false => exact absurd ⟨hsucceeds, hsucceeds', hrename⟩ hnot
                  | true => simpa [hwrite'] using hreason.cleanUp

theorem commitStaged_of_commits (manifest : QuarantineManifest)
    (originalPaths files : List String) (h : Staged ctx faults fs₀ done fs)
    (hcommits : faults.Commits) :
    (commitStaged ctx faults fs manifest originalPaths files).returned = some ctx.quarantinePath ∧
      (commitStaged ctx faults fs manifest originalPaths files).manifest = manifest ∧
      ∀ file ∈ done, (commitStaged ctx faults fs manifest originalPaths files).files.content
        (.final (.file (ctx.uniqueName file))) = fs₀.content (.original file) := by
  have hfree : fs.entries (.staging .manifestJson) = none := h.free (by simp)
  have hfree' : (fs.bindNew (.staging .manifestJson) (ctx.manifestJson manifest)).entries
      (.staging .reasonTxt) = none := by
    rw [FileSystem.bindNew_entries_ne (by simp), h.free (by simp)]
  simp only [commitStaged, WriteFault.write, hcommits.writeManifest, hcommits.writeReason,
    hcommits.rename, FileSystem.put_of_free hfree, FileSystem.put_of_free hfree']
  refine ⟨by simp, by simp, fun file hfile => ?_⟩
  rw [if_neg (by simp), deleteOriginals_content, publish_content,
    FileSystem.content_bindNew_ne h.inUse.bindNew (by simp),
    FileSystem.content_bindNew_ne h.inUse (by simp)]
  exact h.held file hfile

/-- A call that does not go through leaves the changed manifest behind. -/
theorem quarantineData_of_not_commits (hfresh : Fresh ctx fs manifest.filePaths)
    (h : Prepares ctx faults held fs manifest) (hnot : ¬faults.Commits) :
    (quarantineData ctx faults held fs manifest).returned = none ∧
      (quarantineData ctx faults held fs manifest).manifest = ctx.changed fs manifest ∧
      Kept fs (quarantineData ctx faults held fs manifest).files := by
  obtain ⟨fs₁, hstaged, heq⟩ := quarantineData_of_prepares hfresh h
  rw [heq]
  exact commitStaged_of_not_commits _ _ _ hstaged hnot

theorem quarantineData_of_commits (hfresh : Fresh ctx fs manifest.filePaths)
    (h : Prepares ctx faults held fs manifest) (hcommits : faults.Commits) :
    (quarantineData ctx faults held fs manifest).returned = some ctx.quarantinePath ∧
      (quarantineData ctx faults held fs manifest).manifest = ctx.changed fs manifest ∧
      ∀ file ∈ ctx.found fs manifest.filePaths,
        (quarantineData ctx faults held fs manifest).files.content
          (.final (.file (ctx.uniqueName file))) = fs.content (.original file) := by
  obtain ⟨fs₁, hstaged, heq⟩ := quarantineData_of_prepares hfresh h
  rw [heq]
  exact commitStaged_of_commits _ _ _ hstaged hcommits

theorem mem_found {path : String} (hpath : path ∈ manifest.filePaths)
    (hexists : fs.exists? (.original (ctx.resolve path)) = true) :
    ctx.resolve path ∈ ctx.found fs manifest.filePaths :=
  List.mem_map.2 ⟨path, List.mem_filter.2 ⟨hpath, hexists⟩, rfl⟩

theorem finalPath_mem_changed (hmem : file ∈ ctx.found fs manifest.filePaths) :
    ctx.finalPath (ctx.uniqueName file) ∈ (ctx.changed fs manifest).filePaths :=
  List.mem_append_left _ (List.mem_map.2 ⟨file, hmem, rfl⟩)

theorem Untouched.of_kept (hfresh : Fresh ctx fs manifest.filePaths)
    {outcome : QuarantineOutcome} (hsame : outcome.manifest = manifest)
    (hkept : Kept fs outcome.files) : outcome.Untouched ctx fs manifest := by
  refine ⟨hsame, fun listed _ => hkept.content_original hfresh.inUse _, fun name => ?_⟩
  rw [hkept.final, hfresh.final]

/-- All or nothing holds exactly where a call that has changed the manifest goes through, and no
file is listed twice in a call without a fault. -/
theorem allOrNothing_iff (hfresh : Fresh ctx fs manifest.filePaths) :
    AllOrNothing ctx faults held fs manifest ↔
      (Prepares ctx faults held fs manifest →
        faults.Commits ∨ ctx.changed fs manifest = manifest) ∧
      (held = true → faults.Harmless → ctx.AllThere fs manifest.filePaths →
        (manifest.filePaths.map ctx.resolve).Nodup) := by
  constructor
  · intro h
    constructor
    · intro hprepares
      by_cases hcommits : faults.Commits
      · exact Or.inl hcommits
      · have hcall := quarantineData_of_not_commits hfresh hprepares hcommits
        exact Or.inr (hcall.2.1.symm.trans (h.nothing hcall.1).unchanged)
    · intro hheld hharmless hthere
      by_cases hprepares : Prepares ctx faults held fs manifest
      · have hnodup := (stagesAll_iff_nodup hharmless.link).1 hprepares.stages
        rwa [hthere.found_eq] at hnodup
      · have hnone := (quarantineData_of_not_prepares hfresh hprepares).1
        exact absurd hnone (h.accepts hheld hharmless hthere)
  · rintro ⟨hcommit, hnodup⟩
    constructor
    · intro path hpath
      by_cases hprepares : Prepares ctx faults held fs manifest
      · by_cases hcommits : faults.Commits
        · obtain ⟨hsome, hchanged, hcontent⟩ :=
            quarantineData_of_commits hfresh hprepares hcommits
          have hname : path = ctx.quarantinePath := by simpa [hpath] using hsome
          constructor
          · rw [hchanged, hname]
            rfl
          · rw [hchanged]
            rfl
          · intro listed hlisted hexists
            have hmem := mem_found hlisted hexists
            rw [hchanged]
            exact ⟨finalPath_mem_changed hmem, hcontent _ hmem⟩
        · have hnone := (quarantineData_of_not_commits hfresh hprepares hcommits).1
          rw [hpath] at hnone
          cases hnone
      · have hnone := (quarantineData_of_not_prepares hfresh hprepares).1
        rw [hpath] at hnone
        cases hnone
    · intro hnone
      by_cases hprepares : Prepares ctx faults held fs manifest
      · by_cases hcommits : faults.Commits
        · have hsome := (quarantineData_of_commits hfresh hprepares hcommits).1
          rw [hnone] at hsome
          cases hsome
        · obtain ⟨-, hchanged, hkept⟩ := quarantineData_of_not_commits hfresh hprepares hcommits
          have hsame := (hcommit hprepares).resolve_left hcommits
          exact Untouched.of_kept hfresh (hchanged.trans hsame) hkept
      · obtain ⟨-, hsame, hkept⟩ := quarantineData_of_not_prepares hfresh hprepares
        exact Untouched.of_kept hfresh hsame hkept
    · intro hheld hharmless hthere hnone
      have hprepares : Prepares ctx faults held fs manifest := by
        refine ⟨hheld, fun path hpath => ⟨hharmless.lookup path, fun _ => (hthere path hpath).2⟩,
          hharmless.mkdir, (stagesAll_iff_nodup hharmless.link).2 ?_⟩
        rw [hthere.found_eq]
        exact hnodup hheld hharmless hthere
      have hsome := (quarantineData_of_commits hfresh hprepares hharmless.commits).1
      rw [hnone] at hsome
      cases hsome

def crspQuarantine : QuarantineContext where
  timestamp := "20260105_093000"
  reason := "checksum"
  quarantinePath := "quarantine/crsp/20260105_093000"
  resolve := id
  inRoot := fun _ => true
  pathHash := fun _ => "c0ffee00"
  baseName := id
  manifestJson := fun _ => "manifest"

def crspFiles : QuarantineFiles where
  entries := fun path => if path = .original "crsp.parquet" then some 0 else none
  data := fun _ => "rows"
  next := 1

def crspFaults (rename : Bool) : QuarantineFaults where
  lookup := fun _ => false
  mkdir := false
  link := fun _ => false
  copy := fun _ => .succeeds
  writeManifest := .succeeds
  writeReason := .succeeds
  rename := rename
  unlink := fun _ => false
  leaves := fun _ => false

def crspManifest (copies : ℕ) : QuarantineManifest where
  filePaths := List.replicate copies "crsp.parquet"
  validationStatus := .passed
  quarantinePath := none

theorem fresh_crsp (copies : ℕ) :
    Fresh crspQuarantine crspFiles (crspManifest copies).filePaths := by
  constructor
  · intro path inode hentry
    by_cases hpath : path = .original "crsp.parquet"
    · have hzero : 0 = inode := by simpa [crspFiles, hpath] using hentry
      show inode < 1
      omega
    · simp [crspFiles, hpath] at hentry
  · intro name
    simp [crspFiles]
  · intro name
    simp [crspFiles]
  · intro file hfile other hother _
    have hone : ∀ path ∈ crspQuarantine.found crspFiles (crspManifest copies).filePaths,
        path = "crsp.parquet" := by
      intro path hpath
      obtain ⟨listed, hlisted, rfl⟩ := List.mem_map.1 hpath
      exact List.eq_of_mem_replicate (List.mem_filter.1 hlisted).1
    rw [hone file hfile, hone other hother]

theorem crsp_allOrNothing :
    AllOrNothing crspQuarantine (crspFaults false) true crspFiles (crspManifest 1) :=
  (allOrNothing_iff (fresh_crsp 1)).2
    ⟨fun _ => Or.inl ⟨rfl, rfl, rfl⟩, fun _ _ _ => List.nodup_singleton _⟩

/-- A rename that fails leaves the manifest quarantined, and a repeated path is refused. -/
theorem crsp_not_allOrNothing :
    ¬AllOrNothing crspQuarantine (crspFaults true) true crspFiles (crspManifest 1) ∧
      ¬AllOrNothing crspQuarantine (crspFaults false) true crspFiles (crspManifest 2) := by
  constructor
  · intro h
    have hstatus := congrArg QuarantineManifest.validationStatus (h.nothing rfl).unchanged
    cases hstatus
  · intro h
    refine h.accepts rfl ⟨fun _ => rfl, rfl, fun _ => rfl, fun _ => rfl, rfl, rfl, rfl,
      fun _ => rfl⟩ ?_ rfl
    intro path hpath
    rw [List.eq_of_mem_replicate hpath]
    exact ⟨rfl, rfl⟩

end TradingPlatform.Data
