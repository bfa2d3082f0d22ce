import TradingPlatform.Base.Run
import TradingPlatform.Data.SnapshotStore

/-! # References into the content-addressed store

The index on disk counts the uses of the committed snapshots and, once it is saved,
those of the creation that runs; before that the creation counts in memory only, and
its new files have no entry. Every entry of the index has its file, so a creation
need not copy what has one, and the collector takes nothing that is in use.
-/

namespace TradingPlatform.Data

open Base

variable {P κ : Type*}

/-- The uses that the committed snapshots make of the store, one for each file. -/
def SnapshotStore.references (s : SnapshotStore P κ) : List String :=
  s.snapshots.rows.flatMap Snapshot.casTargets

def HasContent (sha : Sha256 κ) (files : String → Option κ) (hash : String) : Prop :=
  ∃ content, files hash = some content ∧ sha.ofFile content = hash

/-- No file of a committed snapshot is lost or about to be collected. -/
def Referenced (sha : Sha256 κ) (s : SnapshotStore P κ) : Prop :=
  ∀ snapshot ∈ s.snapshots.rows, ∀ d ∈ snapshot.datasets.rows, ∀ file ∈ d.files,
    ∀ target, file.storageMode = .cas target →
      (∃ n, s.casIndex target = some n ∧ (s.references.count target : ℤ) ≤ n) ∧
        ∃ content, s.casFiles target = some content ∧ sha.ofFile content = file.checksum

/-- Between two operations every count is the number of uses. -/
def ExactCounts (s : SnapshotStore P κ) : Prop :=
  s.creation = none → ∀ hash, s.casIndex.refs hash = s.references.count hash

/-- Neither a crash nor a release that fails. -/
def NothingLeaks : SnapshotEvent P κ → Prop
  | .crash => False
  | .cleanup released _ => released = true
  | .delete _ _ released => released = true
  | _ => True

/-- The uses that a creation has counted for datasets that it then processed again. -/
def Creation.replaced (c : Creation κ) : List String :=
  (Table.superseded DatasetSnapshot.dataset c.processed).flatMap DatasetSnapshot.casTargets

def CreateStage.isCommitting : CreateStage κ → Bool
  | .committing => true
  | _ => false

/-- What is committed has no dataset that is named again after files of it went to the store. -/
def NothingReplaced (s : SnapshotStore P κ) : SnapshotEvent P κ → Prop
  | .proceed _ _ => ∀ c ∈ s.creation, c.error = none → c.stage.isCommitting = true →
      s.snapshots.find? c.versionTag = none → c.replaced = []
  | _ => True

/-! ## What the steps keep -/

def SnapshotStore.inFlight (s : SnapshotStore P κ) : List String :=
  match s.creation with
  | some c => if c.persisted then c.added else []
  | none => []

def StoredFile.WellFormed (sha : Sha256 κ) (file : StoredFile κ) : Prop :=
  file.checksum = sha.ofFile file.content ∧
    ∀ target, file.storageMode = .cas target → target = file.checksum

/-- Every file that the creation has stored. -/
def Creation.log (c : Creation κ) : List (StoredFile κ) :=
  c.processed.flatMap DatasetSnapshot.files ++ c.stored

def CreateStage.storing : CreateStage κ → Bool
  | .reading => true
  | .copying _ => true
  | _ => false

/-- The counts in memory, against the index and the files on disk. -/
structure MemoryKept (sha : Sha256 κ) (index : RefIndex String) (files : String → Option κ)
    (c : Creation κ) : Prop where
  targets : c.added = c.log.filterMap StoredFile.casTarget
  formed : ∀ file ∈ c.log, file.WellFormed sha
  refs : c.persisted = false → ∀ memory ∈ c.casIndex, ∀ hash,
    memory.refs hash = index.refs hash + c.added.count hash
  entries : c.persisted = false → ∀ memory ∈ c.casIndex, ∀ hash,
    (memory hash).isSome → (index hash).isSome ∨ hash ∈ c.added
  unused : c.casIndex = none → c.added = []
  stored : ∀ hash ∈ c.added, HasContent sha files hash
  existing : c.persisted = false → ∀ hash, c.existing hash = (index hash).isSome
  fresh : ∀ hash ∈ c.newFiles, c.existing hash = false

/-- What the stage says about the memory. -/
structure StageKept (c : Creation κ) : Prop where
  persisted : c.persisted = true → c.stage = .committing
  committing : c.stage = .committing → c.persisted = false → c.casIndex = none
  stored : c.stage.storing = false → c.stored = []

structure CasKept (sha : Sha256 κ) (s : SnapshotStore P κ) : Prop where
  covers : s.casIndex.Covers fun hash => s.references.count hash + s.inFlight.count hash
  stored : ∀ hash, (s.casIndex hash).isSome → HasContent sha s.casFiles hash
  formed : ∀ snapshot ∈ s.snapshots.rows, ∀ d ∈ snapshot.datasets.rows, ∀ file ∈ d.files,
    file.WellFormed sha
  memory : ∀ c ∈ s.creation, MemoryKept sha s.casIndex s.casFiles c
  stage : ∀ c ∈ s.creation, StageKept c

/-- The counts with those of the creation that runs. -/
def ExactKept (s : SnapshotStore P κ) : Prop :=
  s.casIndex.Exact fun hash => s.references.count hash + s.inFlight.count hash

variable {sha : Sha256 κ} {s s' : SnapshotStore P κ} {c c' : Creation κ}
  {index : RefIndex String} {files : String → Option κ}

theorem isCommitting_iff {stage : CreateStage κ} :
    stage.isCommitting = true ↔ stage = .committing := by
  cases stage <;> simp [CreateStage.isCommitting]

theorem CasKept.covers_references (h : CasKept sha s) :
    s.casIndex.Covers fun hash => s.references.count hash :=
  h.covers.mono fun _ => Nat.le_add_right ..

theorem CasKept.referenced (h : CasKept sha s) : Referenced sha s := by
  intro snapshot hsnapshot d hd file hfile target htarget
  have hmem : target ∈ s.references := by
    refine List.mem_flatMap.mpr ⟨snapshot, hsnapshot, List.mem_flatMap.mpr ⟨d, hd, ?_⟩⟩
    refine List.mem_filterMap.mpr ⟨file, hfile, ?_⟩
    simp [StoredFile.casTarget, htarget]
  have hused := List.count_pos_iff.mpr hmem
  have hentry := h.covers_references.isSome hused
  have ⟨hchecksum, hname⟩ := h.formed snapshot hsnapshot d hd file hfile
  obtain ⟨content, hcontent, hsha⟩ := h.stored target hentry
  refine ⟨?_, content, hcontent, hsha.trans (hname target htarget)⟩
  obtain ⟨n, hn⟩ := Option.isSome_iff_exists.mp hentry
  have hcount := h.covers_references target
  rw [RefIndex.refs, hn] at hcount
  exact ⟨n, hn, hcount⟩

theorem exactKept_iff (h : s.creation = none) : ExactKept s ↔ ExactCounts s := by
  have hnone : s.inFlight = [] := by
    rw [SnapshotStore.inFlight, h]
  unfold ExactKept ExactCounts RefIndex.Exact
  simp [hnone, h]

/-- Nothing is in memory between two operations. -/
theorem casKept_idle (hcreation : s.creation = none)
    (hcovers : s.casIndex.Covers fun hash => s.references.count hash)
    (hstored : ∀ hash, (s.casIndex hash).isSome → HasContent sha s.casFiles hash)
    (hformed : ∀ snapshot ∈ s.snapshots.rows, ∀ d ∈ snapshot.datasets.rows, ∀ file ∈ d.files,
      file.WellFormed sha) : CasKept sha s := by
  refine ⟨?_, hstored, hformed, ?_, ?_⟩
  · rw [SnapshotStore.inFlight, hcreation]
    exact hcovers
  · intro c hc
    rw [hcreation] at hc
    cases hc
  · intro c hc
    rw [hcreation] at hc
    cases hc

theorem casKept_start (sources : FilePath → Option κ)
    (manifests : String → Option (FileManifest κ)) :
    CasKept sha (.start sources manifests : SnapshotStore P κ) := by
  refine casKept_idle rfl (fun _ => Int.le_refl 0) ?_ ?_
  · intro hash hentry
    cases hentry
  · intro snapshot hsnapshot
    cases hsnapshot

theorem exactKept_start (sources : FilePath → Option κ)
    (manifests : String → Option (FileManifest κ)) :
    ExactKept (.start sources manifests : SnapshotStore P κ) := fun _ => rfl

/-! ## Storing a file -/

theorem HasContent.update {content : κ} {hash : String} (hcontent : sha.ofFile content = hash)
    {hash' : String} (h : HasContent sha files hash') :
    HasContent sha (Function.update files hash (some content)) hash' := by
  by_cases hsame : hash' = hash
  · exact ⟨content, by rw [hsame, Function.update_self], hcontent.trans hsame.symm⟩
  · obtain ⟨content', hfound, hsha⟩ := h
    exact ⟨content', by rw [Function.update_of_ne hsame, hfound], hsha⟩

theorem hasContent_update {content : κ} {hash : String} (hcontent : sha.ofFile content = hash) :
    HasContent sha (Function.update files hash (some content)) hash :=
  ⟨content, Function.update_self .., hcontent⟩

/-- The memory does not depend on where the creation is. -/
theorem MemoryKept.congr (h : MemoryKept sha index files c) (hadded : c'.added = c.added)
    (hlog : c'.log = c.log) (hmemory : c'.casIndex = c.casIndex)
    (hexisting : c'.existing = c.existing) (hnew : c'.newFiles = c.newFiles)
    (hpersisted : c'.persisted = c.persisted) : MemoryKept sha index files c' := by
  refine ⟨?_, ?_, ?_, ?_, ?_, ?_, ?_, ?_⟩
  · rw [hadded, hlog]
    exact h.targets
  · rw [hlog]
    exact h.formed
  · rw [hpersisted, hmemory, hadded]
    exact h.refs
  · rw [hpersisted, hmemory, hadded]
    exact h.entries
  · rw [hmemory, hadded]
    exact h.unused
  · rw [hadded]
    exact h.stored
  · rw [hpersisted, hexisting]
    exact h.existing
  · rw [hnew, hexisting]
    exact h.fresh

theorem MemoryKept.raise (h : MemoryKept sha index files c) (error : CreateError) :
    MemoryKept sha index files (c.raise error) := h.congr rfl rfl rfl rfl rfl rfl

/-- More files do no harm. -/
theorem MemoryKept.moreFiles (h : MemoryKept sha index files c) {files' : String → Option κ}
    (hmore : ∀ hash, HasContent sha files hash → HasContent sha files' hash) :
    MemoryKept sha index files' c :=
  ⟨h.targets, h.formed, h.refs, h.entries, h.unused,
    fun hash hmem => hmore hash (h.stored hash hmem), h.existing, h.fresh⟩

theorem log_record (c : Creation κ) (file : StoredFile κ) : (c.record file).log = c.log ++ [file] :=
  (List.append_assoc ..).symm

theorem MemoryKept.copyFile (h : MemoryKept sha index files c) (path : FilePath)
    (content copied : κ) : MemoryKept sha index files (c.copyFile sha path content copied) := by
  unfold Creation.copyFile
  dsimp only
  split
  · refine ⟨?_, ?_, h.refs, h.entries, h.unused, h.stored, h.existing, h.fresh⟩
    · rw [log_record, List.filterMap_append]
      exact h.targets.trans (List.append_nil _).symm
    · rw [log_record]
      intro file hfile
      rcases List.mem_append.mp hfile with hold | hnew
      · exact h.formed file hold
      · rw [List.mem_singleton.mp hnew]
        exact ⟨rfl, fun _ hmode => by cases hmode⟩
  · exact h.raise _

/-- One more use of a file that is in the store. -/
theorem MemoryKept.acquire (h : MemoryKept sha index files c) {memory : RefIndex String}
    (hmemory : c.casIndex = some memory) (path : FilePath) {content : κ}
    (hcontent : HasContent sha files (sha.ofFile content)) :
    MemoryKept sha index files (c.acquire sha memory path content) := by
  refine ⟨?_, ?_, ?_, ?_, (fun hnone => by cases hnone), ?_, h.existing, ?_⟩
  · rw [Creation.acquire, log_record, List.filterMap_append]
    exact congrArg (· ++ _) h.targets
  · rw [Creation.acquire, log_record]
    intro file hfile
    rcases List.mem_append.mp hfile with hold | hnew
    · exact h.formed file hold
    · rw [List.mem_singleton.mp hnew]
      refine ⟨rfl, ?_⟩
      intro target htarget
      cases htarget
      rfl
  · intro hpersisted memory' hmemory' hash
    cases hmemory'
    change (memory.acquire (sha.ofFile content)).refs hash =
      index.refs hash + (c.added ++ [sha.ofFile content]).count hash
    rw [RefIndex.refs_acquire, h.refs hpersisted memory hmemory, List.count_append]
    push_cast
    exact Int.add_assoc ..
  · intro hpersisted memory' hmemory' hash hentry
    cases hmemory'
    change _ ∨ hash ∈ c.added ++ [sha.ofFile content]
    rcases (RefIndex.isSome_acquire ..).mp hentry with hsame | hold
    · exact Or.inr (by simp [hsame])
    · rcases h.entries hpersisted memory hmemory hash hold with hdisk | hadded
      · exact Or.inl hdisk
      · exact Or.inr (List.mem_append_left _ hadded)
  · intro hash hmem
    rcases List.mem_append.mp hmem with hold | hnew
    · exact h.stored hash hold
    · rw [List.mem_singleton.mp hnew]
      exact hcontent
  · intro hash hmem
    change hash ∈ (if _ then _ else _) at hmem
    split at hmem
    · exact h.fresh hash hmem
    · rename_i hexisting
      rcases List.mem_append.mp hmem with hold | hnew
      · exact h.fresh hash hold
      · rw [List.mem_singleton.mp hnew]
        exact Bool.eq_false_iff.mpr hexisting

/-- A file is stored without a loss to the others. -/
theorem memoryKept_storeFile (h : MemoryKept sha index files c)
    (hstored : ∀ hash, (index hash).isSome → HasContent sha files hash)
    (hpersisted : c.persisted = false) (answer : CasAnswer) (path : FilePath)
    (content copied : κ) :
    (∀ hash, HasContent sha files hash →
        HasContent sha (c.storeFile sha files answer path content copied).1 hash) ∧
      MemoryKept sha index (c.storeFile sha files answer path content copied).1
        (c.storeFile sha files answer path content copied).2 := by
  unfold Creation.storeFile
  dsimp only
  split
  · exact ⟨fun _ hcontent => hcontent, h.copyFile path content copied⟩
  · rename_i memory hmemory
    split
    · rename_i hentry
      refine ⟨fun _ hcontent => hcontent, h.acquire hmemory path ?_⟩
      rcases h.entries hpersisted memory hmemory _ hentry with hdisk | hadded
      · exact hstored _ hdisk
      · exact h.stored _ hadded
    · split
      · exact ⟨fun _ hcontent => hcontent, h.copyFile path content copied⟩
      · split
        · rename_i hsame
          have hmore := fun hash (hcontent : HasContent sha files hash) => hcontent.update hsame
          exact ⟨hmore, (h.moreFiles hmore).acquire hmemory path (hasContent_update hsame)⟩
        · exact ⟨fun _ hcontent => hcontent, h.raise _⟩
      · split
        · rename_i hsame
          have hmore := fun hash (hcontent : HasContent sha files hash) => hcontent.update hsame
          exact ⟨hmore, (h.moreFiles hmore).copyFile path content copied⟩
        · exact ⟨fun _ hcontent => hcontent, h.raise _⟩

/-! ## Steps of a creation -/

theorem CasKept.unpersisted (h : CasKept sha s) (hcreation : s.creation = some c)
    (hstage : c.stage ≠ .committing) : c.persisted = false := by
  cases hpersisted : c.persisted with
  | false => rfl
  | true => exact absurd ((h.stage c hcreation).persisted hpersisted) hstage

theorem inFlight_unpersisted (hcreation : s.creation = some c) (hpersisted : c.persisted = false) :
    s.inFlight = [] := by
  simp [SnapshotStore.inFlight, hcreation, hpersisted]

/-- A creation that has counted in memory only. -/
theorem casKept_creation (h : CasKept sha s) (hcreation : s.creation = some c)
    (hpersisted : c.persisted = false) (hpersisted' : c'.persisted = false)
    (hmore : ∀ hash, HasContent sha s.casFiles hash → HasContent sha files hash)
    (hmemory : MemoryKept sha s.casIndex files c') (hstage : StageKept c') :
    CasKept sha { s with casFiles := files, creation := some c' } := by
  refine ⟨?_, fun hash hentry => hmore hash (h.stored hash hentry), h.formed, ?_, ?_⟩
  · have hcovers := h.covers
    rw [inFlight_unpersisted hcreation hpersisted] at hcovers
    rw [inFlight_unpersisted rfl hpersisted']
    exact hcovers
  · intro c'' hc
    cases hc
    exact hmemory
  · intro c'' hc
    cases hc
    exact hstage

theorem exactKept_creation (hcreation : s.creation = some c) (hpersisted : c.persisted = false)
    (hpersisted' : c'.persisted = false) (h : ExactKept s) :
    ExactKept { s with casFiles := files, creation := some c' } := by
  unfold ExactKept at h ⊢
  rw [inFlight_unpersisted hcreation hpersisted] at h
  rw [inFlight_unpersisted rfl hpersisted']
  exact h

def CreateStage.saving : CreateStage κ → Bool
  | .persisting => true
  | .committing => true
  | _ => false

theorem StageKept.raise (h : StageKept c) (error : CreateError) : StageKept (c.raise error) :=
  ⟨h.persisted, h.committing, h.stored⟩

/-- A creation that is to read or store a file next. -/
theorem stageKept_storing (hpersisted : c.persisted = false) (hstage : c.stage.storing = true) :
    StageKept c := by
  refine ⟨?_, ?_, ?_⟩
  · intro htrue
    rw [hpersisted] at htrue
    cases htrue
  · intro hcommitting
    rw [hcommitting] at hstage
    cases hstage
  · intro hidle
    rw [hidle] at hstage
    cases hstage

/-- A creation between two datasets or after the last one. -/
theorem stageKept_between (hpersisted : c.persisted = false) (hstage : c.stage ≠ .committing)
    (hstored : c.stored = []) : StageKept c := by
  refine ⟨?_, ?_, fun _ => hstored⟩
  · intro htrue
    rw [hpersisted] at htrue
    cases htrue
  · intro hcommitting
    exact absurd hcommitting hstage

theorem stageKept_copyFile (hpersisted : c.persisted = false) (hstage : StageKept c)
    (path : FilePath) (content copied : κ) : StageKept (c.copyFile sha path content copied) := by
  unfold Creation.copyFile
  dsimp only
  split
  · exact stageKept_storing hpersisted rfl
  · exact hstage.raise _

theorem stageKept_storeFile (hpersisted : c.persisted = false) (hstage : StageKept c)
    (answer : CasAnswer) (path : FilePath) (content copied : κ) :
    StageKept (c.storeFile sha files answer path content copied).2 := by
  unfold Creation.storeFile
  dsimp only
  split
  · exact stageKept_copyFile hpersisted hstage path content copied
  · split
    · exact stageKept_storing hpersisted rfl
    · split
      · exact stageKept_copyFile hpersisted hstage path content copied
      · split
        · exact stageKept_storing hpersisted rfl
        · exact hstage.raise _
      · split
        · exact stageKept_copyFile hpersisted hstage path content copied
        · exact hstage.raise _

theorem persisted_copyFile (path : FilePath) (content copied : κ) :
    (c.copyFile sha path content copied).persisted = c.persisted := by
  unfold Creation.copyFile
  dsimp only
  split <;> rfl

theorem persisted_storeFile (answer : CasAnswer) (path : FilePath) (content copied : κ) :
    (c.storeFile sha files answer path content copied).2.persisted = c.persisted := by
  unfold Creation.storeFile
  dsimp only
  split
  · exact persisted_copyFile path content copied
  · split
    · rfl
    · split
      · exact persisted_copyFile path content copied
      · split <;> rfl
      · split
        · exact persisted_copyFile path content copied
        · rfl

/-- Up to the save of the index, a creation adds files to the store and counts in memory. -/
theorem proceed_spec (h : CasKept sha s) (hcreation : s.creation = some c)
    (hstage : c.stage.saving = false) (answer : CasAnswer) (now : ℤ) :
    ∃ files' c', s.proceed sha c answer now = { s with casFiles := files', creation := some c' } ∧
      (∀ hash, HasContent sha s.casFiles hash → HasContent sha files' hash) ∧
      MemoryKept sha s.casIndex files' c' ∧ StageKept c' ∧ c'.persisted = false := by
  have hmemory := h.memory c hcreation
  have hkept := h.stage c hcreation
  have hpersisted : c.persisted = false := by
    apply h.unpersisted hcreation
    intro hcommitting
    rw [hcommitting] at hstage
    cases hstage
  have hsame := fun (hash : String) (hcontent : HasContent sha s.casFiles hash) => hcontent
  unfold SnapshotStore.proceed
  cases hcase : c.stage with
  | persisting =>
      rw [hcase] at hstage
      cases hstage
  | committing =>
      rw [hcase] at hstage
      cases hstage
  | nextDataset =>
      have hstored := hkept.stored (by rw [hcase]; rfl)
      have hlog : c.startDataset.log = c.log := by
        unfold Creation.startDataset Creation.log
        split
        · rfl
        · split
          · rfl
          · rw [hstored]
      refine ⟨s.casFiles, c.startDataset, rfl, hsame, ?_, ?_, ?_⟩
      · refine hmemory.congr ?_ hlog ?_ ?_ ?_ ?_ <;> unfold Creation.startDataset <;>
          split <;> first | rfl | (split <;> rfl)
      · unfold Creation.startDataset
        split
        · exact stageKept_between hpersisted (fun hstage => by cases hstage) hstored
        · split
          · exact hkept
          · exact stageKept_storing hpersisted rfl
      · unfold Creation.startDataset
        split
        · exact hpersisted
        · split <;> exact hpersisted
  | reading =>
      dsimp only
      split
      · refine ⟨s.casFiles, _, rfl, hsame, ?_, ?_, hpersisted⟩
        · refine hmemory.congr rfl ?_ rfl rfl rfl rfl
          simp [Creation.log]
        · exact stageKept_between hpersisted (fun hstage => by cases hstage) rfl
      · split
        · refine ⟨s.casFiles, _, rfl, hsame, hmemory.congr rfl rfl rfl rfl rfl rfl, ?_, hpersisted⟩
          exact stageKept_storing hpersisted rfl
        · exact ⟨s.casFiles, _, rfl, hsame, hmemory.raise _, hkept.raise _, hpersisted⟩
  | copying content =>
      dsimp only
      split
      · exact ⟨s.casFiles, c, by rw [← hcreation], hsame, hmemory, hkept, hpersisted⟩
      · rename_i path _ _
        split
        · exact ⟨s.casFiles, _, rfl, hsame, hmemory.raise _, hkept.raise _, hpersisted⟩
        · rename_i copied _
          have ⟨hmore, hstored⟩ :=
            memoryKept_storeFile hmemory h.stored hpersisted answer path content copied
          refine ⟨_, _, rfl, hmore, hstored, ?_, ?_⟩
          · exact stageKept_storeFile hpersisted hkept answer path content copied
          · exact (persisted_storeFile answer path content copied).trans hpersisted
  | checking versions =>
      have hstored := hkept.stored (by rw [hcase]; rfl)
      cases versions with
      | nil =>
          refine ⟨s.casFiles, _, rfl, hsame, hmemory.congr rfl rfl rfl rfl rfl rfl, ?_, hpersisted⟩
          exact stageKept_between hpersisted (fun hstage => by cases hstage) hstored
      | cons pin versions =>
          dsimp only
          split
          · refine ⟨s.casFiles, _, rfl, hsame, hmemory.congr rfl rfl rfl rfl rfl rfl, ?_,
              hpersisted⟩
            exact stageKept_between hpersisted (fun hstage => by cases hstage) hstored
          · exact ⟨s.casFiles, _, rfl, hsame, hmemory.raise _, hkept.raise _, hpersisted⟩

theorem casKept_raise (h : CasKept sha s) (hcreation : s.creation = some c) (error : CreateError) :
    CasKept sha { s with creation := some (c.raise error) } ∧
      (ExactKept s → ExactKept { s with creation := some (c.raise error) }) := by
  have hflight : ({ s with creation := some (c.raise error) } : SnapshotStore P κ).inFlight =
      s.inFlight := by
    rw [SnapshotStore.inFlight, SnapshotStore.inFlight, hcreation]
    rfl
  refine ⟨⟨?_, h.stored, h.formed, ?_, ?_⟩, ?_⟩
  · rw [hflight]
    exact h.covers
  · intro c' hc
    cases hc
    exact (h.memory c hcreation).raise error
  · intro c' hc
    cases hc
    exact (h.stage c hcreation).raise error
  · intro hexact
    unfold ExactKept
    rw [hflight]
    exact hexact

/-- The counts in memory become those on disk. -/
theorem casKept_persist (h : CasKept sha s) (hcreation : s.creation = some c)
    (hstage : c.stage = .persisting) (answer : CasAnswer) (now : ℤ) :
    CasKept sha (s.proceed sha c answer now) ∧
      (ExactKept s → ExactKept (s.proceed sha c answer now)) := by
  have hmemory := h.memory c hcreation
  have hkept := h.stage c hcreation
  have hpersisted := h.unpersisted hcreation (by rw [hstage]; exact fun he => by cases he)
  have hstored := hkept.stored (by rw [hstage]; rfl)
  have hcovers := h.covers_references
  unfold SnapshotStore.proceed
  simp only [hstage]
  split
  case h_2 hindex =>
      have hnext : StageKept { c with stage := CreateStage.committing } := by
        exact ⟨fun _ => rfl, fun _ _ => hindex, fun _ => hstored⟩
      have hsame :
          MemoryKept sha s.casIndex s.casFiles { c with stage := CreateStage.committing } :=
        hmemory.congr rfl rfl rfl rfl rfl rfl
      exact ⟨casKept_creation h hcreation hpersisted hpersisted (fun _ hcontent => hcontent) hsame
        hnext, exactKept_creation hcreation hpersisted hpersisted⟩
  case h_1 index hindex =>
      have hrefs := hmemory.refs hpersisted index hindex
      refine ⟨⟨?_, ?_, h.formed, ?_, ?_⟩, ?_⟩
      · intro hash
        change ((s.references.count hash + c.added.count hash : ℕ) : ℤ) ≤ index.refs hash
        have hcovers : (s.references.count hash : ℤ) ≤ s.casIndex.refs hash := hcovers hash
        rw [hrefs hash]
        push_cast
        omega
      · intro hash hentry
        rcases hmemory.entries hpersisted index hindex hash hentry with hdisk | hadded
        · exact h.stored hash hdisk
        · exact hmemory.stored hash hadded
      · intro c' hc
        cases hc
        refine ⟨hmemory.targets, hmemory.formed, fun hfalse => (by cases hfalse),
          fun hfalse => (by cases hfalse), ?_, hmemory.stored, fun hfalse => (by cases hfalse),
          hmemory.fresh⟩
        intro hnone
        exact hmemory.unused hnone
      · intro c' hc
        cases hc
        exact ⟨fun _ => rfl, (fun _ hfalse => by cases hfalse), fun _ => hstored⟩
      · intro hexact hash
        change index.refs hash = ((s.references.count hash + c.added.count hash : ℕ) : ℤ)
        have hexact := hexact hash
        rw [inFlight_unpersisted hcreation hpersisted] at hexact
        rw [hrefs hash, hexact]
        push_cast
        simp

/-- At the commit the index on disk has the uses of the creation. -/
theorem inFlight_committing (h : CasKept sha s) (hcreation : s.creation = some c)
    (hstage : c.stage = .committing) :
    s.inFlight = c.processed.flatMap DatasetSnapshot.casTargets := by
  have hkept := h.stage c hcreation
  have hmemory := h.memory c hcreation
  have hadded : c.added = c.processed.flatMap DatasetSnapshot.casTargets := by
    rw [hmemory.targets, Creation.log, hkept.stored (by rw [hstage]; rfl), List.append_nil,
      List.filterMap_flatMap]
    rfl
  rw [SnapshotStore.inFlight, hcreation, ← hadded]
  dsimp only
  split
  · rfl
  · rename_i hfalse
    rw [hmemory.unused (hkept.committing hstage (Bool.eq_false_iff.mpr hfalse))]

theorem references_insert {snapshots : Table String (Snapshot κ) Snapshot.versionTag}
    {snapshot : Snapshot κ} (h : s.snapshots.insert snapshot = some snapshots) :
    ({ s with snapshots, creation := none } : SnapshotStore P κ).references =
      s.references ++ snapshot.casTargets := by
  simp [SnapshotStore.references, Table.insert_rows h]

/-- What the creation has counted is what its snapshot uses and what it has replaced. -/
theorem count_processed (c : Creation κ) (now : ℤ) (hash : String) :
    (c.processed.flatMap DatasetSnapshot.casTargets).count hash =
      (c.snapshot sha now).casTargets.count hash + c.replaced.count hash := by
  have hrows : c.processed.Perm ((c.snapshot sha now).datasets.rows ++
      Table.superseded DatasetSnapshot.dataset c.processed) := Table.perm_ofList c.processed
  have hperm := hrows.flatMap_right DatasetSnapshot.casTargets
  rw [hperm.count_eq, List.flatMap_append, List.count_append]
  rfl

theorem casKept_commit (h : CasKept sha s) (hcreation : s.creation = some c)
    (hstage : c.stage = .committing) {now : ℤ}
    {snapshots : Table String (Snapshot κ) Snapshot.versionTag}
    (hinsert : s.snapshots.insert (c.snapshot sha now) = some snapshots) :
    CasKept sha { s with snapshots, creation := none } ∧
      (ExactKept s →
        (ExactKept { s with snapshots, creation := none } ↔ c.replaced = [])) := by
  have hmemory := h.memory c hcreation
  have hbefore := inFlight_committing h hcreation hstage
  have hafter : ∀ hash, (s.references.count hash + s.inFlight.count hash : ℕ) =
      ({ s with snapshots, creation := none } : SnapshotStore P κ).references.count hash +
        c.replaced.count hash := by
    intro hash
    rw [hbefore, references_insert hinsert, List.count_append, count_processed c now, Nat.add_assoc]
  refine ⟨casKept_idle rfl ?_ h.stored ?_, ?_⟩
  · apply h.covers.mono
    intro hash
    rw [hafter hash]
    exact Nat.le_add_right ..
  · intro snapshot hsnapshot d hd file hfile
    rw [Table.mem_insert hinsert] at hsnapshot
    rcases hsnapshot with hold | rfl
    · exact h.formed snapshot hold d hd file hfile
    · apply hmemory.formed
      exact List.mem_append_left _
        (List.mem_flatMap.mpr ⟨d, Table.mem_ofList hd, hfile⟩)
  · intro hexact
    constructor
    · intro hnext
      rw [List.eq_nil_iff_forall_not_mem]
      intro hash hmem
      have hcount := List.count_pos_iff.mpr hmem
      have hold := (hexact hash).trans (congrArg Nat.cast (hafter hash))
      have hnew := hold.symm.trans (hnext hash)
      change ((_ : ℕ) : ℤ) = ((_ + 0 : ℕ) : ℤ) at hnew
      omega
    · intro hreplaced hash
      have hold := (hexact hash).trans (congrArg Nat.cast (hafter hash))
      rw [hreplaced] at hold
      exact hold

/-- The references in memory go, and those on disk are released if they are there. -/
theorem casKept_cleanup (h : CasKept sha s) (hcreation : s.creation = some c) (released : Bool)
    (stuck : String → Bool) (error : CreateError) :
    CasKept sha { s.cleanup c released stuck with
      creation := none, raised := s.raised ++ [error] } := by
  have hmemory := h.memory c hcreation
  unfold SnapshotStore.cleanup
  split
  · rename_i hpersisted
    have hcovers := h.covers
    rw [SnapshotStore.inFlight, hcreation] at hcovers
    simp only [hpersisted, if_true] at hcovers
    refine casKept_idle rfl ?_ ?_ h.formed
    · change RefIndex.Covers (if _ then _ else _) _
      split
      · exact hcovers.releaseAll
      · exact h.covers_references
    · intro hash hentry
      apply h.stored hash
      change (((if _ then _ else _ : RefIndex String) hash).isSome = true) at hentry
      split at hentry
      · rwa [RefIndex.isSome_releaseAll] at hentry
      · exact hentry
  · rename_i hpersisted
    refine casKept_idle rfl h.covers_references ?_ h.formed
    intro hash hentry
    obtain ⟨content, hfound, hsha⟩ := h.stored hash hentry
    refine ⟨content, ?_, hsha⟩
    have hold : hash ∉ c.newFiles := by
      intro hmem
      have hfresh := hmemory.fresh hash hmem
      rw [hmemory.existing (Bool.eq_false_iff.mpr hpersisted)] at hfresh
      exact absurd hentry (Bool.eq_false_iff.mp hfresh)
    change (if _ then _ else _) = _
    rw [if_neg fun hnew => hold hnew.1]
    exact hfound

theorem exactKept_cleanup (hcreation : s.creation = some c) (stuck : String → Bool)
    (error : CreateError) (h : ExactKept s) :
    ExactKept { s.cleanup c true stuck with
      creation := none, raised := s.raised ++ [error] } := by
  unfold ExactKept at h
  rw [SnapshotStore.inFlight, hcreation] at h
  unfold SnapshotStore.cleanup
  cases hpersisted : c.persisted with
  | true =>
      simp only [hpersisted, if_true] at h ⊢
      exact h.releaseAll
  | false =>
      simp only [hpersisted] at h ⊢
      exact h

/-! ## Deletion and collection -/

theorem references_delete {versionTag : String} {snapshot : Snapshot κ}
    (hfound : s.snapshots.find? versionTag = some snapshot) (hash : String) :
    s.references.count hash =
      ((s.snapshots.delete versionTag).rows.flatMap Snapshot.casTargets).count hash +
        snapshot.casTargets.count hash := by
  have hperm := (Table.perm_delete hfound).flatMap_right Snapshot.casTargets
  rw [SnapshotStore.references, hperm.count_eq, List.flatMap_cons, List.count_append, Nat.add_comm]

theorem casKept_delete (h : CasKept sha s) (hcreation : s.creation = none) (versionTag : String)
    (force released : Bool) :
    CasKept sha (s.deleteSnapshot versionTag force released) ∧
      (released = true → ExactKept s → ExactKept (s.deleteSnapshot versionTag force released)) := by
  have hidle : s.inFlight = [] := by
    rw [SnapshotStore.inFlight, hcreation]
  unfold SnapshotStore.deleteSnapshot
  split
  · exact ⟨h, fun _ hexact => hexact⟩
  · rename_i snapshot hfound
    split
    · exact ⟨h, fun _ hexact => hexact⟩
    · have hcount := references_delete hfound
      have hafter : ∀ index, ({ s with
          snapshots := s.snapshots.delete versionTag, casIndex := index } :
          SnapshotStore P κ).inFlight = [] := fun _ => hidle
      have hcovers : s.casIndex.Covers fun hash =>
          ((s.snapshots.delete versionTag).rows.flatMap Snapshot.casTargets).count hash +
            snapshot.casTargets.count hash :=
        h.covers_references.mono fun hash => Nat.le_of_eq (hcount hash).symm
      refine ⟨casKept_idle hcreation ?_ ?_ ?_, ?_⟩
      · change RefIndex.Covers (if _ then _ else _) _
        split
        · exact hcovers.releaseAll
        · exact hcovers.mono fun _ => Nat.le_add_right ..
      · intro hash hentry
        apply h.stored hash
        change (((if _ then _ else _ : RefIndex String) hash).isSome = true) at hentry
        split at hentry
        · rwa [RefIndex.isSome_releaseAll] at hentry
        · exact hentry
      · intro other hother
        exact h.formed other (List.mem_of_mem_filter hother)
      · intro hreleased hexact
        unfold ExactKept at hexact ⊢
        rw [hafter]
        simp only [hidle, hreleased, if_true] at hexact ⊢
        have hexact : s.casIndex.Exact fun hash =>
            ((s.snapshots.delete versionTag).rows.flatMap Snapshot.casTargets).count hash +
              snapshot.casTargets.count hash :=
          fun hash => (hexact hash).trans (congrArg Nat.cast (hcount hash))
        exact hexact.releaseAll

theorem casKept_gc (h : CasKept sha s) (hcreation : s.creation = none) (stuck : String → Bool) :
    CasKept sha (s.gcCas stuck) ∧ (ExactKept s → ExactKept (s.gcCas stuck)) := by
  refine ⟨casKept_idle hcreation h.covers_references.sweep ?_ h.formed,
    fun hexact => hexact.sweep⟩
  intro hash hentry
  obtain ⟨content, hfound, hsha⟩ := h.stored hash (RefIndex.isSome_of_sweep hentry)
  refine ⟨content, ?_, hsha⟩
  change (if _ then _ else _) = _
  rw [if_neg, hfound]
  intro hgone
  change (s.casIndex.sweep hash).isSome = true at hentry
  rw [hgone.1] at hentry
  cases hentry

/-! ## Runs -/

theorem casKept_congr (h : CasKept sha s) (hindex : s'.casIndex = s.casIndex)
    (hfiles : s'.casFiles = s.casFiles) (hsnapshots : s'.snapshots = s.snapshots)
    (hcreation : s'.creation = s.creation) :
    CasKept sha s' ∧ (ExactKept s → ExactKept s') := by
  have hreferences : s'.references = s.references := by
    rw [SnapshotStore.references, hsnapshots]
    rfl
  have hflight : s'.inFlight = s.inFlight := by
    rw [SnapshotStore.inFlight, hcreation]
    rfl
  refine ⟨⟨?_, ?_, ?_, ?_, ?_⟩, ?_⟩
  · rw [hindex, hreferences, hflight]
    exact h.covers
  · rw [hindex, hfiles]
    exact h.stored
  · rw [hsnapshots]
    exact h.formed
  · rw [hcreation, hindex, hfiles]
    exact h.memory
  · rw [hcreation]
    exact h.stage
  · intro hexact
    rw [ExactKept, hindex, hreferences, hflight]
    exact hexact

theorem casKept_save (h : CasKept sha s) (dataset : String) (paths : List FilePath) :
    CasKept sha (s.saveManifest sha dataset paths) ∧
      (ExactKept s → ExactKept (s.saveManifest sha dataset paths)) := by
  unfold SnapshotStore.saveManifest
  split
  · exact ⟨h, id⟩
  · split
    · exact ⟨h, id⟩
    · dsimp only
      split <;> exact casKept_congr h rfl rfl rfl rfl

theorem casKept_rollback (h : CasKept sha s) (dataset : String) :
    CasKept sha (s.rollback dataset) ∧ (ExactKept s → ExactKept (s.rollback dataset)) := by
  unfold SnapshotStore.rollback
  split
  · exact ⟨h, id⟩
  · split
    · split
      · exact casKept_congr h rfl rfl rfl rfl
      · exact ⟨h, id⟩
    · exact ⟨h, id⟩

/-- A backtest that refers to a snapshot leaves its files as they are. -/
theorem casKept_link (h : CasKept sha s) (hcreation : s.creation = none)
    (backtestId versionTag : String) :
    CasKept sha (s.linkBacktest backtestId versionTag) ∧
      (ExactKept s → ExactKept (s.linkBacktest backtestId versionTag)) := by
  have hreferences : (s.linkBacktest backtestId versionTag).references = s.references := by
    change List.flatMap _ (List.map _ _) = _
    rw [List.flatMap_map]
    apply List.flatMap_congr
    intro snapshot _
    dsimp only
    split <;> rfl
  refine ⟨casKept_idle hcreation ?_ h.stored ?_, ?_⟩
  · rw [hreferences]
    exact h.covers_references
  · intro snapshot hsnapshot
    change snapshot ∈ List.map _ _ at hsnapshot
    obtain ⟨old, hold, rfl⟩ := List.mem_map.mp hsnapshot
    have hformed := h.formed old hold
    dsimp only
    split <;> exact hformed
  · intro hexact
    unfold ExactKept
    rw [hreferences]
    exact hexact

/-- A commit is the only step at which an exact count can become too high. -/
theorem casKept_proceed (h : CasKept sha s) (hcreation : s.creation = some c)
    (herror : c.error = none) (answer : CasAnswer) (now : ℤ) :
    CasKept sha (s.proceed sha c answer now) ∧
      (ExactKept s → (ExactKept (s.proceed sha c answer now) ↔
        NothingReplaced s (.proceed answer now : SnapshotEvent P κ))) := by
  have hcondition : (NothingReplaced s (.proceed answer now : SnapshotEvent P κ)) ↔
      (c.stage = .committing → s.snapshots.find? c.versionTag = none → c.replaced = []) := by
    rw [← isCommitting_iff]
    constructor
    · exact fun hall => hall c hcreation herror
    · intro hall c' hc _
      rw [hcreation] at hc
      cases hc
      exact hall
  rw [hcondition]
  cases hsaving : c.stage.saving with
  | false =>
      have hstage : c.stage ≠ .committing := by
        intro hcommitting
        rw [hcommitting] at hsaving
        cases hsaving
      have hpersisted := h.unpersisted hcreation hstage
      obtain ⟨files', c', hnext, hmore, hmemory, hkept, hpersisted'⟩ :=
        proceed_spec h hcreation hsaving answer now
      rw [hnext]
      refine ⟨casKept_creation h hcreation hpersisted hpersisted' hmore hmemory hkept, ?_⟩
      intro hexact
      exact iff_of_true (exactKept_creation hcreation hpersisted hpersisted' hexact)
        fun hcommitting => absurd hcommitting hstage
  | true =>
      cases hstage : c.stage with
      | persisting =>
          obtain ⟨hkept, hexact⟩ := casKept_persist h hcreation hstage answer now
          exact ⟨hkept, fun hbefore => iff_of_true (hexact hbefore) fun hno => by cases hno⟩
      | committing =>
          simp only [SnapshotStore.proceed, hstage]
          split
          · rename_i snapshots hinsert
            obtain ⟨hkept, hexact⟩ := casKept_commit h hcreation hstage hinsert
            have hfree : s.snapshots.find? c.versionTag = none := by
              by_contra htaken
              have hnone : s.snapshots.insert (c.snapshot sha now) = none :=
                Table.insert_eq_none_iff_find?.mpr htaken
              rw [hinsert] at hnone
              cases hnone
            refine ⟨hkept, fun hbefore => (hexact hbefore).trans ?_⟩
            exact ⟨fun hreplaced _ _ => hreplaced, fun hall => hall trivial hfree⟩
          · rename_i hinsert
            have htaken : s.snapshots.find? c.versionTag ≠ none :=
              Table.insert_eq_none_iff_find?.mp hinsert
            obtain ⟨hkept, hexact⟩ := casKept_raise h hcreation .os
            refine ⟨hkept, fun hbefore => iff_of_true (hexact hbefore) ?_⟩
            exact fun _ hfree => absurd hfree htaken
      | nextDataset =>
          rw [hstage] at hsaving
          cases hsaving
      | reading =>
          rw [hstage] at hsaving
          cases hsaving
      | copying content =>
          rw [hstage] at hsaving
          cases hsaving
      | checking versions =>
          rw [hstage] at hsaving
          cases hsaving

variable [DecidableEq P]

theorem casKept_takeLock (h : CasKept sha s) (p : P) :
    CasKept sha (s.takeLock p) ∧ (ExactKept s → ExactKept (s.takeLock p)) := by
  unfold SnapshotStore.takeLock
  split
  · rename_i pinning hcreation hpinning
    split
    · have hidle : s.inFlight = [] := by
        rw [SnapshotStore.inFlight, hcreation]
      refine ⟨⟨h.covers_references, h.stored, h.formed, ?_, ?_⟩, ?_⟩
      · intro c hc
        cases hc
        refine ⟨rfl, ?_, ?_, ?_, fun _ => rfl, ?_, fun _ _ => rfl, ?_⟩
        · intro file hfile
          cases hfile
        · intro _ memory hmemory hash
          change memory ∈ (if _ then _ else _) at hmemory
          split at hmemory
          · cases hmemory
            exact (Int.add_zero _).symm
          · cases hmemory
        · intro _ memory hmemory hash hentry
          change memory ∈ (if _ then _ else _) at hmemory
          split at hmemory
          · cases hmemory
            exact Or.inl hentry
          · cases hmemory
        · intro hash hmem
          cases hmem
        · intro hash hmem
          cases hmem
      · intro c hc
        cases hc
        exact stageKept_between rfl (fun hstage => by cases hstage) rfl
      · intro hexact
        unfold ExactKept at hexact
        rw [hidle] at hexact
        exact hexact
    · exact ⟨h, id⟩
  · exact ⟨h, id⟩

theorem casKept_pinNext (h : CasKept sha s) (p : P) :
    CasKept sha (s.pinNext p) ∧ (ExactKept s → ExactKept (s.pinNext p)) := by
  unfold SnapshotStore.pinNext
  split
  · exact ⟨h, id⟩
  · split
    · exact ⟨h, id⟩
    · split <;> exact casKept_congr h rfl rfl rfl rfl

theorem casKept_step (h : CasKept sha s) (a : SnapshotEvent P κ) :
    CasKept sha (snapshotStep sha s a) ∧
      (NothingLeaks a → ExactKept s →
        (ExactKept (snapshotStep sha s a) ↔ NothingReplaced s a)) := by
  have hcarry : ∀ {s' : SnapshotStore P κ} {a : SnapshotEvent P κ},
      CasKept sha s' ∧ (ExactKept s → ExactKept s') → NothingReplaced s a →
        CasKept sha s' ∧ (NothingLeaks a → ExactKept s → (ExactKept s' ↔ NothingReplaced s a)) :=
    fun hstep hnothing => ⟨hstep.1, fun _ hexact => iff_of_true (hstep.2 hexact) hnothing⟩
  cases a with
  | write path content => exact hcarry (casKept_congr h rfl rfl rfl rfl) trivial
  | save dataset paths => exact hcarry (casKept_save h dataset paths) trivial
  | rollback dataset => exact hcarry (casKept_rollback h dataset) trivial
  | request p versionTag datasets useCas =>
      refine hcarry ?_ trivial
      simp only [snapshotStep]
      split
      · exact ⟨h, id⟩
      · exact casKept_congr h rfl rfl rfl rfl
  | pin p => exact hcarry (casKept_pinNext h p) trivial
  | lock p => exact hcarry (casKept_takeLock h p) trivial
  | proceed answer now =>
      simp only [snapshotStep]
      split
      · rename_i c hcreation
        split
        · rename_i herror
          obtain ⟨hkept, hexact⟩ := casKept_proceed h hcreation herror answer now
          exact ⟨hkept, fun _ => hexact⟩
        · rename_i herror
          refine hcarry ⟨h, id⟩ ?_
          intro c' hc hnone
          rw [hcreation] at hc
          cases hc
          exact absurd hnone herror
      · rename_i hcreation
        refine hcarry ⟨h, id⟩ ?_
        intro c' hc
        rw [hcreation] at hc
        cases hc
  | fail error =>
      refine hcarry ?_ trivial
      simp only [snapshotStep]
      split
      · rename_i c hcreation
        split
        · exact casKept_raise h hcreation error
        · exact ⟨h, id⟩
      · exact ⟨h, id⟩
  | cleanup released stuck =>
      simp only [snapshotStep]
      split
      · rename_i c hcreation
        split
        · rename_i error _
          refine ⟨casKept_cleanup h hcreation released stuck error, ?_⟩
          intro hreleased hexact
          cases hreleased
          exact iff_of_true (exactKept_cleanup hcreation stuck error hexact) trivial
        · exact hcarry ⟨h, id⟩ trivial
      · exact hcarry ⟨h, id⟩ trivial
  | crash =>
      refine ⟨casKept_idle rfl h.covers_references h.stored h.formed, fun hno => ?_⟩
      cases hno
  | delete versionTag force released =>
      simp only [snapshotStep]
      split
      · exact hcarry ⟨h, id⟩ trivial
      · rename_i hcreation
        obtain ⟨hkept, hexact⟩ := casKept_delete h hcreation versionTag force released
        exact ⟨hkept, fun hreleased hbefore => iff_of_true (hexact hreleased hbefore) trivial⟩
  | gc stuck =>
      refine hcarry ?_ trivial
      simp only [snapshotStep]
      split
      · exact ⟨h, id⟩
      · rename_i hcreation
        exact casKept_gc h hcreation stuck
  | link backtestId versionTag =>
      refine hcarry ?_ trivial
      simp only [snapshotStep]
      split
      · exact ⟨h, id⟩
      · rename_i hcreation
        exact casKept_link h hcreation backtestId versionTag

/-- What replaces something in use is a commit, after which nothing runs. -/
theorem idle_of_replaced {a : SnapshotEvent P κ} (h : ¬NothingReplaced s a) :
    (snapshotStep sha s a).creation = none := by
  cases a with
  | proceed answer now =>
      simp only [NothingReplaced, not_forall] at h
      obtain ⟨c, hcreation, herror, hcommitting, hfree, -⟩ := h
      have hcreation : s.creation = some c := hcreation
      rw [isCommitting_iff] at hcommitting
      simp only [snapshotStep, hcreation, if_pos herror, SnapshotStore.proceed, hcommitting]
      split
      · rfl
      · rename_i hinsert
        exact absurd hfree (Table.insert_eq_none_iff_find?.mp hinsert)
  | _ => exact absurd trivial h

/-- In every run, crashes and failures at any step included, what the committed snapshots use is
in the store under a count that is high enough. In a run without a crash or a failing release the
counts are exact throughout just if no commit drops a dataset that it has counted. -/
theorem references_kept_and_exact_iff (sha : Sha256 κ) (sources : FilePath → Option κ)
    (manifests : String → Option (FileManifest κ)) (events : List (SnapshotEvent P κ)) :
    EveryState (snapshotStep sha) (Referenced sha) (.start sources manifests) events ∧
      ((∀ a ∈ events, NothingLeaks a) →
        (EveryState (snapshotStep sha) ExactCounts (.start sources manifests) events ↔
          EachStep (snapshotStep sha) NothingReplaced (.start sources manifests) events)) := by
  have hstart : CasKept sha (.start sources manifests : SnapshotStore P κ) :=
    casKept_start sources manifests
  constructor
  · have hkept : EveryState (snapshotStep sha) (CasKept sha) (.start sources manifests) events :=
      everyState_of_step (fun _ a h => (casKept_step h a).1) events hstart
    exact hkept.mono fun _ h => h.referenced
  · intro hleaks
    have hexact : ∀ (s : SnapshotStore P κ) (a : SnapshotEvent P κ),
        CasKept sha s ∧ (ExactCounts s → ExactKept s) → NothingLeaks a → ExactCounts s →
          (ExactCounts (snapshotStep sha s a) → ExactKept (snapshotStep sha s a)) ∧
            (ExactCounts (snapshotStep sha s a) ↔ NothingReplaced s a) := by
      intro s a hgood hleak hcounts
      have hstep := (casKept_step hgood.1 a).2 hleak (hgood.2 hcounts)
      by_cases hnothing : NothingReplaced s a
      · have hnext := hstep.mpr hnothing
        refine ⟨fun _ => hnext, iff_of_true ?_ hnothing⟩
        intro hidle
        exact (exactKept_iff hidle).mp hnext hidle
      · have hidle : (snapshotStep sha s a).creation = none := idle_of_replaced hnothing
        rw [← exactKept_iff hidle]
        exact ⟨id, hstep⟩
    exact everyState_iff_eachStep
      (G := fun s => CasKept sha s ∧ (ExactCounts s → ExactKept s)) (W := fun _ a => NothingLeaks a)
      (fun s a hgood hleak hcounts =>
        ⟨(casKept_step hgood.1 a).1, (hexact s a hgood hleak hcounts).1⟩)
      (fun s a hgood hleak hcounts => (hexact s a hgood hleak hcounts).2)
      ⟨hstart, fun _ => exactKept_start sources manifests⟩ (eachStep_of_forall hleaks _)
      fun _ _ => rfl

/-! ## Runs on one file -/

/-- The content of a file in the place of its checksum. -/
def plainText : Sha256 String := ⟨id, id⟩

def pricesPath : FilePath := ⟨"data/crsp", "2024.parquet"⟩

def pricesManifest : FileManifest String where
  dataset := "crsp"
  checksum := "prices"
  manifestVersion := 1
  previousChecksum := none
  manifestId := none
  signed := [(pricesPath, "prices")]
  signed_ne_nil := List.cons_ne_nil _ _

def pricesStore : SnapshotStore Unit String :=
  .start (fun path => if path = pricesPath then some "prices" else none)
    fun dataset => if dataset = "crsp" then some pricesManifest else none

def createEvents (versionTag : String) (datasets : List String) (useCas : Bool) (steps : ℕ) :
    List (SnapshotEvent Unit String) :=
  .request () versionTag datasets useCas :: datasets.map (fun _ => .pin ()) ++
    .lock () :: List.replicate steps (.proceed .stored 0)

/-- Two snapshots of one dataset, the first of which is deleted; then the collector runs. -/
def deleteRun : List (SnapshotEvent Unit String) :=
  createEvents "v1" ["crsp"] true 9 ++ createEvents "v2" ["crsp"] true 9 ++
    [.delete "v1" false true, .gc fun _ => false]

instance (s : SnapshotStore Unit String) (a : SnapshotEvent Unit String) :
    Decidable (NothingReplaced s a) :=
  match a with
  | .proceed _ _ => inferInstanceAs (Decidable (∀ _ ∈ _, _ → _ → _ → _))
  | .write _ _ => instDecidableTrue
  | .save _ _ => instDecidableTrue
  | .rollback _ => instDecidableTrue
  | .request _ _ _ _ => instDecidableTrue
  | .pin _ => instDecidableTrue
  | .lock _ => instDecidableTrue
  | .fail _ => instDecidableTrue
  | .cleanup _ _ => instDecidableTrue
  | .crash => instDecidableTrue
  | .delete _ _ _ => instDecidableTrue
  | .gc _ => instDecidableTrue
  | .link _ _ => instDecidableTrue

theorem references_kept_and_exact_iff_delete :
    EveryState (snapshotStep plainText) (Referenced plainText) pricesStore deleteRun ∧
      EveryState (snapshotStep plainText) ExactCounts pricesStore deleteRun := by
  have h := references_kept_and_exact_iff (P := Unit) plainText
    (fun path => if path = pricesPath then some "prices" else none)
    (fun dataset => if dataset = "crsp" then some pricesManifest else none) deleteRun
  refine ⟨h.1, (h.2 ?_).mpr ?_⟩
  · simp [deleteRun, createEvents, NothingLeaks]
  · decide +kernel

/-- The call names the dataset twice. -/
def repeatedRun : List (SnapshotEvent Unit String) := createEvents "v1" ["crsp", "crsp"] true 13

theorem repeated_dataset_is_counted_twice :
    (∀ a ∈ repeatedRun, NothingLeaks a) ∧
      ¬EveryState (snapshotStep plainText) ExactCounts pricesStore repeatedRun := by
  constructor
  · simp [repeatedRun, createEvents, NothingLeaks]
  · intro h
    have hidle :
        (run (snapshotStep plainText) pricesStore repeatedRun).creation.isNone = true := by
      decide +kernel
    have hcount : (run (snapshotStep plainText) pricesStore repeatedRun).references.count "prices"
        = 1 := by
      decide +kernel
    have hrefs :
        (run (snapshotStep plainText) pricesStore repeatedRun).casIndex.refs "prices" = 2 := by
      decide +kernel
    have hexact := h.last (Option.isNone_iff_eq_none.mp hidle) "prices"
    rw [hcount, hrefs] at hexact
    cases hexact

end TradingPlatform.Data
