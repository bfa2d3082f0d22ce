import TradingPlatform.Data.CasReferences
import TradingPlatform.Data.SnapshotReaders
import TradingPlatform.Base.Text
import Mathlib.Algebra.Order.BigOperators.Group.List
import Mathlib.Algebra.Order.Group.Nat

/-! # Time travel

The directory of a snapshot has the files that were copied, under names that start
with eight digits of the checksum, so that a later copy can take the place of an
earlier one. What went to the content-addressed store is not in it.
-/

namespace TradingPlatform.Data

open Base

variable {P κ : Type*}

/-- The directory has a file with the content of each file recorded in the dataset. -/
def HasFiles (s : SnapshotStore P κ) (path : SnapshotPath) (d : DatasetSnapshot κ) : Prop :=
  ∀ file ∈ d.files, ∃ name, s.fileAt path name = some file.content

/-- Every reader of the dataset finds what was snapshotted. -/
structure TimeTravels (sha : Sha256 κ) (s : SnapshotStore P κ) (snapshot : Snapshot κ)
    (d : DatasetSnapshot κ) : Prop where
  byVersion : ∃ path, s.getDataAtVersion d.dataset snapshot.versionTag = .ok path ∧
    HasFiles s path d
  byDate : ∀ asOf path, s.queryAsOf d.dataset asOf = .ok (path, snapshot) → HasFiles s path d
  byBacktest : d.dataset ∈ pitDatasets →
    ∃ path, snapshotDataPath snapshot d.dataset = some path ∧ HasFiles s path d
  verified : s.verifySnapshotIntegrity sha snapshot.versionTag = []

def Snapshot.log (snapshot : Snapshot κ) : List (StoredFile κ) :=
  snapshot.processed.flatMap DatasetSnapshot.files

/-- No dataset is named twice, no copy takes the name of another with other content, and each
file of the dataset has the content of one that was copied. -/
structure Reproducible (snapshot : Snapshot κ) (d : DatasetSnapshot κ) : Prop where
  unread : d.dataset ∉ pitDatasets
  distinct : (snapshot.processed.map DatasetSnapshot.dataset).Nodup
  apart : ∀ f ∈ snapshot.log, ∀ g ∈ snapshot.log, f.storageMode = .copy → g.storageMode = .copy →
    f.path = g.path → f.content = g.content
  copied : ∀ file ∈ d.files, ∃ copy ∈ snapshot.log, copy.storageMode = .copy ∧
    copy.content = file.content

/-! ## What the steps keep -/

/-- The copy that has the name in the end. -/
def lastCopy (log : List (StoredFile κ)) (name : String) : Option κ :=
  ((log.filter fun f => f.storageMode = .copy ∧ f.path = name).getLast?).map StoredFile.content

structure SnapshotKept (sha : Sha256 κ) (snapshot : Snapshot κ) : Prop where
  files : ∀ name, snapshot.files name = lastCopy snapshot.log name
  datasets : snapshot.datasets = Table.ofList snapshot.processed
  aggregate : snapshot.aggregateChecksum = aggregateChecksum sha snapshot.log
  nonempty : ∀ d ∈ snapshot.processed, d.files ≠ []

/-- A dataset that is being processed has a file stored or to come. -/
structure DirectoryKept (c : Creation κ) : Prop where
  files : ∀ name, c.files name = lastCopy c.log name
  nonempty : ∀ d ∈ c.processed, d.files ≠ []
  pending : c.stage.storing = true → c.stored ≠ [] ∨ c.paths ≠ []

structure FilesKept (sha : Sha256 κ) (s : SnapshotStore P κ) : Prop where
  cas : CasKept sha s
  snapshots : ∀ snapshot ∈ s.snapshots.rows, SnapshotKept sha snapshot
  directory : ∀ c ∈ s.creation, DirectoryKept c

variable {sha : Sha256 κ} {s s' : SnapshotStore P κ} {c c' : Creation κ} {snapshot : Snapshot κ}
  {d : DatasetSnapshot κ} {log : List (StoredFile κ)}

theorem lastCopy_append_copy {file : StoredFile κ} (hcopy : file.storageMode = .copy)
    (log : List (StoredFile κ)) (name : String) :
    lastCopy (log ++ [file]) name =
      if name = file.path then some file.content else lastCopy log name := by
  unfold lastCopy
  rw [List.filter_append]
  split
  · rename_i hname
    rw [List.filter_cons_of_pos (by simp [hcopy, hname]), List.filter_nil, List.getLast?_concat]
    rfl
  · rename_i hname
    rw [List.filter_cons_of_neg (by simp [Ne.symm hname]), List.filter_nil, List.append_nil]

theorem lastCopy_append_cas {file : StoredFile κ} {target : String}
    (hcas : file.storageMode = .cas target) (log : List (StoredFile κ)) (name : String) :
    lastCopy (log ++ [file]) name = lastCopy log name := by
  unfold lastCopy
  rw [List.filter_append, List.filter_cons_of_neg (by simp [hcas]), List.filter_nil,
    List.append_nil]

theorem lastCopy_eq_some {name : String} {content : κ} (h : lastCopy log name = some content) :
    ∃ copy ∈ log, copy.storageMode = .copy ∧ copy.path = name ∧ copy.content = content := by
  unfold lastCopy at h
  obtain ⟨copy, hlast, hcontent⟩ := Option.map_eq_some_iff.mp h
  have hmem := List.mem_filter.mp (List.mem_of_getLast? hlast)
  have hkind := of_decide_eq_true hmem.2
  exact ⟨copy, hmem.1, hkind.1, hkind.2, hcontent⟩

theorem lastCopy_isSome {copy : StoredFile κ} (hmem : copy ∈ log)
    (hcopy : copy.storageMode = .copy) : ∃ content, lastCopy log copy.path = some content := by
  unfold lastCopy
  have hfilter : copy ∈ log.filter fun f => f.storageMode = .copy ∧ f.path = copy.path :=
    List.mem_filter.mpr ⟨hmem, by simp [hcopy]⟩
  cases hlast : (log.filter fun f => f.storageMode = .copy ∧ f.path = copy.path).getLast? with
  | none =>
      rw [List.getLast?_eq_none_iff] at hlast
      rw [hlast] at hfilter
      cases hfilter
  | some last => exact ⟨last.content, rfl⟩

/-- Every copy is what its name has in the end, unless two of one name differ. -/
theorem lastCopy_eq_iff_apart :
    (∀ f ∈ log, f.storageMode = .copy → lastCopy log f.path = some f.content) ↔
      ∀ f ∈ log, ∀ g ∈ log, f.storageMode = .copy → g.storageMode = .copy → f.path = g.path →
        f.content = g.content := by
  constructor
  · intro hlast f hf g hg hcopy hcopy' hpath
    have hfirst := hlast f hf hcopy
    rw [hpath, hlast g hg hcopy'] at hfirst
    exact (Option.some.inj hfirst).symm
  · intro hapart f hf hcopy
    obtain ⟨content, hlast⟩ := lastCopy_isSome hf hcopy
    obtain ⟨g, hg, hcopy', hpath, hcontent⟩ := lastCopy_eq_some hlast
    rw [hlast, ← hcontent, hapart f hf g hg hcopy hcopy' hpath.symm]

/-! ## The staging directory -/

theorem DirectoryKept.raise (h : DirectoryKept c) (error : CreateError) :
    DirectoryKept (c.raise error) := ⟨h.files, h.nonempty, h.pending⟩

/-- What is copied has the checksum of what was read, so it is that. -/
theorem directoryKept_copyFile (hsha : Function.Injective sha.ofFile) (h : DirectoryKept c)
    (path : FilePath) (content copied : κ) :
    DirectoryKept (c.copyFile sha path content copied) := by
  unfold Creation.copyFile
  dsimp only
  split
  · rename_i hsame
    obtain rfl := hsha hsame
    refine ⟨?_, h.nonempty,
      fun _ => Or.inl (List.append_ne_nil_of_right_ne_nil _ (List.cons_ne_nil _ _))⟩
    intro name
    rw [log_record, lastCopy_append_copy rfl]
    change Function.update c.files _ _ name = if name = _ then _ else lastCopy c.log name
    split
    · rename_i hname
      rw [hname, Function.update_self]
    · rename_i hname
      rw [Function.update_of_ne hname]
      exact h.files name
  · exact h.raise _

theorem directoryKept_acquire (h : DirectoryKept c) (memory : RefIndex String) (path : FilePath)
    (content : κ) : DirectoryKept (c.acquire sha memory path content) := by
  refine ⟨?_, h.nonempty,
    fun _ => Or.inl (List.append_ne_nil_of_right_ne_nil _ (List.cons_ne_nil _ _))⟩
  intro name
  rw [Creation.acquire, log_record, lastCopy_append_cas rfl]
  exact h.files name

theorem directoryKept_storeFile (hsha : Function.Injective sha.ofFile) (h : DirectoryKept c)
    (files : String → Option κ) (answer : CasAnswer) (path : FilePath) (content copied : κ) :
    DirectoryKept (c.storeFile sha files answer path content copied).2 := by
  unfold Creation.storeFile
  dsimp only
  split
  · exact directoryKept_copyFile hsha h path content copied
  · split
    · exact directoryKept_acquire h _ path content
    · split
      · exact directoryKept_copyFile hsha h path content copied
      · split
        · exact directoryKept_acquire h _ path content
        · exact h.raise _
      · split
        · exact directoryKept_copyFile hsha h path content copied
        · exact h.raise _

theorem FileManifest.filePaths_ne_nil (manifest : FileManifest κ) : manifest.filePaths ≠ [] :=
  fun hnil => manifest.signed_ne_nil (List.map_eq_nil_iff.mp hnil)

theorem directoryKept_startDataset (h : DirectoryKept c) (hstored : c.stored = []) :
    DirectoryKept c.startDataset := by
  unfold Creation.startDataset
  split
  · exact ⟨h.files, h.nonempty, fun hstoring => by cases hstoring⟩
  · split
    · exact h
    · rename_i manifest _
      refine ⟨?_, h.nonempty, fun _ => Or.inr manifest.filePaths_ne_nil⟩
      intro name
      rw [h.files name, Creation.log, Creation.log, hstored]

/-- Until the commit. -/
theorem directoryKept_proceed (hsha : Function.Injective sha.ofFile) (h : DirectoryKept c)
    (hkept : StageKept c) (hcreation : s.creation = some c) (answer : CasAnswer) (now : ℤ) :
    ∀ c' ∈ (s.proceed sha c answer now).creation, DirectoryKept c' := by
  intro c' hc
  unfold SnapshotStore.proceed at hc
  cases hstage : c.stage with
  | nextDataset =>
      simp only [hstage] at hc
      cases hc
      exact directoryKept_startDataset h (hkept.stored (by rw [hstage]; rfl))
  | reading =>
      have hpending := h.pending (by rw [hstage]; rfl)
      simp only [hstage] at hc
      split at hc
      · rename_i hpaths
        cases hc
        refine ⟨?_, ?_, fun hstoring => by cases hstoring⟩
        · intro name
          rw [h.files name]
          simp [Creation.log]
        · intro d hd
          rcases List.mem_append.mp hd with hold | hnew
          · exact h.nonempty d hold
          · rw [List.mem_singleton.mp hnew]
            exact hpending.resolve_right fun hne => hne hpaths
      · split at hc
        · cases hc
          exact ⟨h.files, h.nonempty, fun _ => hpending⟩
        · cases hc
          exact h.raise _
  | copying content =>
      simp only [hstage] at hc
      split at hc
      · rw [hcreation] at hc
        cases hc
        exact h
      · split at hc
        · cases hc
          exact h.raise _
        · cases hc
          exact directoryKept_storeFile hsha h _ _ _ _ _
  | checking versions =>
      cases versions with
      | nil =>
          simp only [hstage] at hc
          cases hc
          exact ⟨h.files, h.nonempty, fun hstoring => by cases hstoring⟩
      | cons pin versions =>
          simp only [hstage] at hc
          split at hc
          · cases hc
            exact ⟨h.files, h.nonempty, fun hstoring => by cases hstoring⟩
          · cases hc
            exact h.raise _
  | persisting =>
      simp only [hstage] at hc
      split at hc
      · cases hc
        exact ⟨h.files, h.nonempty, fun hstoring => by cases hstoring⟩
      · cases hc
        exact ⟨h.files, h.nonempty, fun hstoring => by cases hstoring⟩
  | committing =>
      simp only [hstage] at hc
      split at hc
      · cases hc
      · cases hc
        exact h.raise _

/-- A commit leaves the directory as it is. -/
theorem snapshotKept_commit (h : DirectoryKept c) (hkept : StageKept c)
    (hstage : c.stage = .committing) (now : ℤ) : SnapshotKept sha (c.snapshot sha now) := by
  have hlog : c.log = (c.snapshot sha now).log := by
    rw [Creation.log, hkept.stored (by rw [hstage]; rfl), List.append_nil]
    rfl
  refine ⟨?_, rfl, rfl, h.nonempty⟩
  intro name
  rw [← hlog]
  exact h.files name

theorem snapshotKept_proceed (h : ∀ snapshot ∈ s.snapshots.rows, SnapshotKept sha snapshot)
    (hdirectory : DirectoryKept c) (hkept : StageKept c) (answer : CasAnswer) (now : ℤ) :
    ∀ snapshot ∈ (s.proceed sha c answer now).snapshots.rows, SnapshotKept sha snapshot := by
  unfold SnapshotStore.proceed
  cases hstage : c.stage with
  | committing =>
      dsimp only
      split
      · rename_i snapshots hinsert
        intro snapshot hsnapshot
        rcases (Table.mem_insert hinsert).mp hsnapshot with hold | rfl
        · exact h snapshot hold
        · exact snapshotKept_commit hdirectory hkept hstage now
      · exact h
  | nextDataset => exact h
  | reading =>
      dsimp only
      split
      · exact h
      · split <;> exact h
  | copying content =>
      dsimp only
      split
      · exact h
      · split <;> exact h
  | checking versions =>
      cases versions with
      | nil => exact h
      | cons pin versions =>
          dsimp only
          split <;> exact h
  | persisting =>
      dsimp only
      split <;> exact h

/-! ## Readers -/

theorem fileAt_files (hsnapshot : snapshot ∈ s.snapshots.rows) (name : String) :
    s.fileAt ⟨snapshot.versionTag, "files"⟩ name = snapshot.files name := by
  simp [SnapshotStore.fileAt, Table.find?_of_mem hsnapshot]

theorem getDataAtVersion_eq (hsnapshot : snapshot ∈ s.snapshots.rows)
    (hd : d ∈ snapshot.datasets.rows) :
    s.getDataAtVersion d.dataset snapshot.versionTag = .ok ⟨snapshot.versionTag, "files"⟩ := by
  simp [SnapshotStore.getDataAtVersion, Table.find?_of_mem hsnapshot, Table.find?_of_mem hd]

/-- A query by date leads to the same directory. -/
theorem queryAsOf_path (hsnapshot : snapshot ∈ s.snapshots.rows)
    (hd : d ∈ snapshot.datasets.rows) {asOf : ℤ} {path : SnapshotPath}
    (h : s.queryAsOf d.dataset asOf = .ok (path, snapshot)) :
    path = ⟨snapshot.versionTag, "files"⟩ := by
  unfold SnapshotStore.queryAsOf at h
  dsimp only at h
  split at h
  · cases h
  · split at h
    · rename_i found _
      cases hpath : s.getDataAtVersion d.dataset found.versionTag with
      | error e =>
          rw [hpath] at h
          cases h
      | ok path' =>
          rw [hpath] at h
          cases h
          rw [getDataAtVersion_eq hsnapshot hd] at hpath
          cases hpath
          rfl
    · cases h

/-- No directory of a snapshot has the name of a dataset that backtests read. -/
theorem fileAt_pitDataset (hpit : d.dataset ∈ pitDatasets) (name : String) :
    s.fileAt ⟨snapshot.versionTag, d.dataset⟩ name = none := by
  have hne : d.dataset ≠ "files" := by
    intro heq
    rw [heq] at hpit
    revert hpit
    decide
  unfold SnapshotStore.fileAt
  split
  · exact if_neg hne
  · rfl

theorem verifyFile_eq_nil_iff (hsha : Function.Injective sha.ofFile) (h : CasKept sha s)
    (hsnapshot : snapshot ∈ s.snapshots.rows) (hd : d ∈ snapshot.datasets.rows)
    {file : StoredFile κ} (hfile : file ∈ d.files) :
    verifyFile sha s snapshot file = [] ↔
      (file.storageMode = .copy → snapshot.files file.path = some file.content) := by
  have hformed := (h.formed snapshot hsnapshot d hd file hfile).1
  unfold verifyFile
  dsimp only
  cases hmode : file.storageMode with
  | cas target =>
      obtain ⟨-, content, hcontent, hchecksum⟩ :=
        h.referenced snapshot hsnapshot d hd file hfile target hmode
      simp [hcontent, hchecksum]
  | copy =>
      dsimp only
      cases hfound : snapshot.files file.path with
      | none => simp
      | some content =>
          dsimp only
          rw [hformed]
          split
          · rename_i hsame
            simp [hsha hsame]
          · rename_i hdiffer
            have hne : content ≠ file.content := by
              rintro rfl
              exact hdiffer rfl
            simp [hne]

theorem verify_eq_nil_iff (hsha : Function.Injective sha.ofFile) (h : CasKept sha s)
    (hsnapshot : snapshot ∈ s.snapshots.rows) :
    s.verifySnapshotIntegrity sha snapshot.versionTag = [] ↔
      (∀ d ∈ snapshot.datasets.rows, ∀ file ∈ d.files, file.storageMode = .copy →
        snapshot.files file.path = some file.content) ∧
      aggregateChecksum sha (snapshot.datasets.rows.flatMap DatasetSnapshot.files) =
        snapshot.aggregateChecksum := by
  simp only [SnapshotStore.verifySnapshotIntegrity, Table.find?_of_mem hsnapshot,
    List.append_eq_nil_iff, List.flatMap_eq_nil_iff, List.mem_flatMap]
  refine and_congr ?_ ?_
  · constructor
    · intro hall d hd file hfile
      exact (verifyFile_eq_nil_iff hsha h hsnapshot hd hfile).mp (hall file ⟨d, hd, hfile⟩)
    · rintro hall file ⟨d, hd, hfile⟩
      exact (verifyFile_eq_nil_iff hsha h hsnapshot hd hfile).mpr (hall d hd file hfile)
  · split
    · rename_i hsame
      simp [hsame]
    · rename_i hdiffer
      simp [hdiffer]

/-- The names and checksums of the files, as the aggregate checksum lists them. -/
def aggregateEntries (files : List (StoredFile κ)) : List String :=
  (files.mergeSort fun f g => f.path ≤ g.path).map fun f => f.path ++ ":" ++ f.checksum

def aggregateWeight (files : List (StoredFile κ)) : ℕ :=
  (files.map fun f => (f.path ++ ":" ++ f.checksum).length + 1).sum

theorem aggregateWeight_eq (files : List (StoredFile κ)) :
    ((aggregateEntries files).map fun entry => entry.length + 1).sum = aggregateWeight files := by
  unfold aggregateEntries aggregateWeight
  rw [List.map_map]
  exact ((List.mergeSort_perm files _).map _).sum_eq

/-- The length of the text tells the weight of what it lists. -/
theorem aggregateWeight_of_text {files : List (StoredFile κ)} :
    (String.intercalate "\n" (aggregateEntries files)).length = aggregateWeight files - 1 := by
  rw [← aggregateWeight_eq]
  cases hentries : aggregateEntries files with
  | nil => rfl
  | cons entry entries =>
      have hlength := length_intercalate "\n" (List.cons_ne_nil entry entries)
      rw [show "\n".length = 1 from rfl] at hlength
      omega

theorem one_lt_aggregateWeight {file : StoredFile κ} {files : List (StoredFile κ)}
    (h : file ∈ files) : 1 < aggregateWeight files := by
  unfold aggregateWeight
  have hle := List.single_le_sum (fun _ _ => Nat.zero_le _) _
    (List.mem_map_of_mem (f := fun f : StoredFile κ => (f.path ++ ":" ++ f.checksum).length + 1) h)
  simp only [String.length_append] at hle ⊢
  have hcolon : ":".length = 1 := rfl
  omega

/-- The aggregate checksum of more files is another one. -/
theorem eq_nil_of_aggregateChecksum_eq (hsha : Function.Injective sha.ofText)
    {all kept more : List (StoredFile κ)} (hperm : all.Perm (kept ++ more))
    (h : aggregateChecksum sha kept = aggregateChecksum sha all) : more = [] := by
  have hlength := congrArg String.length (hsha h)
  change (String.intercalate "\n" (aggregateEntries kept)).length =
    (String.intercalate "\n" (aggregateEntries all)).length at hlength
  rw [aggregateWeight_of_text, aggregateWeight_of_text] at hlength
  have hweight : aggregateWeight all = aggregateWeight kept + aggregateWeight more := by
    unfold aggregateWeight
    rw [(hperm.map _).sum_eq, List.map_append, List.sum_append]
  cases more with
  | nil => rfl
  | cons file files =>
      have hmore := one_lt_aggregateWeight (List.mem_cons_self (a := file) (l := files))
      omega

/-- The files that are kept and those of the datasets that were named again. -/
theorem perm_log (h : SnapshotKept sha snapshot) :
    snapshot.log.Perm (snapshot.datasets.rows.flatMap DatasetSnapshot.files ++
      (Table.superseded DatasetSnapshot.dataset snapshot.processed).flatMap
        DatasetSnapshot.files) := by
  have hrows : snapshot.processed.Perm (snapshot.datasets.rows ++
      Table.superseded DatasetSnapshot.dataset snapshot.processed) := by
    rw [h.datasets]
    exact Table.perm_ofList snapshot.processed
  rw [← List.flatMap_append]
  exact hrows.flatMap_right _

theorem mem_processed (h : SnapshotKept sha snapshot) (hd : d ∈ snapshot.datasets.rows) :
    d ∈ snapshot.processed := by
  rw [h.datasets] at hd
  exact Table.mem_ofList hd

/-- The aggregate checksum is that of what is kept just if no dataset is named twice. -/
theorem aggregate_iff_distinct (hsha : Function.Injective sha.ofText)
    (h : SnapshotKept sha snapshot) :
    aggregateChecksum sha (snapshot.datasets.rows.flatMap DatasetSnapshot.files) =
        snapshot.aggregateChecksum ↔
      (snapshot.processed.map DatasetSnapshot.dataset).Nodup := by
  rw [h.aggregate, ← Table.superseded_eq_nil_iff]
  constructor
  · intro hsame
    have hnil := eq_nil_of_aggregateChecksum_eq hsha (perm_log h) hsame
    by_contra hne
    obtain ⟨d, hd⟩ := List.exists_mem_of_ne_nil _ hne
    have hmem : d ∈ snapshot.processed := by
      have hrows : snapshot.processed.Perm ((Table.ofList snapshot.processed).rows ++
          Table.superseded DatasetSnapshot.dataset snapshot.processed) :=
        Table.perm_ofList snapshot.processed
      exact hrows.mem_iff.mpr (List.mem_append_right _ hd)
    exact h.nonempty d hmem (List.flatMap_eq_nil_iff.mp hnil d hd)
  · intro hnone
    have hperm := perm_log h
    rw [hnone, List.flatMap_nil, List.append_nil] at hperm
    have hfresh := Table.superseded_eq_nil_iff.mp hnone
    have hrows : snapshot.datasets.rows = snapshot.processed := by
      rw [h.datasets]
      exact Table.ofList_rows_of_nodup hfresh
    rw [hrows]
    rfl

theorem hasFiles_iff (h : SnapshotKept sha snapshot) (hsnapshot : snapshot ∈ s.snapshots.rows) :
    HasFiles s ⟨snapshot.versionTag, "files"⟩ d ↔
      ∀ file ∈ d.files, ∃ name, lastCopy snapshot.log name = some file.content := by
  simp only [HasFiles, fileAt_files hsnapshot, h.files]

theorem timeTravels_iff_reproducible (hfile : Function.Injective sha.ofFile)
    (htext : Function.Injective sha.ofText) (h : FilesKept sha s)
    (hsnapshot : snapshot ∈ s.snapshots.rows) (hd : d ∈ snapshot.datasets.rows) :
    TimeTravels sha s snapshot d ↔ Reproducible snapshot d := by
  have hkept := h.snapshots snapshot hsnapshot
  have hpath := getDataAtVersion_eq hsnapshot hd
  have hverify := verify_eq_nil_iff hfile h.cas hsnapshot
  rw [aggregate_iff_distinct htext hkept] at hverify
  have hcopies : (snapshot.processed.map DatasetSnapshot.dataset).Nodup →
      ((∀ d ∈ snapshot.datasets.rows, ∀ file ∈ d.files, file.storageMode = .copy →
          snapshot.files file.path = some file.content) ↔
        ∀ f ∈ snapshot.log, ∀ g ∈ snapshot.log, f.storageMode = .copy → g.storageMode = .copy →
          f.path = g.path → f.content = g.content) := by
    intro hdistinct
    have hrows : snapshot.datasets.rows = snapshot.processed := by
      rw [hkept.datasets]
      exact Table.ofList_rows_of_nodup hdistinct
    rw [← lastCopy_eq_iff_apart, hrows]
    simp only [hkept.files, Snapshot.log, List.mem_flatMap]
    exact ⟨fun hall f hf => hf.elim fun d hd => hall d hd.1 f hd.2,
      fun hall d hd f hf => hall f ⟨d, hd, hf⟩⟩
  constructor
  · intro htravels
    have ⟨hintact, hdistinct⟩ := hverify.mp htravels.verified
    refine ⟨?_, hdistinct, (hcopies hdistinct).mp hintact, ?_⟩
    · intro hpit
      obtain ⟨path, hdata, hfiles⟩ := htravels.byBacktest hpit
      simp only [snapshotDataPath, Table.find?_of_mem hd, Option.isSome_some, if_true,
        Option.some.injEq] at hdata
      subst hdata
      obtain ⟨file, hmem⟩ :=
        List.exists_mem_of_ne_nil _ (hkept.nonempty d (mem_processed hkept hd))
      obtain ⟨name, hfound⟩ := hfiles file hmem
      rw [fileAt_pitDataset hpit] at hfound
      cases hfound
    · intro file hmem
      obtain ⟨path, hdata, hfiles⟩ := htravels.byVersion
      rw [hpath] at hdata
      cases hdata
      obtain ⟨name, hlast⟩ := (hasFiles_iff hkept hsnapshot).mp hfiles file hmem
      obtain ⟨copy, hcopy, hmode, -, hcontent⟩ := lastCopy_eq_some hlast
      exact ⟨copy, hcopy, hmode, hcontent⟩
  · intro hreproducible
    have hintact := (hcopies hreproducible.distinct).mpr hreproducible.apart
    have hfiles : HasFiles s ⟨snapshot.versionTag, "files"⟩ d := by
      rw [hasFiles_iff hkept hsnapshot]
      intro file hmem
      obtain ⟨copy, hcopy, hmode, hcontent⟩ := hreproducible.copied file hmem
      rw [← hcontent]
      exact ⟨copy.path, lastCopy_eq_iff_apart.mpr hreproducible.apart copy hcopy hmode⟩
    refine ⟨⟨_, hpath, hfiles⟩, ?_, fun hpit => absurd hpit hreproducible.unread,
      hverify.mpr ⟨hintact, hreproducible.distinct⟩⟩
    intro asOf path hquery
    rw [queryAsOf_path hsnapshot hd hquery]
    exact hfiles

theorem filesKept_start (sources : FilePath → Option κ)
    (manifests : String → Option (FileManifest κ)) :
    FilesKept sha (.start sources manifests : SnapshotStore P κ) := by
  refine ⟨casKept_start sources manifests, ?_, ?_⟩
  · intro snapshot hsnapshot
    cases hsnapshot
  · intro c hc
    cases hc

/-! ## Steps -/

theorem saveManifest_frame (sha : Sha256 κ) (s : SnapshotStore P κ) (dataset : String)
    (paths : List FilePath) :
    (s.saveManifest sha dataset paths).snapshots = s.snapshots ∧
      (s.saveManifest sha dataset paths).creation = s.creation := by
  unfold SnapshotStore.saveManifest
  split
  · exact ⟨rfl, rfl⟩
  · split
    · exact ⟨rfl, rfl⟩
    · dsimp only
      split <;> exact ⟨rfl, rfl⟩

theorem rollback_frame (s : SnapshotStore P κ) (dataset : String) :
    (s.rollback dataset).snapshots = s.snapshots ∧
      (s.rollback dataset).creation = s.creation := by
  unfold SnapshotStore.rollback
  split
  · exact ⟨rfl, rfl⟩
  · split
    · split <;> exact ⟨rfl, rfl⟩
    · exact ⟨rfl, rfl⟩

theorem cleanup_frame (s : SnapshotStore P κ) (c : Creation κ) (released : Bool)
    (stuck : String → Bool) : (s.cleanup c released stuck).snapshots = s.snapshots := by
  unfold SnapshotStore.cleanup
  split <;> rfl

theorem mem_deleteSnapshot {versionTag : String} {force released : Bool}
    (h : snapshot ∈ (s.deleteSnapshot versionTag force released).snapshots.rows) :
    snapshot ∈ s.snapshots.rows := by
  unfold SnapshotStore.deleteSnapshot at h
  split at h
  · exact h
  · split at h
    · exact h
    · exact List.mem_of_mem_filter h

theorem deleteSnapshot_creation (s : SnapshotStore P κ) (versionTag : String)
    (force released : Bool) :
    (s.deleteSnapshot versionTag force released).creation = s.creation := by
  unfold SnapshotStore.deleteSnapshot
  split
  · rfl
  · split <;> rfl

theorem snapshotKept_link (h : ∀ snapshot ∈ s.snapshots.rows, SnapshotKept sha snapshot)
    (backtestId versionTag : String) :
    ∀ snapshot ∈ (s.linkBacktest backtestId versionTag).snapshots.rows,
      SnapshotKept sha snapshot := by
  intro snapshot hsnapshot
  change snapshot ∈ List.map _ _ at hsnapshot
  obtain ⟨old, hold, rfl⟩ := List.mem_map.mp hsnapshot
  have hkept := h old hold
  dsimp only
  split
  · exact ⟨hkept.files, hkept.datasets, hkept.aggregate, hkept.nonempty⟩
  · exact hkept

variable [DecidableEq P]

theorem pinNext_frame (s : SnapshotStore P κ) (p : P) :
    (s.pinNext p).snapshots = s.snapshots ∧ (s.pinNext p).creation = s.creation := by
  unfold SnapshotStore.pinNext
  split
  · exact ⟨rfl, rfl⟩
  · split
    · exact ⟨rfl, rfl⟩
    · split <;> exact ⟨rfl, rfl⟩

theorem takeLock_snapshots (s : SnapshotStore P κ) (p : P) :
    (s.takeLock p).snapshots = s.snapshots := by
  unfold SnapshotStore.takeLock
  split
  · split <;> rfl
  · rfl

theorem directoryKept_takeLock (h : ∀ c ∈ s.creation, DirectoryKept c) (p : P) :
    ∀ c ∈ (s.takeLock p).creation, DirectoryKept c := by
  unfold SnapshotStore.takeLock
  split
  · split
    · intro c hc
      cases hc
      exact ⟨fun _ => rfl, (fun d hd => by cases hd), fun hstoring => by cases hstoring⟩
    · exact h
  · exact h

theorem snapshotKept_step (h : FilesKept sha s) (a : SnapshotEvent P κ) :
    ∀ snapshot ∈ (snapshotStep sha s a).snapshots.rows, SnapshotKept sha snapshot := by
  have hframe : ∀ {s' : SnapshotStore P κ}, s'.snapshots = s.snapshots →
      ∀ snapshot ∈ s'.snapshots.rows, SnapshotKept sha snapshot := by
    intro s' hsame
    rw [hsame]
    exact h.snapshots
  cases a with
  | write path content => exact h.snapshots
  | save dataset paths => exact hframe (saveManifest_frame sha s dataset paths).1
  | rollback dataset => exact hframe (rollback_frame s dataset).1
  | request p versionTag datasets useCas =>
      simp only [snapshotStep]
      split <;> exact h.snapshots
  | pin p => exact hframe (pinNext_frame s p).1
  | lock p => exact hframe (takeLock_snapshots s p)
  | proceed answer now =>
      simp only [snapshotStep]
      split
      · rename_i c hcreation
        split
        · exact snapshotKept_proceed h.snapshots (h.directory c hcreation)
            (h.cas.stage c hcreation) answer now
        · exact h.snapshots
      · exact h.snapshots
  | fail error =>
      simp only [snapshotStep]
      split
      · split <;> exact h.snapshots
      · exact h.snapshots
  | cleanup released stuck =>
      simp only [snapshotStep]
      split
      · split
        · exact hframe (cleanup_frame s _ released stuck)
        · exact h.snapshots
      · exact h.snapshots
  | crash => exact h.snapshots
  | delete versionTag force released =>
      simp only [snapshotStep]
      split
      · exact h.snapshots
      · exact fun snapshot hmem => h.snapshots snapshot (mem_deleteSnapshot hmem)
  | gc stuck =>
      simp only [snapshotStep]
      split <;> exact h.snapshots
  | link backtestId versionTag =>
      simp only [snapshotStep]
      split
      · exact h.snapshots
      · exact snapshotKept_link h.snapshots backtestId versionTag

theorem directoryKept_step (hsha : Function.Injective sha.ofFile) (h : FilesKept sha s)
    (a : SnapshotEvent P κ) : ∀ c ∈ (snapshotStep sha s a).creation, DirectoryKept c := by
  have hframe : ∀ {s' : SnapshotStore P κ}, s'.creation = s.creation →
      ∀ c ∈ s'.creation, DirectoryKept c := by
    intro s' hsame
    rw [hsame]
    exact h.directory
  cases a with
  | write path content => exact h.directory
  | save dataset paths => exact hframe (saveManifest_frame sha s dataset paths).2
  | rollback dataset => exact hframe (rollback_frame s dataset).2
  | request p versionTag datasets useCas =>
      simp only [snapshotStep]
      split <;> exact h.directory
  | pin p => exact hframe (pinNext_frame s p).2
  | lock p => exact directoryKept_takeLock h.directory p
  | proceed answer now =>
      simp only [snapshotStep]
      split
      · rename_i c hcreation
        split
        · exact directoryKept_proceed hsha (h.directory c hcreation) (h.cas.stage c hcreation)
            hcreation answer now
        · exact h.directory
      · exact h.directory
  | fail error =>
      simp only [snapshotStep]
      split
      · rename_i c hcreation
        split
        · intro c' hc
          cases hc
          exact (h.directory c hcreation).raise error
        · exact h.directory
      · exact h.directory
  | cleanup released stuck =>
      simp only [snapshotStep]
      split
      · split
        · intro c' hc
          cases hc
        · exact h.directory
      · exact h.directory
  | crash =>
      intro c hc
      cases hc
  | delete versionTag force released =>
      simp only [snapshotStep]
      split
      · exact h.directory
      · exact hframe (deleteSnapshot_creation s versionTag force released)
  | gc stuck =>
      simp only [snapshotStep]
      split <;> exact h.directory
  | link backtestId versionTag =>
      simp only [snapshotStep]
      split <;> exact h.directory

theorem filesKept_step (hsha : Function.Injective sha.ofFile) (h : FilesKept sha s)
    (a : SnapshotEvent P κ) : FilesKept sha (snapshotStep sha s a) :=
  ⟨(casKept_step h.cas a).1, snapshotKept_step h a, directoryKept_step hsha h a⟩

/-! ## Runs -/

/-- In every state of every run, whatever happened to the sources, to other snapshots and to the
store since: the readers of a dataset find what was snapshotted just if it was copied, no copy
took its name, no dataset was named twice and backtests do not read it. -/
theorem timeTravels_iff (sha : Sha256 κ) (hfile : Function.Injective sha.ofFile)
    (htext : Function.Injective sha.ofText) (sources : FilePath → Option κ)
    (manifests : String → Option (FileManifest κ)) (events : List (SnapshotEvent P κ)) :
    EveryState (snapshotStep sha)
      (fun s => ∀ snapshot ∈ s.snapshots.rows, ∀ d ∈ snapshot.datasets.rows,
        TimeTravels sha s snapshot d ↔ Reproducible snapshot d)
      (.start sources manifests) events := by
  have hkept : EveryState (snapshotStep sha) (FilesKept sha) (.start sources manifests) events :=
    everyState_of_step (fun _ a h => filesKept_step hfile h a) events
      (filesKept_start sources manifests)
  exact hkept.mono fun _ h _ hsnapshot _ hd =>
    timeTravels_iff_reproducible hfile htext h hsnapshot hd

/-! ## Two snapshots -/

instance (snapshot : Snapshot String) (d : DatasetSnapshot String) :
    Decidable (Reproducible snapshot d) :=
  decidable_of_iff (d.dataset ∉ pitDatasets ∧
    (snapshot.processed.map DatasetSnapshot.dataset).Nodup ∧
    (∀ f ∈ snapshot.log, ∀ g ∈ snapshot.log, f.storageMode = .copy → g.storageMode = .copy →
      f.path = g.path → f.content = g.content) ∧
    ∀ file ∈ d.files, ∃ copy ∈ snapshot.log, copy.storageMode = .copy ∧
      copy.content = file.content)
    ⟨fun h => ⟨h.1, h.2.1, h.2.2.1, h.2.2.2⟩, fun h => ⟨h.1, h.2, h.3, h.4⟩⟩

def tradesSources (path : FilePath) : Option String :=
  if path = ⟨"data/taq", "2024.parquet"⟩ then some "trades" else none

def tradesManifests (dataset : String) : Option (FileManifest String) :=
  if dataset = "taq" then
    some { pricesManifest with
      dataset := "taq"
      signed := [(⟨"data/taq", "2024.parquet"⟩, "trades")]
      signed_ne_nil := List.cons_ne_nil _ _ }
  else none

/-- A snapshot by copy, after which the source goes and the collector runs. -/
def copyRun : List (SnapshotEvent Unit String) :=
  createEvents "v1" ["taq"] false 9 ++
    [.write ⟨"data/taq", "2024.parquet"⟩ none, .gc fun _ => false]

theorem timeTravels_iff_copy :
    (run (snapshotStep plainText) (.start tradesSources tradesManifests) copyRun).snapshots.rows
        ≠ [] ∧
      ∀ snapshot ∈ (run (snapshotStep plainText) (.start tradesSources tradesManifests)
          copyRun).snapshots.rows,
        ∀ d ∈ snapshot.datasets.rows, TimeTravels plainText
          (run (snapshotStep plainText) (.start tradesSources tradesManifests) copyRun)
          snapshot d := by
  have hiff := (timeTravels_iff plainText Function.injective_id Function.injective_id
    tradesSources tradesManifests copyRun).last
  have hreproducible : ∀ snapshot ∈ (run (snapshotStep plainText)
      (.start tradesSources tradesManifests : SnapshotStore Unit String) copyRun).snapshots.rows,
      ∀ d ∈ snapshot.datasets.rows, Reproducible snapshot d := by
    decide +kernel
  refine ⟨List.isEmpty_eq_false_iff.mp (by decide +kernel), ?_⟩
  exact fun snapshot hsnapshot d hd =>
    (hiff snapshot hsnapshot d hd).mpr (hreproducible snapshot hsnapshot d hd)

/-- A snapshot as it is made by default. -/
def casRun : List (SnapshotEvent Unit String) := createEvents "v1" ["taq"] true 9

theorem cas_files_are_not_in_directory :
    ¬EveryState (snapshotStep plainText)
      (fun s => ∀ snapshot ∈ s.snapshots.rows, ∀ d ∈ snapshot.datasets.rows,
        TimeTravels plainText s snapshot d)
      (.start tradesSources tradesManifests) casRun := by
  intro h
  have hkept : EveryState (snapshotStep plainText) (FilesKept plainText)
      (.start tradesSources tradesManifests) casRun :=
    everyState_of_step (fun _ a h => filesKept_step Function.injective_id h a) casRun
      (filesKept_start tradesSources tradesManifests)
  have hall : ∃ snapshot ∈ (run (snapshotStep plainText)
      (.start tradesSources tradesManifests : SnapshotStore Unit String) casRun).snapshots.rows,
      ∃ d ∈ snapshot.datasets.rows, ¬Reproducible snapshot d := by
    decide +kernel
  obtain ⟨snapshot, hsnapshot, d, hd, hnot⟩ := hall
  exact hnot ((timeTravels_iff_reproducible Function.injective_id Function.injective_id hkept.last
    hsnapshot hd).mp (h.last snapshot hsnapshot d hd))

end TradingPlatform.Data
