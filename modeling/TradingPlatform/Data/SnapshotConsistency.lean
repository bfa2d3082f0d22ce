import TradingPlatform.Data.TimeTravel
import Mathlib.Data.Finset.Insert
import Mathlib.Data.Finset.Lattice.Basic
import Mathlib.Data.Finset.Erase
import Mathlib.Data.Finset.Lattice.Lemmas

/-! # Which manifest a snapshot captures

The version of a manifest is compared before and after its files are copied. That
tells a save in between, but not files that are rewritten ahead of the save, nor a
number that a rollback has set free. A watch is kept of both.
-/

namespace TradingPlatform.Data

open Base

variable {P κ : Type*}

/-- The contents, each with the path that it was read from. -/
def recordedContents (files : List (StoredFile κ)) : List (FilePath × κ) :=
  files.map fun file => (file.originalPath, file.content)

/-- The dataset was recorded as one of its manifests signs it. -/
def Captured (sha : Sha256 κ) (s : SnapshotStore P κ) (d : DatasetSnapshot κ) : Prop :=
  ∃ manifest ∈ s.saved d.dataset, manifest.manifestVersion = d.syncManifestVersion ∧
    recordedContents d.files = manifest.signed ∧
      combinedChecksum sha (recordedContents d.files) = manifest.checksum

/-- `SnapshotInconsistentError` -/
def CreateError.isInconsistent : CreateError → Bool
  | .inconsistent _ _ _ => true
  | _ => false

structure Consistent (sha : Sha256 κ) (s : SnapshotStore P κ) : Prop where
  captured : ∀ snapshot ∈ s.snapshots.rows, ∀ d ∈ snapshot.datasets.rows, Captured sha s d
  raised : ∀ error ∈ s.raised, error.isInconsistent = true

/-- The snapshots change without an error, and under the lock only as the creation ends. -/
def LeavesNone [DecidableEq P] (sha : Sha256 κ) (s : SnapshotStore P κ) (a : SnapshotEvent P κ) :
    Prop :=
  (snapshotStep sha s a).snapshots ≠ s.snapshots →
    (snapshotStep sha s a).raised = s.raised ∧
      (s.creation.isSome → (snapshotStep sha s a).creation = none)

/-! ## The watch -/

structure Watch (P : Type*) where
  /-- Datasets of which the creation has read a file that the manifest on disk did not sign. -/
  torn : Finset String
  /-- Datasets rolled back since the creation has loaded their manifests. -/
  rolledBack : Finset String
  /-- The same for the calls that wait for the lock. -/
  waiting : P → Finset String

def SnapshotStore.versionOf (s : SnapshotStore P κ) (dataset : String) : Option ℕ :=
  (s.manifests dataset).map fun manifest => manifest.manifestVersion

/-- The file read next is not what the manifest on disk signs. -/
def Creation.tears [DecidableEq κ] (c : Creation κ) (s : SnapshotStore P κ) : Bool :=
  match c.stage, c.paths with
  | .reading, path :: _ =>
      match s.sources path, s.manifests c.dataset with
      | some content, some manifest =>
          ¬∀ file ∈ manifest.signed, file.1 = path → file.2 = content
      | _, _ => false
  | _, _ => false

/-- The dataset that the event rolls back, if it does. -/
def SnapshotStore.rollsBack (s : SnapshotStore P κ) : SnapshotEvent P κ → Finset String
  | .rollback dataset =>
      if (s.rollback dataset).versionOf dataset = s.versionOf dataset then ∅ else {dataset}
  | _ => ∅

def Watch.see [DecidableEq P] [DecidableEq κ] (w : Watch P) (s : SnapshotStore P κ) :
    SnapshotEvent P κ → Watch P
  | .pin p =>
      match (s.pinning p).bind fun pinning => pinning.unpinned.head? with
      | some dataset => { w with
          waiting := Function.update w.waiting p ((w.waiting p).erase dataset) }
      | none => w
  | .lock p =>
      match s.creation with
      | none => { w with torn := ∅, rolledBack := w.waiting p }
      | some _ => w
  | .proceed _ _ =>
      match s.creation with
      | some c =>
          if c.error = none ∧ c.tears s then { w with torn := insert c.dataset w.torn } else w
      | none => w
  | a => { w with
      rolledBack := w.rolledBack ∪ s.rollsBack a
      waiting := fun p => w.waiting p ∪ s.rollsBack a }

/-- The system with the watch. -/
structure Watched (P κ : Type*) where
  store : SnapshotStore P κ
  watch : Watch P

def watchedStep [DecidableEq P] [DecidableEq κ] (sha : Sha256 κ) (s : Watched P κ)
    (a : SnapshotEvent P κ) : Watched P κ :=
  ⟨snapshotStep sha s.store a, s.watch.see s.store a⟩

def Watched.start (sources : FilePath → Option κ) : Watched P κ :=
  ⟨.start sources fun _ => none, ⟨∅, ∅, fun _ => ∅⟩⟩

/-- No dataset passes the check of its version that was rolled back since its manifest was
loaded, or of which a file was read between a write and the save. -/
def Creation.Undisturbed (c : Creation κ) (s : SnapshotStore P κ) (w : Watch P) : Prop :=
  match c.stage with
  | .checking ((dataset, version) :: _) =>
      s.versionOf dataset = some version → dataset ∉ w.torn ∧ dataset ∉ w.rolledBack
  | _ => True

/-- The files are there and stay as they are from one reading to the next, and the tag is still
free in the end. -/
def Creation.Unfailing (sha : Sha256 κ) (c : Creation κ) (s : SnapshotStore P κ) : Prop :=
  match c.stage with
  | .reading => ∀ path ∈ c.paths.head?, (s.sources path).isSome
  | .copying content => ∀ path ∈ c.paths.head?, ∃ copied ∈ s.sources path,
      sha.ofFile copied = sha.ofFile content ∨
        ∃ index ∈ c.casIndex, (index (sha.ofFile content)).isSome
  | .committing => s.snapshots.find? c.versionTag = none
  | _ => True

def Undisturbed (sha : Sha256 κ) (s : Watched P κ) : SnapshotEvent P κ → Prop
  | .pin p => ∀ pinning ∈ s.store.pinning p, ∀ dataset ∈ pinning.unpinned.head?,
      (s.store.manifests dataset).isSome
  | .proceed _ _ => ∀ c ∈ s.store.creation, c.error = none →
      c.Undisturbed s.store s.watch ∧ c.Unfailing sha s.store
  | .fail _ => False
  | _ => True

/-! ## What the manifests keep -/

variable {sha : Sha256 κ} {s s' : SnapshotStore P κ} {w w' : Watch P} {c : Creation κ}
  {dataset : String} {manifest : FileManifest κ}

/-- What is on disk was saved, and what was saved has the checksum of what it signs. -/
structure ArchiveKept (sha : Sha256 κ) (s : SnapshotStore P κ) : Prop where
  current : ∀ dataset, ∀ manifest ∈ s.manifests dataset, manifest ∈ s.saved dataset
  backups : ∀ dataset version, ∀ backup ∈ s.backups dataset version,
    backup ∈ s.saved dataset ∧ backup.manifestVersion = version
  saved : ∀ dataset, ∀ manifest ∈ s.saved dataset,
    manifest.checksum = combinedChecksum sha manifest.signed ∧ 0 < manifest.manifestVersion

/-- The manifest on disk is this one or has a higher version. -/
def SnapshotStore.Reaches (s : SnapshotStore P κ) (dataset : String) (manifest : FileManifest κ) :
    Prop :=
  ∃ current ∈ s.manifests dataset,
    current = manifest ∨ manifest.manifestVersion < current.manifestVersion

/-- Only the datasets in the set go back to an earlier manifest. -/
structure Advances (rolled : Finset String) (s s' : SnapshotStore P κ) : Prop where
  saved : ∀ dataset, ∀ manifest ∈ s.saved dataset, manifest ∈ s'.saved dataset
  reaches : ∀ dataset ∉ rolled, ∀ manifest ∈ s.manifests dataset, s'.Reaches dataset manifest

theorem advances_of_eq (hmanifests : s'.manifests = s.manifests) (hsaved : s'.saved = s.saved) :
    Advances ∅ s s' := by
  constructor
  · intro dataset manifest h
    rwa [hsaved]
  · intro dataset _ manifest h
    rw [← hmanifests] at h
    exact ⟨manifest, h, Or.inl rfl⟩

theorem SnapshotStore.Reaches.advances {rolled : Finset String} (h : s.Reaches dataset manifest)
    (hadvances : Advances rolled s s') (hrolled : dataset ∉ rolled) :
    s'.Reaches dataset manifest := by
  obtain ⟨current, hcurrent, hle⟩ := h
  obtain ⟨next, hnext, hle'⟩ := hadvances.reaches dataset hrolled current hcurrent
  refine ⟨next, hnext, ?_⟩
  rcases hle' with rfl | hlt'
  · exact hle
  · rcases hle with rfl | hlt
    · exact Or.inr hlt'
    · exact Or.inr (by omega)

/-- A version that is back on disk was there all the time. -/
theorem versionOf_back {rolled : Finset String} (h : s.Reaches dataset manifest)
    (hadvances : Advances rolled s s') (hrolled : dataset ∉ rolled)
    (hversion : s'.versionOf dataset = some manifest.manifestVersion) :
    s.versionOf dataset = some manifest.manifestVersion := by
  obtain ⟨current, hcurrent, hle⟩ := h
  obtain ⟨next, hnext, hle'⟩ := hadvances.reaches dataset hrolled current hcurrent
  have hcurrent : s.manifests dataset = some current := hcurrent
  have hnext : s'.manifests dataset = some next := hnext
  simp only [SnapshotStore.versionOf, hnext, hcurrent, Option.map_some, Option.some.injEq]
    at hversion ⊢
  rcases hle with rfl | hlt
  · rfl
  · rcases hle' with rfl | hlt'
    · exact hversion
    · omega

theorem SnapshotStore.Reaches.eq (h : s.Reaches dataset manifest)
    (hversion : s.versionOf dataset = some manifest.manifestVersion) :
    s.manifests dataset = some manifest := by
  obtain ⟨current, hcurrent, hle⟩ := h
  have hcurrent : s.manifests dataset = some current := hcurrent
  simp only [SnapshotStore.versionOf, hcurrent, Option.map_some, Option.some.injEq] at hversion
  rcases hle with rfl | hlt
  · exact hcurrent
  · omega

/-! ## Saves and rollbacks -/

/-- What a save does: nothing, or the next version of the manifest, with what it signs. -/
theorem saveManifest_cases (sha : Sha256 κ) (s : SnapshotStore P κ) (dataset : String)
    (paths : List FilePath) :
    s.saveManifest sha dataset paths = s ∨
      ∃ saved : FileManifest κ, saved.checksum = combinedChecksum sha saved.signed ∧
        (s.saveManifest sha dataset paths).manifests =
          Function.update s.manifests dataset (some saved) ∧
        (s.saveManifest sha dataset paths).saved =
          Function.update s.saved dataset (s.saved dataset ++ [saved]) ∧
        ((s.manifests dataset = none ∧ saved.manifestVersion = 1 ∧
            (s.saveManifest sha dataset paths).backups = s.backups) ∨
          ∃ current, s.manifests dataset = some current ∧
            saved.manifestVersion = current.manifestVersion + 1 ∧
            (s.saveManifest sha dataset paths).backups = Function.update s.backups dataset
              (Function.update (s.backups dataset) current.manifestVersion (some current))) := by
  unfold SnapshotStore.saveManifest
  split
  · exact Or.inl rfl
  · split
    · exact Or.inl rfl
    · right
      dsimp only
      split
      · exact ⟨_, rfl, rfl, rfl, Or.inl ⟨‹_›, rfl, rfl⟩⟩
      · exact ⟨_, rfl, rfl, rfl, Or.inr ⟨_, ‹_›, rfl, rfl⟩⟩

theorem rollback_cases (s : SnapshotStore P κ) (dataset : String) :
    s.rollback dataset = s ∨
      ∃ current backup, s.manifests dataset = some current ∧
        s.backups dataset (current.manifestVersion - 1) = some backup ∧
        s.rollback dataset =
          { s with manifests := Function.update s.manifests dataset (some backup) } := by
  unfold SnapshotStore.rollback
  split
  · exact Or.inl rfl
  · split
    · split
      · exact Or.inr ⟨_, _, ‹_›, ‹_›, rfl⟩
      · exact Or.inl rfl
    · exact Or.inl rfl

theorem archiveKept_start (sources : FilePath → Option κ) :
    ArchiveKept sha (.start sources fun _ => none : SnapshotStore P κ) := by
  refine ⟨?_, ?_, ?_⟩
  · intro dataset manifest h
    cases h
  · intro dataset version backup h
    cases h
  · intro dataset manifest h
    cases h

theorem archiveKept_save (h : ArchiveKept sha s) (dataset : String) (paths : List FilePath) :
    ArchiveKept sha (s.saveManifest sha dataset paths) ∧
      Advances ∅ s (s.saveManifest sha dataset paths) := by
  rcases saveManifest_cases sha s dataset paths with heq |
    ⟨saved, hchecksum, hmanifests, hsaved, hversion⟩
  · rw [heq]
    exact ⟨h, advances_of_eq rfl rfl⟩
  have hkeep : ∀ other, ∀ manifest ∈ s.saved other,
      manifest ∈ (s.saveManifest sha dataset paths).saved other := by
    intro other manifest hmanifest
    rw [hsaved]
    by_cases hother : other = dataset
    · subst hother
      rw [Function.update_self]
      exact List.mem_append_left _ hmanifest
    · rwa [Function.update_of_ne hother]
  have hnew : saved ∈ (s.saveManifest sha dataset paths).saved dataset := by
    rw [hsaved, Function.update_self]
    exact List.mem_append_right _ (List.mem_singleton_self saved)
  have hfirst : 0 < saved.manifestVersion := by
    rcases hversion with ⟨-, hone, -⟩ | ⟨current, -, hnext, -⟩ <;> omega
  refine ⟨⟨?_, ?_, ?_⟩, hkeep, ?_⟩
  · intro other manifest hmanifest
    rw [hmanifests] at hmanifest
    by_cases hother : other = dataset
    · subst hother
      rw [Function.update_self] at hmanifest
      cases hmanifest
      exact hnew
    · rw [Function.update_of_ne hother] at hmanifest
      exact hkeep other manifest (h.current other manifest hmanifest)
  · intro other version backup hbackup
    have hold : backup ∈ s.backups other version →
        backup ∈ (s.saveManifest sha dataset paths).saved other ∧
          backup.manifestVersion = version := by
      intro hbackup
      have ⟨hmem, hnumber⟩ := h.backups other version backup hbackup
      exact ⟨hkeep other backup hmem, hnumber⟩
    rcases hversion with ⟨-, -, hbackups⟩ | ⟨current, hcurrent, -, hbackups⟩
    · rw [hbackups] at hbackup
      exact hold hbackup
    · rw [hbackups] at hbackup
      by_cases hother : other = dataset
      · subst hother
        rw [Function.update_self] at hbackup
        by_cases hnumber : version = current.manifestVersion
        · subst hnumber
          rw [Function.update_self] at hbackup
          cases hbackup
          exact ⟨hkeep other backup (h.current other backup hcurrent), rfl⟩
        · rw [Function.update_of_ne hnumber] at hbackup
          exact hold hbackup
      · rw [Function.update_of_ne hother] at hbackup
        exact hold hbackup
  · intro other manifest hmanifest
    rw [hsaved] at hmanifest
    by_cases hother : other = dataset
    · subst hother
      rw [Function.update_self, List.mem_append, List.mem_singleton] at hmanifest
      rcases hmanifest with hold | rfl
      · exact h.saved other manifest hold
      · exact ⟨hchecksum, hfirst⟩
    · rw [Function.update_of_ne hother] at hmanifest
      exact h.saved other manifest hmanifest
  · intro other _ manifest hmanifest
    unfold SnapshotStore.Reaches
    rw [hmanifests]
    by_cases hother : other = dataset
    · subst hother
      rw [Function.update_self]
      rcases hversion with ⟨hnone, -, -⟩ | ⟨current, hcurrent, hnext, -⟩
      · rw [hnone] at hmanifest
        cases hmanifest
      · rw [hcurrent] at hmanifest
        cases hmanifest
        exact ⟨saved, rfl, Or.inr (by omega)⟩
    · rw [Function.update_of_ne hother]
      exact ⟨manifest, hmanifest, Or.inl rfl⟩

theorem archiveKept_rollback (h : ArchiveKept sha s) (dataset : String) :
    ArchiveKept sha (s.rollback dataset) ∧
      Advances (s.rollsBack (.rollback dataset)) s (s.rollback dataset) := by
  rcases rollback_cases s dataset with heq | ⟨current, backup, hcurrent, hbackup, heq⟩
  · rw [heq]
    refine ⟨h, fun _ _ hmem => hmem, ?_⟩
    intro other _ manifest hmanifest
    exact ⟨manifest, hmanifest, Or.inl rfl⟩
  have ⟨hmem, hnumber⟩ := h.backups dataset _ backup hbackup
  have hpositive := (h.saved dataset current (h.current dataset current hcurrent)).2
  have hrolls : s.rollsBack (.rollback dataset) = {dataset} := by
    simp only [SnapshotStore.rollsBack, heq, SnapshotStore.versionOf, Function.update_self,
      hcurrent, Option.map_some, Option.some.injEq]
    rw [if_neg (by omega)]
  rw [hrolls, heq]
  refine ⟨⟨?_, h.backups, h.saved⟩, fun _ _ hmem => hmem, ?_⟩
  · intro other manifest hmanifest
    by_cases hother : other = dataset
    · subst hother
      simp only [Function.update_self] at hmanifest
      cases hmanifest
      exact hmem
    · simp only [Function.update_of_ne hother] at hmanifest
      exact h.current other manifest hmanifest
  · intro other hrolled manifest hmanifest
    rw [Finset.mem_singleton] at hrolled
    refine ⟨manifest, ?_, Or.inl rfl⟩
    simp only [Function.update_of_ne hrolled]
    exact hmanifest

theorem ArchiveKept.congr (h : ArchiveKept sha s) (hmanifests : s'.manifests = s.manifests)
    (hbackups : s'.backups = s.backups) (hsaved : s'.saved = s.saved) : ArchiveKept sha s' := by
  constructor
  · rw [hmanifests, hsaved]
    exact h.current
  · rw [hbackups, hsaved]
    exact h.backups
  · rw [hsaved]
    exact h.saved

/-! ## What a creation keeps -/

/-- The manifests that were loaded, of datasets that were not rolled back since. -/
def PinsKept (s : SnapshotStore P κ) (rolledBack : Finset String)
    (pinned : Table String (String × FileManifest κ) Prod.fst) : Prop :=
  ∀ pin ∈ pinned.rows, pin.2 ∈ s.saved pin.1 ∧ (pin.1 ∉ rolledBack → s.Reaches pin.1 pin.2)

/-- The version of the dataset is still to be checked. -/
def CreateStage.Unchecked (stage : CreateStage κ) (dataset : String) : Prop :=
  match stage with
  | .checking versions => dataset ∈ versions.map Prod.fst
  | .persisting => False
  | .committing => False
  | _ => True

def CreateStage.inDataset : CreateStage κ → Bool
  | .reading => true
  | .copying _ => true
  | _ => false

/-- As far as one can tell, the manifest on disk is the one that was loaded. -/
def Unbroken (s : SnapshotStore P κ) (w : Watch P) (dataset : String) (manifest : FileManifest κ) :
    Prop :=
  dataset ∉ w.torn ∧ dataset ∉ w.rolledBack ∧
    s.versionOf dataset = some manifest.manifestVersion

/-- The current dataset: the rest of what the manifest signs is still to be read. -/
structure CurrentKept (s : SnapshotStore P κ) (w : Watch P) (c : Creation κ)
    (manifest : FileManifest κ) (rest : List (FilePath × κ)) : Prop where
  pinned : c.pinned.find? c.dataset = some (c.dataset, manifest)
  version : c.version = manifest.manifestVersion
  paths : c.paths = rest.map Prod.fst
  stored : Unbroken s w c.dataset manifest → recordedContents c.stored ++ rest = manifest.signed
  copying : ∀ content, c.stage = .copying content → Unbroken s w c.dataset manifest →
    rest.head?.map Prod.snd = some content

/-- A dataset that has been processed is as its manifest signs it, once its version is checked. -/
structure ProcessedKept (s : SnapshotStore P κ) (w : Watch P) (c : Creation κ)
    (d : DatasetSnapshot κ) (manifest : FileManifest κ) : Prop where
  pinned : c.pinned.find? d.dataset = some (d.dataset, manifest)
  version : d.syncManifestVersion = manifest.manifestVersion
  files : (c.stage.Unchecked d.dataset → Unbroken s w d.dataset manifest) →
    recordedContents d.files = manifest.signed

structure CreationKept (s : SnapshotStore P κ) (w : Watch P) (c : Creation κ) : Prop where
  pins : PinsKept s w.rolledBack c.pinned
  processed : ∀ d ∈ c.processed, ∃ manifest, ProcessedKept s w c d manifest
  current : c.stage.inDataset = true → ∃ manifest rest, CurrentKept s w c manifest rest
  checking : ∀ versions, c.stage = .checking versions → ∀ x ∈ versions,
    ∃ manifest, c.pinned.find? x.1 = some (x.1, manifest) ∧ x.2 = manifest.manifestVersion

theorem PinsKept.advances {rolled rolledBack rolledBack' : Finset String}
    {pinned : Table String (String × FileManifest κ) Prod.fst} (h : PinsKept s rolledBack pinned)
    (hadvances : Advances rolled s s') (hsub : rolledBack ⊆ rolledBack')
    (hrolled : rolled ⊆ rolledBack') :
    PinsKept s' rolledBack' pinned := by
  intro pin hpin
  have ⟨hsaved, hreaches⟩ := h pin hpin
  refine ⟨hadvances.saved pin.1 pin.2 hsaved, ?_⟩
  intro hfree
  have hbefore : pin.1 ∉ rolledBack := fun hmem => hfree (hsub hmem)
  exact (hreaches hbefore).advances hadvances fun hmem => hfree (hrolled hmem)

/-- What others do breaks the tie between a dataset and its manifest for good. -/
theorem Unbroken.back {rolled : Finset String} (hunbroken : Unbroken s' w' dataset manifest)
    (hpins : PinsKept s w.rolledBack c.pinned)
    (hpinned : c.pinned.find? dataset = some (dataset, manifest))
    (hadvances : Advances rolled s s') (hsub : w.rolledBack ⊆ w'.rolledBack)
    (hrolled : rolled ⊆ w'.rolledBack) (htorn : w.torn ⊆ w'.torn) :
    Unbroken s w dataset manifest := by
  obtain ⟨hwhole, hfree, hversion⟩ := hunbroken
  have hbefore : dataset ∉ w.rolledBack := fun hmem => hfree (hsub hmem)
  have hreaches : s.Reaches dataset manifest := (hpins _ (Table.find?_mem hpinned)).2 hbefore
  exact ⟨fun hmem => hwhole (htorn hmem), hbefore,
    versionOf_back hreaches hadvances (fun hmem => hfree (hrolled hmem)) hversion⟩

theorem CreationKept.advances {rolled : Finset String} (h : CreationKept s w c)
    (hadvances : Advances rolled s s') (hsub : w.rolledBack ⊆ w'.rolledBack)
    (hrolled : rolled ⊆ w'.rolledBack) (htorn : w.torn ⊆ w'.torn) : CreationKept s' w' c := by
  constructor
  · exact h.pins.advances hadvances hsub hrolled
  · intro d hd
    obtain ⟨manifest, hd⟩ := h.processed d hd
    refine ⟨manifest, hd.pinned, hd.version, ?_⟩
    intro hunbroken
    apply hd.files
    intro hunchecked
    exact (hunbroken hunchecked).back h.pins hd.pinned hadvances hsub hrolled htorn
  · intro hstage
    obtain ⟨manifest, rest, hcurrent⟩ := h.current hstage
    have hback : Unbroken s' w' c.dataset manifest → Unbroken s w c.dataset manifest :=
      fun hunbroken => hunbroken.back h.pins hcurrent.pinned hadvances hsub hrolled htorn
    refine ⟨manifest, rest, hcurrent.pinned, hcurrent.version, hcurrent.paths, ?_, ?_⟩
    · intro hunbroken
      exact hcurrent.stored (hback hunbroken)
    · intro content hcopying hunbroken
      exact hcurrent.copying content hcopying (hback hunbroken)
  · exact h.checking

theorem CreationKept.raise (h : CreationKept s w c) (error : CreateError) :
    CreationKept s w (c.raise error) := by
  constructor
  · exact h.pins
  · intro d hd
    obtain ⟨manifest, hd⟩ := h.processed d hd
    exact ⟨manifest, hd.pinned, hd.version, hd.files⟩
  · intro hstage
    obtain ⟨manifest, rest, hcurrent⟩ := h.current hstage
    exact ⟨manifest, rest, hcurrent.pinned, hcurrent.version, hcurrent.paths, hcurrent.stored,
      hcurrent.copying⟩
  · exact h.checking

/-! ## The steps of a creation -/

/-- A step within the datasets, which checks nothing. -/
theorem CreationKept.next (h : CreationKept s w c) {c' : Creation κ}
    (hpinned : c'.pinned = c.pinned) (hprocessed : c'.processed = c.processed)
    (hunchecked : ∀ pin ∈ c.pinned.rows, c'.stage.Unchecked pin.1)
    (hcurrent : c'.stage.inDataset = true → ∃ manifest rest, CurrentKept s w c' manifest rest)
    (hchecking : ∀ versions, c'.stage = .checking versions → ∀ x ∈ versions,
      ∃ manifest, c'.pinned.find? x.1 = some (x.1, manifest) ∧ x.2 = manifest.manifestVersion) :
    CreationKept s w c' := by
  refine ⟨?_, ?_, hcurrent, hchecking⟩
  · rw [hpinned]
    exact h.pins
  · intro d hd
    rw [hprocessed] at hd
    obtain ⟨manifest, hd⟩ := h.processed d hd
    refine ⟨manifest, ?_, hd.version, ?_⟩
    · rw [hpinned]
      exact hd.pinned
    · intro hunbroken
      apply hd.files
      intro _
      exact hunbroken (hunchecked _ (Table.find?_mem hd.pinned))

theorem CreationKept.startDataset (h : CreationKept s w c) :
    CreationKept s w c.startDataset := by
  unfold Creation.startDataset
  split
  · refine h.next rfl rfl ?_ (fun hin => by cases hin) ?_
    · intro pin hpin
      change pin.1 ∈ List.map Prod.fst _
      rw [List.map_map]
      exact List.mem_map_of_mem hpin
    · intro versions hversions x hx
      cases hversions
      obtain ⟨pin, hpin, rfl⟩ := List.mem_map.mp hx
      exact ⟨pin.2, Table.find?_of_mem hpin, rfl⟩
  · split
    · exact h
    · rename_i dataset datasets _ _ pinned manifest hfind
      have hname : pinned = dataset := Table.find?_key hfind
      subst hname
      refine h.next rfl rfl (fun _ _ => trivial) ?_ ?_
      · intro _
        exact ⟨manifest, manifest.signed, hfind, rfl, rfl, fun _ => rfl, fun _ hcopying => by
          cases hcopying⟩
      · intro versions hversions
        cases hversions

/-- The file is read as the manifest on disk signs it, so as the loaded manifest does where that
is the one on disk. -/
theorem CreationKept.read [DecidableEq κ] (h : CreationKept s w c) (hstage : c.stage = .reading)
    {path : FilePath} {paths : List FilePath} (hpaths : c.paths = path :: paths) {content : κ}
    (hsource : s.sources path = some content) (htears : c.tears s = true → c.dataset ∈ w.torn) :
    CreationKept s w { c with stage := .copying content } := by
  have hin : c.stage.inDataset = true := by rw [hstage]; rfl
  obtain ⟨manifest, rest, hcurrent⟩ := h.current hin
  refine h.next rfl rfl (fun _ _ => trivial) ?_ (fun _ hversions => by cases hversions)
  intro _
  refine ⟨manifest, rest, hcurrent.pinned, hcurrent.version, hcurrent.paths, hcurrent.stored, ?_⟩
  intro read hread hunbroken
  cases hread
  have hunbroken : Unbroken s w c.dataset manifest := hunbroken
  have hreaches : s.Reaches c.dataset manifest :=
    (h.pins _ (Table.find?_mem hcurrent.pinned)).2 hunbroken.2.1
  have hmanifest := hreaches.eq hunbroken.2.2
  have hsigned : ∀ file ∈ manifest.signed, file.1 = path → file.2 = content := by
    by_contra htorn
    apply hunbroken.1
    apply htears
    simp only [Creation.tears, hstage, hpaths, hsource, hmanifest]
    simpa using htorn
  have hstored := hcurrent.stored hunbroken
  cases rest with
  | nil =>
      rw [hcurrent.paths] at hpaths
      cases hpaths
  | cons file rest =>
      have hpath : file.1 = path := by
        have hnames := hcurrent.paths.symm.trans hpaths
        rw [List.map_cons, List.cons.injEq] at hnames
        exact hnames.1
      have hmem : file ∈ manifest.signed := by
        rw [← hstored]
        exact List.mem_append_right _ List.mem_cons_self
      exact congrArg some (hsigned file hmem hpath)

theorem CreationKept.finishDataset (h : CreationKept s w c) (hstage : c.stage = .reading)
    (hpaths : c.paths = []) :
    CreationKept s w { c with
      processed := c.processed ++ [⟨c.dataset, c.version, c.stored⟩]
      stored := []
      stage := .nextDataset } := by
  have hin : c.stage.inDataset = true := by rw [hstage]; rfl
  obtain ⟨manifest, rest, hcurrent⟩ := h.current hin
  refine ⟨h.pins, ?_, (fun hnext => by cases hnext), (fun _ hversions => by cases hversions)⟩
  intro d hd
  rcases List.mem_append.mp hd with hold | hnew
  · obtain ⟨manifest, hd⟩ := h.processed d hold
    refine ⟨manifest, hd.pinned, hd.version, ?_⟩
    intro hunbroken
    exact hd.files fun _ => hunbroken trivial
  · rw [List.mem_singleton] at hnew
    subst hnew
    refine ⟨manifest, hcurrent.pinned, hcurrent.version, ?_⟩
    intro hunbroken
    have hrest : rest = [] := by
      rw [← List.map_eq_nil_iff (f := Prod.fst), ← hcurrent.paths]
      exact hpaths
    have hstored := hcurrent.stored (hunbroken trivial)
    rwa [hrest, List.append_nil] at hstored

/-- What a step on a file may do to the creation: it fails, or the file is recorded. -/
inductive FileStep (c : Creation κ) (path : FilePath) (content : κ) : Creation κ → Prop where
  | raised (error : CreateError) : FileStep c path content (c.raise error)
  | recorded (c' : Creation κ) (file : StoredFile κ) (hpinned : c'.pinned = c.pinned)
      (hprocessed : c'.processed = c.processed) (hdataset : c'.dataset = c.dataset)
      (hversion : c'.version = c.version) (hpaths : c'.paths = c.paths)
      (hstored : c'.stored = c.stored)
      (hfile : (file.originalPath, file.content) = (path, content)) :
      FileStep c path content (c'.record file)

theorem fileStep_copyFile (path : FilePath) (content copied : κ) :
    FileStep c path content (c.copyFile sha path content copied) := by
  unfold Creation.copyFile
  dsimp only
  split
  · exact .recorded _ _ rfl rfl rfl rfl rfl rfl rfl
  · exact .raised _

theorem fileStep_storeFile (casFiles : String → Option κ) (answer : CasAnswer) (path : FilePath)
    (content copied : κ) :
    FileStep c path content (c.storeFile sha casFiles answer path content copied).2 := by
  have hacquire : ∀ index, FileStep c path content (c.acquire sha index path content) :=
    fun index => .recorded _ _ rfl rfl rfl rfl rfl rfl rfl
  unfold Creation.storeFile
  dsimp only
  split
  · exact fileStep_copyFile path content copied
  · split
    · exact hacquire _
    · split
      · exact fileStep_copyFile path content copied
      · split
        · exact hacquire _
        · exact .raised _
      · split
        · exact fileStep_copyFile path content copied
        · exact .raised _

theorem CreationKept.fileStep (h : CreationKept s w c) {content : κ}
    (hstage : c.stage = .copying content) {path : FilePath} {paths : List FilePath}
    (hpaths : c.paths = path :: paths) {c' : Creation κ} (hstep : FileStep c path content c') :
    CreationKept s w c' := by
  cases hstep with
  | raised error => exact h.raise error
  | recorded c' file hpinned hprocessed hdataset hversion hpaths' hstored hfile =>
      have hin : c.stage.inDataset = true := by rw [hstage]; rfl
      obtain ⟨manifest, rest, hcurrent⟩ := h.current hin
      refine h.next hpinned hprocessed (fun _ _ => trivial) ?_ (fun _ hversions => by
        cases hversions)
      intro _
      have hnames := hcurrent.paths.symm.trans hpaths
      cases rest with
      | nil => cases hnames
      | cons next rest =>
          rw [List.map_cons, List.cons.injEq] at hnames
          refine ⟨manifest, rest, ?_, ?_, ?_, ?_, fun _ hcopying => by cases hcopying⟩
          · change c'.pinned.find? c'.dataset = some (c'.dataset, manifest)
            rw [hpinned, hdataset]
            exact hcurrent.pinned
          · exact hversion.trans hcurrent.version
          · change c'.paths.tail = rest.map Prod.fst
            rw [hpaths', hpaths]
            exact hnames.2.symm
          · intro hunbroken
            change Unbroken s w c'.dataset manifest at hunbroken
            rw [hdataset] at hunbroken
            have hnext : next.2 = content :=
              Option.some.inj (hcurrent.copying content hstage hunbroken)
            have hrecorded : (file.originalPath, file.content) = next := by
              rw [hfile, ← hnames.1, ← hnext]
            change recordedContents (c'.stored ++ [file]) ++ rest = manifest.signed
            rw [hstored, ← hcurrent.stored hunbroken, recordedContents, List.map_append,
              List.map_singleton, hrecorded, List.append_assoc]
            rfl

/-- A version that is found unchanged has the files of its dataset in order. -/
theorem CreationKept.check (h : CreationKept s w c) {version : ℕ} {versions : List (String × ℕ)}
    (hstage : c.stage = .checking ((dataset, version) :: versions))
    (hversion : s.versionOf dataset = some version)
    (hfree : dataset ∉ w.torn ∧ dataset ∉ w.rolledBack) :
    CreationKept s w { c with stage := .checking versions } := by
  refine ⟨h.pins, ?_, (fun hin => by cases hin), ?_⟩
  · intro d hd
    obtain ⟨manifest, hd⟩ := h.processed d hd
    refine ⟨manifest, hd.pinned, hd.version, ?_⟩
    intro hunbroken
    apply hd.files
    intro hunchecked
    rw [hstage] at hunchecked
    rcases List.mem_cons.mp hunchecked with hnow | hlater
    · have hname : d.dataset = dataset := hnow
      obtain ⟨checked, hfind, hnumber⟩ := h.checking _ hstage _ List.mem_cons_self
      have hsame : some (d.dataset, manifest) = some (dataset, checked) := by
        rw [← hd.pinned, hname]
        exact hfind
      cases hsame
      refine ⟨hfree.1, hfree.2, ?_⟩
      rw [hversion]
      exact congrArg some hnumber
    · exact hunbroken hlater
  · intro rest hrest x hx
    cases hrest
    exact h.checking _ hstage x (List.mem_cons_of_mem _ hx)

theorem CreationKept.checked (h : CreationKept s w c) {c' : Creation κ}
    (hstage : ∀ dataset, ¬c.stage.Unchecked dataset) (hpinned : c'.pinned = c.pinned)
    (hprocessed : c'.processed = c.processed) (hin : c'.stage.inDataset = false)
    (hchecking : ∀ versions, c'.stage ≠ .checking versions) : CreationKept s w c' := by
  refine ⟨?_, ?_, ?_, ?_⟩
  · rw [hpinned]
    exact h.pins
  · intro d hd
    rw [hprocessed] at hd
    obtain ⟨manifest, hd⟩ := h.processed d hd
    refine ⟨manifest, ?_, hd.version, ?_⟩
    · rw [hpinned]
      exact hd.pinned
    · intro _
      exact hd.files fun hunchecked => absurd hunchecked (hstage _)
  · intro hin'
    rw [hin] at hin'
    cases hin'
  · intro versions hversions
    exact absurd hversions (hchecking versions)

/-- What is committed was captured, as every version has been checked by then. -/
theorem CreationKept.captured (h : CreationKept s w c) (harchive : ArchiveKept sha s)
    (hstage : c.stage = .committing) {d : DatasetSnapshot κ} (hd : d ∈ c.processed) :
    Captured sha s d := by
  obtain ⟨manifest, hkept⟩ := h.processed d hd
  have hfiles : recordedContents d.files = manifest.signed := by
    apply hkept.files
    intro hunchecked
    rw [hstage] at hunchecked
    exact absurd hunchecked id
  have hsaved := (h.pins _ (Table.find?_mem hkept.pinned)).1
  refine ⟨manifest, hsaved, hkept.version.symm, hfiles, ?_⟩
  rw [hfiles]
  exact (harchive.saved _ manifest hsaved).1.symm

/-- The next operation of a creation that nobody has disturbed. -/
theorem creationKept_proceed [DecidableEq κ] (h : CreationKept s w c)
    (hcreation : s.creation = some c) (hundisturbed : c.Undisturbed s w)
    (htears : c.tears s = true → c.dataset ∈ w.torn) (answer : CasAnswer) (now : ℤ) :
    ∀ c' ∈ (s.proceed sha c answer now).creation, CreationKept s w c' := by
  have hsame : ∀ c' ∈ s.creation, CreationKept s w c' := by
    intro c' hc'
    rw [hcreation] at hc'
    cases hc'
    exact h
  have hsome : ∀ {next : Creation κ}, CreationKept s w next →
      ∀ c' ∈ some next, CreationKept s w c' := by
    intro next hnext c' hc'
    cases hc'
    exact hnext
  unfold SnapshotStore.proceed
  split
  · exact hsome h.startDataset
  · split
    · exact hsome (h.finishDataset ‹_› ‹_›)
    · split
      · exact hsome (h.read ‹_› ‹_› ‹_› htears)
      · exact hsome (h.raise _)
  · split
    · exact hsame
    · split
      · exact hsome (h.raise _)
      · exact hsome (h.fileStep ‹_› ‹_› (fileStep_storeFile _ _ _ _ _))
  · rename_i hstage
    refine hsome (h.checked ?_ rfl rfl rfl (fun _ hversions => by cases hversions))
    rw [hstage]
    exact fun _ hmem => by cases hmem
  · rename_i dataset version versions hstage
    dsimp only
    split
    · rename_i hversion
      apply hsome
      apply h.check hstage hversion
      simp only [Creation.Undisturbed, hstage] at hundisturbed
      exact hundisturbed hversion
    · exact hsome (h.raise _)
  · rename_i hstage
    have hchecked : ∀ dataset, ¬c.stage.Unchecked dataset := by
      rw [hstage]
      exact fun _ => id
    split
    · exact hsome (h.checked hchecked rfl rfl rfl (fun _ hversions => by cases hversions))
    · exact hsome (h.checked hchecked rfl rfl rfl (fun _ hversions => by cases hversions))
  · split
    · intro c' hc'
      cases hc'
    · exact hsome (h.raise _)

/-! ## The steps of the system -/

structure WatchKept (sha : Sha256 κ) (s : SnapshotStore P κ) (w : Watch P) : Prop where
  archive : ArchiveKept sha s
  pinning : ∀ p, ∀ pinning ∈ s.pinning p, PinsKept s (w.waiting p) pinning.pinned
  creation : ∀ c ∈ s.creation, CreationKept s w c
  captured : ∀ snapshot ∈ s.snapshots.rows, ∀ d ∈ snapshot.datasets.rows, Captured sha s d

theorem Captured.later {rolled : Finset String} {d : DatasetSnapshot κ} (h : Captured sha s d)
    (hadvances : Advances rolled s s') : Captured sha s' d := by
  obtain ⟨manifest, hmem, hcaptured⟩ := h
  exact ⟨manifest, hadvances.saved _ manifest hmem, hcaptured⟩

theorem watchKept_start (sources : FilePath → Option κ) :
    WatchKept sha (.start sources fun _ => none : SnapshotStore P κ) ⟨∅, ∅, fun _ => ∅⟩ := by
  refine ⟨archiveKept_start sources, ?_, ?_, ?_⟩
  · intro p pinning hpinning
    cases hpinning
  · intro c hc
    cases hc
  · intro snapshot hsnapshot
    cases hsnapshot

/-- A step that loads no manifest and is none of the creation's own. -/
theorem WatchKept.outside (h : WatchKept sha s w) {rolled : Finset String}
    (harchive : ArchiveKept sha s' ∧ Advances rolled s s')
    (hpinning : ∀ p, ∀ pinning ∈ s'.pinning p,
      s.pinning p = some pinning ∨ pinning.pinned = .empty)
    (hcreation : ∀ c ∈ s'.creation, c ∈ s.creation)
    (hsnapshots : ∀ snapshot ∈ s'.snapshots.rows,
      ∃ old ∈ s.snapshots.rows, snapshot.datasets = old.datasets) :
    WatchKept sha s' { w with
      rolledBack := w.rolledBack ∪ rolled
      waiting := fun p => w.waiting p ∪ rolled } := by
  refine ⟨harchive.1, ?_, ?_, ?_⟩
  · intro p pinning hp
    rcases hpinning p pinning hp with hold | hempty
    · exact (h.pinning p pinning hold).advances harchive.2 Finset.subset_union_left
        Finset.subset_union_right
    · rw [hempty]
      intro pin hpin
      cases hpin
  · intro c hc
    exact (h.creation c (hcreation c hc)).advances harchive.2 Finset.subset_union_left
      Finset.subset_union_right (Finset.Subset.refl _)
  · intro snapshot hsnapshot d hd
    obtain ⟨old, hold, heq⟩ := hsnapshots snapshot hsnapshot
    rw [heq] at hd
    exact (h.captured old hold d hd).later harchive.2

theorem WatchKept.apart (h : WatchKept sha s w) (hmanifests : s'.manifests = s.manifests)
    (hbackups : s'.backups = s.backups) (hsaved : s'.saved = s.saved)
    (hpinning : ∀ p, ∀ pinning ∈ s'.pinning p,
      s.pinning p = some pinning ∨ pinning.pinned = .empty)
    (hcreation : ∀ c ∈ s'.creation, c ∈ s.creation)
    (hsnapshots : ∀ snapshot ∈ s'.snapshots.rows,
      ∃ old ∈ s.snapshots.rows, snapshot.datasets = old.datasets) :
    WatchKept sha s' { w with
      rolledBack := w.rolledBack ∪ ∅
      waiting := fun p => w.waiting p ∪ ∅ } :=
  h.outside ⟨h.archive.congr hmanifests hbackups hsaved, advances_of_eq hmanifests hsaved⟩
    hpinning hcreation hsnapshots

theorem saveManifest_calls (s : SnapshotStore P κ) (dataset : String) (paths : List FilePath) :
    (s.saveManifest sha dataset paths).pinning = s.pinning ∧
      (s.saveManifest sha dataset paths).raised = s.raised := by
  unfold SnapshotStore.saveManifest
  split
  · exact ⟨rfl, rfl⟩
  · split
    · exact ⟨rfl, rfl⟩
    · dsimp only
      split <;> exact ⟨rfl, rfl⟩

theorem rollback_calls (s : SnapshotStore P κ) (dataset : String) :
    (s.rollback dataset).pinning = s.pinning ∧ (s.rollback dataset).raised = s.raised := by
  rcases rollback_cases s dataset with heq | ⟨current, backup, -, -, heq⟩ <;> rw [heq]
  · exact ⟨rfl, rfl⟩
  · exact ⟨rfl, rfl⟩

/-- No manifest changes, no call gets further and none ends. -/
structure Apart (s s' : SnapshotStore P κ) : Prop where
  manifests : s'.manifests = s.manifests
  backups : s'.backups = s.backups
  saved : s'.saved = s.saved
  pinning : s'.pinning = s.pinning
  raised : s'.raised = s.raised

theorem apart_cleanup (s : SnapshotStore P κ) (c : Creation κ) (released : Bool)
    (stuck : String → Bool) : Apart s (s.cleanup c released stuck) := by
  unfold SnapshotStore.cleanup
  split <;> exact ⟨rfl, rfl, rfl, rfl, rfl⟩

theorem apart_deleteSnapshot (s : SnapshotStore P κ) (versionTag : String)
    (force released : Bool) : Apart s (s.deleteSnapshot versionTag force released) := by
  unfold SnapshotStore.deleteSnapshot
  split
  · exact ⟨rfl, rfl, rfl, rfl, rfl⟩
  · split <;> exact ⟨rfl, rfl, rfl, rfl, rfl⟩

theorem apart_proceed (s : SnapshotStore P κ) (c : Creation κ) (answer : CasAnswer) (now : ℤ) :
    Apart s (s.proceed sha c answer now) := by
  unfold SnapshotStore.proceed
  split
  · exact ⟨rfl, rfl, rfl, rfl, rfl⟩
  · split
    · exact ⟨rfl, rfl, rfl, rfl, rfl⟩
    · split <;> exact ⟨rfl, rfl, rfl, rfl, rfl⟩
  · split
    · exact ⟨rfl, rfl, rfl, rfl, rfl⟩
    · split <;> exact ⟨rfl, rfl, rfl, rfl, rfl⟩
  · exact ⟨rfl, rfl, rfl, rfl, rfl⟩
  · dsimp only
    split <;> exact ⟨rfl, rfl, rfl, rfl, rfl⟩
  · split <;> exact ⟨rfl, rfl, rfl, rfl, rfl⟩
  · split <;> exact ⟨rfl, rfl, rfl, rfl, rfl⟩

/-- The snapshots change by the commit only. -/
theorem proceed_snapshots (sha : Sha256 κ) (s : SnapshotStore P κ) (c : Creation κ)
    (answer : CasAnswer) (now : ℤ) :
    (s.proceed sha c answer now).snapshots = s.snapshots ∨
      c.stage = .committing ∧
        s.snapshots.insert (c.snapshot sha now) = some (s.proceed sha c answer now).snapshots ∧
        (s.proceed sha c answer now).creation = none := by
  unfold SnapshotStore.proceed
  split
  · exact Or.inl rfl
  · split
    · exact Or.inl rfl
    · split <;> exact Or.inl rfl
  · split
    · exact Or.inl rfl
    · split <;> exact Or.inl rfl
  · exact Or.inl rfl
  · dsimp only
    split <;> exact Or.inl rfl
  · split <;> exact Or.inl rfl
  · split
    · exact Or.inr ⟨‹_›, ‹_›, rfl⟩
    · exact Or.inl rfl

theorem stage_of_tears [DecidableEq κ] (h : c.tears s = true) : c.stage = .reading := by
  unfold Creation.tears at h
  split at h
  · assumption
  · cases h

theorem WatchKept.proceed [DecidableEq κ] (h : WatchKept sha s w) (hcreation : s.creation = some c)
    (hundisturbed : c.Undisturbed s w) (answer : CasAnswer) (now : ℤ) :
    WatchKept sha (s.proceed sha c answer now)
      (if c.tears s then { w with torn := insert c.dataset w.torn } else w) := by
  obtain ⟨hmanifests, hbackups, hsaved, hpinning, -⟩ := apart_proceed s c answer now
  have hadvances : Advances ∅ s (s.proceed sha c answer now) :=
    advances_of_eq hmanifests hsaved
  have hwatch : ∃ torn, w.torn ⊆ torn ∧ (c.tears s = true → c.dataset ∈ torn) ∧
      c.Undisturbed s { w with torn } ∧
      (if c.tears s then { w with torn := insert c.dataset w.torn } else w) = { w with torn } := by
    by_cases htears : c.tears s = true
    · refine ⟨insert c.dataset w.torn, Finset.subset_insert _ _,
        fun _ => Finset.mem_insert_self _ _, ?_, if_pos htears⟩
      rw [Creation.Undisturbed, stage_of_tears htears]
      trivial
    · exact ⟨w.torn, Finset.Subset.refl _, fun htears' => absurd htears' htears, hundisturbed,
        if_neg htears⟩
  obtain ⟨torn, hsub, htears, hundisturbed, heq⟩ := hwatch
  rw [heq]
  refine ⟨h.archive.congr hmanifests hbackups hsaved, ?_, ?_, ?_⟩
  · intro p pinning hp
    rw [hpinning] at hp
    exact (h.pinning p pinning hp).advances hadvances (Finset.Subset.refl _)
      (Finset.empty_subset _)
  · intro c' hc'
    have hwatched : CreationKept s { w with torn } c :=
      (h.creation c hcreation).advances (advances_of_eq rfl rfl) (Finset.Subset.refl _)
        (Finset.empty_subset _) hsub
    have hnext := creationKept_proceed hwatched hcreation hundisturbed htears answer now c' hc'
    exact hnext.advances hadvances (Finset.Subset.refl _) (Finset.empty_subset _)
      (Finset.Subset.refl _)
  · intro snapshot hsnapshot d hd
    rcases proceed_snapshots sha s c answer now with hsame | ⟨hstage, hinsert, -⟩
    · rw [hsame] at hsnapshot
      exact (h.captured snapshot hsnapshot d hd).later hadvances
    · rcases (Table.mem_insert hinsert).mp hsnapshot with hold | rfl
      · exact (h.captured snapshot hold d hd).later hadvances
      · have hprocessed : d ∈ c.processed := Table.mem_ofList hd
        exact ((h.creation c hcreation).captured h.archive hstage hprocessed).later hadvances

/-! ## What is raised -/

structure ErrorsKept (s : SnapshotStore P κ) : Prop where
  raised : ∀ error ∈ s.raised, error.isInconsistent = true
  creation : ∀ c ∈ s.creation, ∀ error ∈ c.error, error.isInconsistent = true

theorem error_copyFile {path : FilePath} {content copied : κ}
    (hsame : sha.ofFile copied = sha.ofFile content) :
    (c.copyFile sha path content copied).error = c.error := by
  unfold Creation.copyFile
  dsimp only
  rw [if_pos hsame]
  rfl

theorem error_storeFile {casFiles : String → Option κ} {answer : CasAnswer} {path : FilePath}
    {content copied : κ} (h : sha.ofFile copied = sha.ofFile content ∨
      ∃ index ∈ c.casIndex, (index (sha.ofFile content)).isSome) :
    (c.storeFile sha casFiles answer path content copied).2.error = c.error := by
  unfold Creation.storeFile
  dsimp only
  split
  · rename_i hnone
    rcases h with hsame | ⟨index, hindex, -⟩
    · exact error_copyFile hsame
    · rw [hnone] at hindex
      cases hindex
  · rename_i memory hmemory
    split
    · rfl
    · rename_i hmissing
      have hsame : sha.ofFile copied = sha.ofFile content := by
        rcases h with hsame | ⟨index, hindex, hfound⟩
        · exact hsame
        · rw [hmemory] at hindex
          cases hindex
          exact absurd hfound hmissing
      split
      · exact error_copyFile hsame
      · rw [if_pos hsame]
        rfl
      · rw [if_pos hsame]
        exact error_copyFile hsame

theorem error_startDataset (c : Creation κ) : c.startDataset.error = c.error := by
  unfold Creation.startDataset
  split
  · rfl
  · split <;> rfl

/-- Where nothing fails and the files stay, only the check of a version raises. -/
theorem error_proceed (hcreation : s.creation = some c) (herror : c.error = none)
    (hunfailing : c.Unfailing sha s) (answer : CasAnswer) (now : ℤ) :
    ∀ c' ∈ (s.proceed sha c answer now).creation, ∀ error ∈ c'.error,
      error.isInconsistent = true := by
  have hsome : ∀ {next : Creation κ}, next.error = none →
      ∀ c' ∈ some next, ∀ error ∈ c'.error, error.isInconsistent = true := by
    intro next hnone c' hc' error hraised
    cases hc'
    rw [hnone] at hraised
    cases hraised
  unfold SnapshotStore.proceed
  split
  · apply hsome
    rw [error_startDataset, herror]
  · rename_i hstage
    split
    · exact hsome herror
    · rename_i path paths hpaths
      simp only [Creation.Unfailing, hstage, hpaths, List.head?_cons] at hunfailing
      obtain ⟨content, hcontent⟩ := Option.isSome_iff_exists.mp (hunfailing path rfl)
      simp only [hcontent]
      exact hsome herror
  · rename_i content hstage
    split
    · rw [hcreation]
      exact hsome herror
    · rename_i path paths hpaths
      simp only [Creation.Unfailing, hstage, hpaths, List.head?_cons] at hunfailing
      obtain ⟨copied, hcopied, hsame⟩ := hunfailing path rfl
      have hcopied : s.sources path = some copied := hcopied
      simp only [hcopied]
      apply hsome
      rw [error_storeFile hsame, herror]
  · exact hsome herror
  · dsimp only
    split
    · exact hsome herror
    · intro c' hc' error hraised
      cases hc'
      cases hraised
      rfl
  · split
    · exact hsome herror
    · exact hsome herror
  · rename_i hstage
    simp only [Creation.Unfailing, hstage] at hunfailing
    split
    · intro c' hc'
      cases hc'
    · exact absurd hunfailing (Table.insert_eq_none_iff_find?.mp ‹_›)

variable [DecidableEq P]

theorem WatchKept.pin [DecidableEq κ] (h : WatchKept sha s w) (p : P) :
    WatchKept sha (snapshotStep sha s (.pin p)) (w.see s (.pin p)) := by
  simp only [snapshotStep, SnapshotStore.pinNext, Watch.see]
  split
  · rename_i hnone
    simpa only [hnone, Option.bind_none] using h
  rename_i pinning hpinning
  have hpins := h.pinning p pinning hpinning
  split
  · rename_i hnil
    simpa only [hpinning, Option.bind_some, hnil, List.head?_nil] using h
  rename_i dataset unpinned hcons
  simp only [hpinning, Option.bind_some, hcons, List.head?_cons]
  have hother : ∀ q ≠ p, ∀ pinned ∈ s.pinning q, PinsKept s
      (Function.update w.waiting p ((w.waiting p).erase dataset) q) pinned.pinned := by
    intro q hq pinned hpinned
    rw [Function.update_of_ne hq]
    exact h.pinning q pinned hpinned
  split
  · rename_i manifest hmanifest
    refine ⟨h.archive.congr rfl rfl rfl, ?_, ?_, h.captured⟩
    · intro q pinned hpinned
      by_cases hq : q = p
      · subst hq
        simp only [Function.update_self] at hpinned ⊢
        cases hpinned
        intro pin hpin
        have hfind := Table.find?_of_mem hpin
        rw [Table.find?_upsert] at hfind
        split at hfind
        · cases hfind
          refine ⟨h.archive.current dataset manifest hmanifest, fun _ => ?_⟩
          exact ⟨manifest, hmanifest, Or.inl rfl⟩
        · rename_i hname
          obtain ⟨hsaved, hreaches⟩ := hpins pin (Table.find?_mem hfind)
          refine ⟨hsaved, fun hfree => hreaches ?_⟩
          intro hmem
          exact hfree (Finset.mem_erase.mpr ⟨hname, hmem⟩)
      · simp only [Function.update_of_ne hq] at hpinned
        exact hother q hq pinned hpinned
    · intro c hc
      exact (h.creation c hc).advances (advances_of_eq rfl rfl) (Finset.Subset.refl _)
        (Finset.empty_subset _) (Finset.Subset.refl _)
  · refine ⟨h.archive.congr rfl rfl rfl, ?_, ?_, h.captured⟩
    · intro q pinned hpinned
      by_cases hq : q = p
      · subst hq
        simp only [Function.update_self] at hpinned
        cases hpinned
      · simp only [Function.update_of_ne hq] at hpinned
        exact hother q hq pinned hpinned
    · intro c hc
      exact (h.creation c hc).advances (advances_of_eq rfl rfl) (Finset.Subset.refl _)
        (Finset.empty_subset _) (Finset.Subset.refl _)

theorem WatchKept.lock [DecidableEq κ] (h : WatchKept sha s w) (p : P) :
    WatchKept sha (snapshotStep sha s (.lock p)) (w.see s (.lock p)) := by
  simp only [snapshotStep, SnapshotStore.takeLock, Watch.see]
  split
  · rename_i pinning hnone hpinning
    have hidle : ∀ c ∈ s.creation, CreationKept s ⟨∅, w.waiting p, w.waiting⟩ c := by
      rw [hnone]
      intro c hc
      cases hc
    split
    · refine ⟨h.archive.congr rfl rfl rfl, ?_, ?_, h.captured⟩
      · intro q pinned hpinned
        by_cases hq : q = p
        · subst hq
          simp only [Function.update_self] at hpinned
          cases hpinned
        · simp only [Function.update_of_ne hq] at hpinned
          have hkept := h.pinning q pinned hpinned
          simp only [hnone]
          exact hkept
      · intro c hc
        cases hc
        refine ⟨?_, ?_, ?_, ?_⟩
        · simp only [hnone]
          exact h.pinning p pinning hpinning
        · intro d hd
          cases hd
        · intro hin
          cases hin
        · intro versions hversions
          cases hversions
    · simp only [hnone]
      exact ⟨h.archive, h.pinning, hidle, h.captured⟩
  · rename_i hneither
    split
    · rename_i hnone
      refine ⟨h.archive, h.pinning, ?_, h.captured⟩
      rw [hnone]
      intro c hc
      cases hc
    · exact h

theorem watchKept_step [DecidableEq κ] (h : WatchKept sha s w) (a : SnapshotEvent P κ)
    (hundisturbed : Undisturbed sha ⟨s, w⟩ a) :
    WatchKept sha (snapshotStep sha s a) (w.see s a) := by
  have hpins : ∀ p, ∀ pinning ∈ s.pinning p, s.pinning p = some pinning ∨ pinning.pinned = .empty :=
    fun p pinning hp => Or.inl hp
  have hkeep : ∀ c ∈ s.creation, c ∈ s.creation := fun c hc => hc
  have hrows : ∀ snapshot ∈ s.snapshots.rows,
      ∃ old ∈ s.snapshots.rows, snapshot.datasets = old.datasets :=
    fun snapshot hsnapshot => ⟨snapshot, hsnapshot, rfl⟩
  have hsame := h.apart rfl rfl rfl hpins hkeep hrows
  cases a with
  | write path content => exact h.apart rfl rfl rfl hpins hkeep hrows
  | save dataset paths =>
      have hframe := saveManifest_frame sha s dataset paths
      refine h.outside (archiveKept_save h.archive dataset paths) ?_ ?_ ?_
      · change ∀ p, ∀ pinning ∈ (s.saveManifest sha dataset paths).pinning p, _
        rw [(saveManifest_calls s dataset paths).1]
        exact hpins
      · change ∀ c ∈ (s.saveManifest sha dataset paths).creation, _
        rw [hframe.2]
        exact hkeep
      · change ∀ snapshot ∈ (s.saveManifest sha dataset paths).snapshots.rows, _
        rw [hframe.1]
        exact hrows
  | rollback dataset =>
      have hframe := rollback_frame s dataset
      refine h.outside (archiveKept_rollback h.archive dataset) ?_ ?_ ?_
      · change ∀ p, ∀ pinning ∈ (s.rollback dataset).pinning p, _
        rw [(rollback_calls s dataset).1]
        exact hpins
      · change ∀ c ∈ (s.rollback dataset).creation, _
        rw [hframe.2]
        exact hkeep
      · change ∀ snapshot ∈ (s.rollback dataset).snapshots.rows, _
        rw [hframe.1]
        exact hrows
  | request p versionTag datasets useCas =>
      simp only [snapshotStep]
      split
      · exact hsame
      · refine h.apart rfl rfl rfl ?_ hkeep hrows
        intro q pinning hq
        by_cases heq : q = p
        · subst heq
          simp only [Function.update_self] at hq
          cases hq
          exact Or.inr rfl
        · simp only [Function.update_of_ne heq] at hq
          exact Or.inl hq
  | pin p => exact h.pin p
  | lock p => exact h.lock p
  | proceed answer now =>
      simp only [snapshotStep, Watch.see]
      cases hcreation : s.creation with
      | none => exact h
      | some c =>
          by_cases herror : c.error = none
          · simp only [herror, if_true, true_and]
            exact h.proceed hcreation (hundisturbed c hcreation herror).1 answer now
          · simp only [herror, if_false, false_and]
            exact h
  | fail error => exact absurd hundisturbed id
  | cleanup released stuck =>
      simp only [snapshotStep]
      split
      · split
        · obtain ⟨hmanifests, hbackups, hsaved, hpinning, _⟩ := apart_cleanup s ‹_› released stuck
          refine h.apart hmanifests hbackups hsaved ?_ (fun c hc => by cases hc) ?_
          · change ∀ p, ∀ pinning ∈ (s.cleanup _ released stuck).pinning p, _
            rw [hpinning]
            exact hpins
          · change ∀ snapshot ∈ (s.cleanup _ released stuck).snapshots.rows, _
            rw [cleanup_frame]
            exact hrows
        · exact hsame
      · exact hsame
  | crash => exact h.apart rfl rfl rfl hpins (fun c hc => by cases hc) hrows
  | delete versionTag force released =>
      simp only [snapshotStep]
      split
      · exact hsame
      · obtain ⟨hmanifests, hbackups, hsaved, hpinning, _⟩ :=
          apart_deleteSnapshot s versionTag force released
        refine h.apart hmanifests hbackups hsaved ?_ ?_ ?_
        · rw [hpinning]
          exact hpins
        · rw [deleteSnapshot_creation]
          exact hkeep
        · intro snapshot hsnapshot
          exact hrows snapshot (mem_deleteSnapshot hsnapshot)
  | gc stuck =>
      simp only [snapshotStep]
      split
      · exact hsame
      · exact h.apart rfl rfl rfl hpins hkeep hrows
  | link backtestId versionTag =>
      simp only [snapshotStep]
      split
      · exact hsame
      · refine h.apart rfl rfl rfl hpins hkeep ?_
        intro snapshot hsnapshot
        change snapshot ∈ List.map _ _ at hsnapshot
        obtain ⟨old, hold, rfl⟩ := List.mem_map.mp hsnapshot
        refine ⟨old, hold, ?_⟩
        dsimp only
        split <;> rfl

theorem errorsKept_step [DecidableEq κ] (h : ErrorsKept s) (a : SnapshotEvent P κ)
    (hundisturbed : Undisturbed sha ⟨s, w⟩ a) : ErrorsKept (snapshotStep sha s a) := by
  cases a with
  | write path content => exact ⟨h.raised, h.creation⟩
  | save dataset paths =>
      refine ⟨?_, ?_⟩
      · change ∀ error ∈ (s.saveManifest sha dataset paths).raised, _
        rw [(saveManifest_calls s dataset paths).2]
        exact h.raised
      · change ∀ c ∈ (s.saveManifest sha dataset paths).creation, _
        rw [(saveManifest_frame sha s dataset paths).2]
        exact h.creation
  | rollback dataset =>
      refine ⟨?_, ?_⟩
      · change ∀ error ∈ (s.rollback dataset).raised, _
        rw [(rollback_calls s dataset).2]
        exact h.raised
      · change ∀ c ∈ (s.rollback dataset).creation, _
        rw [(rollback_frame s dataset).2]
        exact h.creation
  | request p versionTag datasets useCas =>
      simp only [snapshotStep]
      split
      · exact h
      · exact ⟨h.raised, h.creation⟩
  | pin p =>
      simp only [snapshotStep, SnapshotStore.pinNext]
      split
      · exact h
      · rename_i pinning hpinning
        split
        · exact h
        · rename_i dataset unpinned hunpinned
          have hfound : (s.manifests dataset).isSome := by
            apply hundisturbed pinning hpinning dataset
            rw [hunpinned]
            rfl
          obtain ⟨manifest, hmanifest⟩ := Option.isSome_iff_exists.mp hfound
          simp only [hmanifest]
          exact ⟨h.raised, h.creation⟩
  | lock p =>
      simp only [snapshotStep, SnapshotStore.takeLock]
      split
      · split
        · refine ⟨h.raised, ?_⟩
          intro c hc error hraised
          cases hc
          cases hraised
        · exact h
      · exact h
  | proceed answer now =>
      simp only [snapshotStep]
      split
      · rename_i c hcreation
        split
        · rename_i herror
          refine ⟨?_, ?_⟩
          · rw [(apart_proceed s c answer now).raised]
            exact h.raised
          · exact error_proceed hcreation herror (hundisturbed c hcreation herror).2 answer now
        · exact h
      · exact h
  | fail error => exact absurd hundisturbed id
  | cleanup released stuck =>
      simp only [snapshotStep]
      split
      · rename_i c hcreation
        split
        · rename_i error herror
          refine ⟨?_, fun c hc => by cases hc⟩
          intro raised hraised
          rcases List.mem_append.mp hraised with hold | hnew
          · exact h.raised raised hold
          · rw [List.mem_singleton] at hnew
            rw [hnew]
            exact h.creation c hcreation error herror
        · exact h
      · exact h
  | crash => exact ⟨h.raised, fun c hc => by cases hc⟩
  | delete versionTag force released =>
      simp only [snapshotStep]
      split
      · exact h
      · refine ⟨?_, ?_⟩
        · rw [(apart_deleteSnapshot s versionTag force released).raised]
          exact h.raised
        · rw [deleteSnapshot_creation]
          exact h.creation
  | gc stuck =>
      simp only [snapshotStep]
      split
      · exact h
      · exact ⟨h.raised, h.creation⟩
  | link backtestId versionTag =>
      simp only [snapshotStep]
      split
      · exact h
      · exact ⟨h.raised, h.creation⟩

theorem leavesNone (s : SnapshotStore P κ) (a : SnapshotEvent P κ) : LeavesNone sha s a := by
  have hidle : ∀ {next : SnapshotStore P κ}, next.raised = s.raised →
      next.raised = s.raised ∧ ((none : Option (Creation κ)).isSome → next.creation = none) :=
    fun hraised => ⟨hraised, fun hsome => by cases hsome⟩
  intro hchanged
  cases a with
  | write path content => exact absurd rfl hchanged
  | save dataset paths => exact absurd (saveManifest_frame sha s dataset paths).1 hchanged
  | rollback dataset => exact absurd (rollback_frame s dataset).1 hchanged
  | request p versionTag datasets useCas =>
      refine absurd ?_ hchanged
      simp only [snapshotStep]
      split <;> rfl
  | pin p => exact absurd (pinNext_frame s p).1 hchanged
  | lock p => exact absurd (takeLock_snapshots s p) hchanged
  | proceed answer now =>
      revert hchanged
      simp only [snapshotStep]
      split
      · rename_i c hcreation
        split
        · intro hchanged
          rcases proceed_snapshots sha s c answer now with hsame | ⟨-, -, hended⟩
          · exact absurd hsame hchanged
          · exact ⟨(apart_proceed s c answer now).raised, fun _ => hended⟩
        · exact fun hchanged => absurd rfl hchanged
      · exact fun hchanged => absurd rfl hchanged
  | fail error =>
      refine absurd ?_ hchanged
      simp only [snapshotStep]
      split
      · split <;> rfl
      · rfl
  | cleanup released stuck =>
      refine absurd ?_ hchanged
      simp only [snapshotStep]
      split
      · split
        · exact cleanup_frame s _ released stuck
        · rfl
      · rfl
  | crash => exact absurd rfl hchanged
  | delete versionTag force released =>
      revert hchanged
      simp only [snapshotStep]
      split
      · exact fun hchanged => absurd rfl hchanged
      · rename_i hnone
        intro _
        rw [hnone]
        exact hidle (apart_deleteSnapshot s versionTag force released).raised
  | gc stuck =>
      refine absurd ?_ hchanged
      simp only [snapshotStep]
      split <;> rfl
  | link backtestId versionTag =>
      revert hchanged
      simp only [snapshotStep]
      split
      · exact fun hchanged => absurd rfl hchanged
      · rename_i hnone
        intro _
        rw [hnone]
        exact hidle rfl

/-- In every interleaving in which each version that is found unchanged belongs to a dataset that
nobody rolled back or read ahead of its save, what is committed was captured. Where the files stay
too while they are copied, the calls raise for an inconsistency only, and leave no snapshot. -/
theorem snapshots_capture_one_version [DecidableEq κ] (sha : Sha256 κ)
    (sources : FilePath → Option κ) (events : List (SnapshotEvent P κ))
    (hundisturbed : EachStep (watchedStep sha) (Undisturbed sha) (.start sources) events) :
    EveryState (snapshotStep sha) (Consistent sha) (.start sources fun _ => none) events ∧
      EachStep (snapshotStep sha) (LeavesNone sha) (.start sources fun _ => none) events := by
  have hkept : EveryState (watchedStep sha)
      (fun s : Watched P κ => WatchKept sha s.store s.watch ∧ ErrorsKept s.store)
      (.start sources) events := by
    apply everyState_of_eachStep _ _ hundisturbed
    · intro s a h hstep
      exact ⟨watchKept_step h.1 a hstep, errorsKept_step h.2 a hstep⟩
    · refine ⟨watchKept_start sources, ?_, ?_⟩
      · intro error herror
        cases herror
      · intro c hc
        cases hc
  have hconsistent : EveryState (watchedStep sha) (fun s : Watched P κ => Consistent sha s.store)
      (.start sources) events :=
    hkept.mono fun s h => ⟨h.1.captured, h.2.raised⟩
  refine ⟨(everyState_map_iff (f := Watched.store) fun s a => rfl).mp hconsistent, ?_⟩
  have hfree : EachStep (snapshotStep sha) (fun _ _ => True)
      (.start sources fun _ => none : SnapshotStore P κ) events :=
    eachStep_of_forall (fun _ _ => trivial) _
  exact hfree.mono fun s a _ => leavesNone s a

/-! ## Runs on one file -/

instance (c : Creation κ) (s : SnapshotStore P κ) (w : Watch P) : Decidable (c.Undisturbed s w) :=
  match hstage : c.stage with
  | .checking ((dataset, version) :: _) =>
      decidable_of_iff (s.versionOf dataset = some version →
        dataset ∉ w.torn ∧ dataset ∉ w.rolledBack) (by rw [Creation.Undisturbed, hstage])
  | .nextDataset | .reading | .copying _ | .checking [] | .persisting | .committing =>
      .isTrue (by rw [Creation.Undisturbed, hstage]; trivial)

instance (c : Creation κ) (s : SnapshotStore P κ) : Decidable (c.Unfailing sha s) :=
  match hstage : c.stage with
  | .reading =>
      decidable_of_iff (∀ path ∈ c.paths.head?, (s.sources path).isSome)
        (by rw [Creation.Unfailing, hstage])
  | .copying content =>
      decidable_of_iff (∀ path ∈ c.paths.head?, ∃ copied ∈ s.sources path,
          sha.ofFile copied = sha.ofFile content ∨
            ∃ index ∈ c.casIndex, (index (sha.ofFile content)).isSome)
        (by rw [Creation.Unfailing, hstage])
  | .committing =>
      decidable_of_iff ((s.snapshots.find? c.versionTag).isNone)
        (by rw [Creation.Unfailing, hstage, Option.isNone_iff_eq_none])
  | .nextDataset | .checking _ | .persisting =>
      .isTrue (by rw [Creation.Unfailing, hstage]; trivial)

instance (s : Watched P κ) (a : SnapshotEvent P κ) : Decidable (Undisturbed sha s a) :=
  match a with
  | .pin p => inferInstanceAs (Decidable (∀ pinning ∈ s.store.pinning p,
      ∀ dataset ∈ pinning.unpinned.head?, (s.store.manifests dataset).isSome))
  | .proceed _ _ => inferInstanceAs (Decidable (∀ c ∈ s.store.creation, c.error = none →
      c.Undisturbed s.store s.watch ∧ c.Unfailing sha s.store))
  | .fail _ => instDecidableFalse
  | .write _ _ | .save _ _ | .rollback _ | .request _ _ _ _ | .lock _ | .cleanup _ _ | .crash
  | .delete _ _ _ | .gc _ | .link _ _ => instDecidableTrue

def pricesSources (path : FilePath) : Option String :=
  if path = pricesPath then some "prices" else none

/-- The file is rewritten and saved while it is copied; the call is refused and made again. -/
def raceRun : List (SnapshotEvent Unit String) :=
  [.save "crsp" [pricesPath], .request () "v1" ["crsp"] false, .pin (), .lock (),
    .proceed .stored 0, .write pricesPath (some "later"), .proceed .stored 0,
    .save "crsp" [pricesPath], .proceed .stored 0, .proceed .stored 0, .proceed .stored 0,
    .proceed .stored 0, .cleanup true fun _ => false] ++
  createEvents "v1" ["crsp"] false 9

theorem snapshots_capture_one_version_race :
    EveryState (snapshotStep plainText) (Consistent plainText)
        (.start pricesSources fun _ => none) raceRun ∧
      EachStep (snapshotStep plainText) (LeavesNone plainText)
        (.start pricesSources fun _ => none) raceRun :=
  snapshots_capture_one_version plainText pricesSources raceRun (by decide +kernel)

/-- The file is rewritten, and the snapshot made before the save. -/
def tornRun : List (SnapshotEvent Unit String) :=
  [.save "crsp" [pricesPath], .write pricesPath (some "later")] ++
    createEvents "v1" ["crsp"] false 9

theorem rewritten_file_is_committed :
    ¬EveryState (snapshotStep plainText) (Consistent plainText)
      (.start pricesSources fun _ => none) tornRun := by
  intro h
  have hcommitted : ∃ snapshot ∈ (run (snapshotStep plainText)
      (.start pricesSources fun _ => none) tornRun).snapshots.rows,
      ∃ d ∈ snapshot.datasets.rows, ∀ manifest ∈ (run (snapshotStep plainText)
        (.start pricesSources fun _ => none) tornRun).saved d.dataset,
        recordedContents d.files ≠ manifest.signed := by
    decide +kernel
  obtain ⟨snapshot, hsnapshot, d, hd, hnever⟩ := hcommitted
  obtain ⟨manifest, hmem, -, hsigned, -⟩ := h.last.captured snapshot hsnapshot d hd
  exact hnever manifest hmem hsigned

end TradingPlatform.Data
