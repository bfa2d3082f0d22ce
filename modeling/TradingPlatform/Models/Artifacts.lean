import TradingPlatform.Base.Run
import TradingPlatform.Models.Registry

/-! # What becomes of registered artifacts

The files of a registration are written before its version is looked up. A version that
is registered already has its files replaced, and then removed in the clean-up.
-/

namespace TradingPlatform.Models

open Base

variable {B : Type*} {digests : ModelDigests B} {s : Registry B} {row : ModelRow}
  {dir : ArtifactDir B} {call : RegisterCall B} {key : ModelType × String}

/-- Every row has its files, with its digests, and they load. -/
def Registry.AllValid (digests : ModelDigests B) (s : Registry B) : Prop :=
  ∀ row ∈ s.db.models.rows, row.valid digests (s.artifacts row.key) = true

instance : Decidable (s.AllValid digests) :=
  inferInstanceAs (Decidable (∀ row ∈ s.db.models.rows, _ = true))

/-- A registration that raises leaves the database as it was. -/
def RaisesUnchanged (digests : ModelDigests B) (s : Registry B) : RegistryEvent B → Prop
  | .register call => (s.register digests call).2 = false → (s.register digests call).1.db = s.db
  | _ => True

/-- A registration that passes the checks and writes its model file is of a new version and updates
the manifest, or it raises before the transaction having written only files with the digests of the
row; files that are not cleaned up do no more. -/
def Harmless (digests : ModelDigests B) (s : Registry B) : RegistryEvent B → Prop
  | .register call => call.valid = true → ∀ model, call.payload = some model →
      call.failsAt ≠ some .makeDir → call.failsAt ≠ some .writeModel →
        match s.db.models.find? call.key with
        | none => call.failsAt ≠ some .manifest
        | some row => digests.ofModel model = row.checksumSha256 ∧
            (call.failsAt = some .writeChecksum ∨ call.failsAt = some .writeMetadata ∨
              digests.ofMetadata (call.sidecar digests model) = row.metadataSha256 ∧
                (call.failsAt = some .hashMetadata ∨ call.failsAt = some .connect ∨
                  call.cleans = false))
  | _ => True

/-! ## Directories -/

theorem valid_iff {model : B} {checksumFile : Option String} {metadata : ModelMetadata} :
    row.valid digests (some ⟨some model, checksumFile, some metadata⟩) = true ↔
      digests.ofModel model = row.checksumSha256 ∧
        digests.ofMetadata metadata = row.metadataSha256 ∧
        metadata.modelType.modelFile = row.modelType.modelFile ∧
        metadata.checksumSha256 = digests.ofModel model := by
  simp [ModelRow.valid]

@[simp] theorem valid_none : row.valid digests none = false := rfl

theorem exists_of_valid {found : Option (ArtifactDir B)} (h : row.valid digests found = true) :
    ∃ model checksumFile metadata, found = some ⟨some model, checksumFile, some metadata⟩ := by
  cases found with
  | none => cases h
  | some dir =>
      obtain ⟨model, checksumFile, metadata⟩ := dir
      cases model with
      | none => cases h
      | some model =>
          cases metadata with
          | none => cases h
          | some metadata => exact ⟨model, checksumFile, metadata, rfl⟩

/-- A directory that no row has is free. -/
theorem allValid_setDir_free (h : s.AllValid digests) (hfree : s.db.models.find? key = none)
    (dir : Option (ArtifactDir B)) : (s.setDir key dir).AllValid digests := by
  intro row hrow
  have hne : row.key ≠ key := Table.find?_eq_none.mp hfree row hrow
  change row.valid digests (Function.update s.artifacts key dir row.key) = true
  rw [Function.update_of_ne hne]
  exact h row hrow

/-- A directory of a row decides about that row. -/
theorem allValid_setDir_iff (h : s.AllValid digests) (hrow : s.db.models.find? key = some row)
    (dir : Option (ArtifactDir B)) :
    (s.setDir key dir).AllValid digests ↔ row.valid digests dir = true := by
  have hkey := Table.find?_key hrow
  constructor
  · intro hvalid
    have hnow := hvalid row (Table.find?_mem hrow)
    change row.valid digests (Function.update s.artifacts key dir row.key) = true at hnow
    rwa [hkey, Function.update_self] at hnow
  · intro hvalid other hother
    change other.valid digests (Function.update s.artifacts key dir other.key) = true
    by_cases heq : other.key = key
    · have hsame : s.db.models.find? other.key = some other := Table.find?_of_mem hother
      rw [heq, hrow] at hsame
      cases hsame
      rwa [heq, Function.update_self]
    · rw [Function.update_of_ne heq]
      exact h other hother

/-- The rows keep their keys and digests. -/
theorem allValid_of_rows (h : s.AllValid digests) {db : RegistryDb}
    (hrows : ∀ later ∈ db.models.rows, ∃ row ∈ s.db.models.rows, later.key = row.key ∧
      later.checksumSha256 = row.checksumSha256 ∧ later.metadataSha256 = row.metadataSha256) :
    Registry.AllValid digests { s with db } := by
  intro later hlater
  obtain ⟨row, hrow, hkey, hchecksum, hmetadata⟩ := hrows later hlater
  have htype : later.modelType = row.modelType := congrArg Prod.fst hkey
  have hvalid := h row hrow
  unfold ModelRow.valid at hvalid ⊢
  rw [hkey, hchecksum, hmetadata, htype]
  exact hvalid

/-! ## Registrations -/

theorem existing_allValid_iff (h : s.AllValid digests)
    (hrow : s.db.models.find? call.key = some row) :
    (s.register digests call).1.AllValid digests ↔ Harmless digests s (.register call) := by
  have htype : call.metadata.modelType = row.modelType :=
    (congrArg Prod.fst (Table.find?_key hrow)).symm
  have hnow := h row (Table.find?_mem hrow)
  rw [Table.find?_key hrow] at hnow
  obtain ⟨old, checksumFile, metadata, hdir⟩ := exists_of_valid hnow
  rw [hdir] at hnow
  have ⟨hmodel, hmetadata, hfile, hchecksum⟩ := valid_iff.mp hnow
  unfold Harmless
  dsimp only
  rw [hrow]
  cases hvalid : call.valid with
  | false =>
      have hsame : (s.register digests call).1 = s := by
        unfold Registry.register
        rw [hvalid]
        rfl
      rw [hsame]
      exact iff_of_true h nofun
  | true =>
      rw [register_existing_dir hvalid hrow, allValid_setDir_iff h hrow, hdir]
      unfold RegisterCall.serializeModel
      cases hpayload : call.payload with
      | none =>
          by_cases hmakeDir : call.failsAt = some .makeDir <;> simp [hmakeDir, hnow]
      | some model =>
          have hmodelOnly : ∀ file, row.valid digests (some ⟨some model, file, some metadata⟩) =
              true ↔ digests.ofModel model = row.checksumSha256 := by
            intro file
            rw [valid_iff]
            constructor
            · exact And.left
            · intro heq
              exact ⟨heq, hmetadata, hfile, by rw [hchecksum, hmodel, heq]⟩
          have hboth : row.valid digests (some ⟨some model, some (digests.ofModel model),
              some (call.sidecar digests model)⟩) = true ↔
                digests.ofModel model = row.checksumSha256 ∧
                  digests.ofMetadata (call.sidecar digests model) = row.metadataSha256 := by
            rw [valid_iff]
            constructor
            · intro ⟨heq, hsidecar, _⟩
              exact ⟨heq, hsidecar⟩
            · intro ⟨heq, hsidecar⟩
              exact ⟨heq, hsidecar, by rw [RegisterCall.sidecar, htype], rfl⟩
          cases hfails : call.failsAt with
          | none => cases hcleans : call.cleans <;> simp [hboth]
          | some stage =>
              cases stage <;> cases hcleans : call.cleans <;>
                simp [hmodelOnly, hboth, hnow]

/-- The row of a registration has its files. -/
theorem row_valid (call : RegisterCall B) (digests : ModelDigests B) (model : B) :
    (call.row digests model).valid digests (some (call.files digests model)) = true := by
  simp [ModelRow.valid, RegisterCall.files, RegisterCall.row, RegisterCall.sidecar]

theorem fresh_iff (h : s.AllValid digests) (hfree : s.db.models.find? call.key = none) :
    (s.register digests call).1.AllValid digests ∧
      (RaisesUnchanged digests s (.register call) ↔ Harmless digests s (.register call)) := by
  unfold RaisesUnchanged Harmless
  dsimp only
  rw [hfree]
  rcases @register_fresh _ digests _ _ hfree with
    ⟨⟨dir, hstop⟩, hmanifest⟩ | ⟨model, db, ⟨hvalid, hpayload, hmakeDir, hmodel⟩, hdb, hcommit⟩
  · rw [hstop]
    constructor
    · exact allValid_setDir_free h hfree dir
    · apply iff_of_true
      · intro _
        rfl
      · intro hvalid model hpayload _ _
        exact hmanifest hvalid (by rw [hpayload]; exact Option.some_ne_none model)
  · have ⟨hmodels, hhistory⟩ := register_db hdb
    rw [hcommit]
    constructor
    · intro row hrow
      rcases (Table.mem_insert hmodels).mp hrow with hold | rfl
      · exact allValid_setDir_free h hfree _ row hold
      · change (call.row digests model).valid digests
          (Function.update s.artifacts call.key _ call.key) = true
        rw [Function.update_self]
        exact row_valid call digests model
    · dsimp only
      constructor
      · intro hunchanged _ _ _ _ _ hmanifest
        have heq : db = s.db := hunchanged (by simp [hmanifest])
        rw [heq] at hhistory
        simpa using congrArg List.length hhistory
      · intro hharmless hraises
        have hmanifest := hharmless hvalid model hpayload hmakeDir hmodel
        simp [hmanifest] at hraises

/-! ## Runs -/

theorem promote_rows (db : RegistryDb) (modelType : ModelType) (version modelId : String)
    (changedBy : String) (now : ℤ) {later : ModelRow}
    (h : later ∈ (db.promote modelType version modelId changedBy now).models.rows) :
    ∃ row ∈ db.models.rows, later.key = row.key ∧
      later.checksumSha256 = row.checksumSha256 ∧ later.metadataSha256 = row.metadataSha256 := by
  unfold RegistryDb.promote Table.update at h
  rw [Table.mem_updateWhere] at h
  obtain ⟨archived, harchived, rfl⟩ := h
  rw [Table.mem_updateWhere] at harchived
  obtain ⟨row, hrow, rfl⟩ := harchived
  refine ⟨row, hrow, ?_⟩
  split <;> split <;> exact ⟨rfl, rfl, rfl⟩

theorem rollback_rows {db rolledBack : RegistryDb} {modelType : ModelType} {changedBy : String}
    {now : ℤ} (hdb : db.rollback modelType changedBy now = some rolledBack) {later : ModelRow}
    (h : later ∈ rolledBack.models.rows) :
    ∃ row ∈ db.models.rows, later.key = row.key ∧
      later.checksumSha256 = row.checksumSha256 ∧ later.metadataSha256 = row.metadataSha256 := by
  rw [RegistryDb.rollback, Option.map_eq_some_iff] at hdb
  obtain ⟨⟨current, previous⟩, _, rfl⟩ := hdb
  dsimp only at h
  rw [Table.mem_updateWhere] at h
  obtain ⟨restored, hrestored, rfl⟩ := h
  rw [Table.mem_updateWhere] at hrestored
  obtain ⟨row, hrow, rfl⟩ := hrestored
  refine ⟨row, hrow, ?_⟩
  split <;> split <;> exact ⟨rfl, rfl, rfl⟩

theorem registryStep_iff (h : s.AllValid digests) (event : RegistryEvent B) :
    (registryStep digests s event).AllValid digests ∧ RaisesUnchanged digests s event ↔
      Harmless digests s event := by
  cases event with
  | register call =>
      cases hrow : s.db.models.find? call.key with
      | none =>
          have ⟨hvalid, hiff⟩ := fresh_iff h hrow
          rw [← hiff]
          exact and_iff_right hvalid
      | some row =>
          rw [← existing_allValid_iff h hrow]
          apply and_iff_left
          intro _
          exact (register_existing hrow).1
  | promote call =>
      refine iff_of_true ⟨?_, trivial⟩ trivial
      change (s.promote digests call).AllValid digests
      unfold Registry.promote
      split
      · exact h
      · split
        · exact allValid_of_rows h fun later hlater => promote_rows _ _ _ _ _ _ hlater
        · exact h
  | rollback modelType changedBy now fails =>
      refine iff_of_true ⟨?_, trivial⟩ trivial
      change (s.rollback modelType changedBy now fails).AllValid digests
      unfold Registry.rollback
      split
      · exact h
      · split
        · exact h
        · rename_i db hdb
          exact allValid_of_rows h fun later hlater => rollback_rows hdb hlater

/-- The artifacts of every row are kept, and a registration that raises leaves the database as it
was, exactly when no registration does harm. -/
theorem artifacts_are_immutable_iff (digests : ModelDigests B) (artifacts : Artifacts B)
    (events : List (RegistryEvent B)) :
    EveryState (registryStep digests) (Registry.AllValid digests) (Registry.empty artifacts)
        events ∧
      EachStep (registryStep digests) (RaisesUnchanged digests) (Registry.empty artifacts)
        events ↔
    EachStep (registryStep digests) (Harmless digests) (Registry.empty artifacts) events :=
  everyState_and_eachStep_iff (G := fun _ => True) (fun _ _ _ => trivial)
    (fun _ event _ h => registryStep_iff h event) events trivial nofun

def someDigests : ModelDigests String := ⟨id, fun metadata => metadata.checksumSha256⟩

def momentumModel : RegisterCall String where
  payload := some "momentum"
  metadata :=
    { modelId := "momentum-1", modelType := .alphaWeights, version := "v1.0.0", createdAt := 0
      datasetVersionIds := [("crsp", "7")], snapshotId := "june"
      parameters := ["alpha_names", "combination_method", "ic_threshold"]
      checksumSha256 := "", metrics := [] }
  changedBy := "research"
  snapshots := none
  failsAt := none
  cleans := true

/-- A version that is registered again is refused, and its directory is gone. -/
theorem refused_registration_removes_artifacts :
    let again := [RegistryEvent.register momentumModel, .register momentumModel]
    ¬EveryState (registryStep someDigests) (Registry.AllValid someDigests)
        (Registry.empty fun _ => none) again ∧
      (run (registryStep someDigests) (Registry.empty fun _ => none) again).db.models.rows.length =
        1 ∧
      (run (registryStep someDigests) (Registry.empty fun _ => none) again).artifacts
        (.alphaWeights, "v1.0.0") = none := by
  decide +kernel

end TradingPlatform.Models
