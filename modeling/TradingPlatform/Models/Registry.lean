import Mathlib.Data.Rat.Init
import Mathlib.Algebra.Order.Ring.Unbundled.Rat
import TradingPlatform.Base.Table

/-! # The model registry

A table of the registered versions, a log of their promotions, and a directory of
artifacts for each type and version. Metrics are rational numbers.
-/

namespace TradingPlatform.Models

open Base

variable {B : Type*}

inductive ModelType where
  | riskModel | alphaWeights | factorDefinitions | featureTransforms
  deriving DecidableEq, Repr

inductive ModelStatus where
  | staged | production | archived | failed
  deriving DecidableEq, Repr

/-- The fields that the registry reads; a parameter is here by its name. -/
structure ModelMetadata where
  modelId : String
  modelType : ModelType
  version : String
  createdAt : ℤ
  datasetVersionIds : List (String × String)
  snapshotId : String
  parameters : List String
  checksumSha256 : String
  metrics : List (String × ℚ)
  deriving DecidableEq, Repr

structure ModelRow where
  modelId : String
  modelType : ModelType
  version : String
  status : ModelStatus
  checksumSha256 : String
  metadataSha256 : String
  promotedAt : Option ℤ
  archivedAt : Option ℤ
  deriving DecidableEq, Repr

/-- `UNIQUE (model_type, version)` -/
def ModelRow.key (row : ModelRow) : ModelType × String := (row.modelType, row.version)

/-- A row of `promotion_history`; a registration comes from no status. -/
structure PromotionRecord where
  modelId : String
  fromStatus : Option ModelStatus
  toStatus : ModelStatus
  changedBy : String
  deriving DecidableEq, Repr

structure RegistryDb where
  models : Table (ModelType × String) ModelRow ModelRow.key
  history : List PromotionRecord

/-- The SHA-256 of a model file and of a metadata sidecar. -/
structure ModelDigests (B : Type*) where
  ofModel : B → String
  ofMetadata : ModelMetadata → String

structure ArtifactDir (B : Type*) where
  model : Option B
  checksumFile : Option String
  metadata : Option ModelMetadata
  deriving DecidableEq, Repr

/-- The directory of each type and version. A version is of the form `v1.0.0`, so that these are
apart. -/
abbrev Artifacts (B : Type*) := ModelType × String → Option (ArtifactDir B)

structure Registry (B : Type*) where
  db : RegistryDb
  artifacts : Artifacts B

/-! ## The transactions -/

def RegistryDb.register (db : RegistryDb) (row : ModelRow) (changedBy : String) :
    Option RegistryDb :=
  (db.models.insert row).map fun models =>
    { models, history := db.history ++ [⟨row.modelId, none, .staged, changedBy⟩] }

def ModelRow.inProduction (modelType : ModelType) (row : ModelRow) : Bool :=
  row.modelType = modelType ∧ row.status = .production

def ModelRow.inArchive (modelType : ModelType) (row : ModelRow) : Bool :=
  row.modelType = modelType ∧ row.status = .archived

def ModelRow.archive (now : ℤ) (row : ModelRow) : ModelRow :=
  { row with status := .archived, archivedAt := some now }

def ModelRow.promote (now : ℤ) (row : ModelRow) : ModelRow :=
  { row with status := .production, promotedAt := some now }

def ModelRow.stage (row : ModelRow) : ModelRow :=
  { row with status := .staged, promotedAt := none }

theorem ModelRow.archive_key (now : ℤ) (row : ModelRow) : (row.archive now).key = row.key := rfl

theorem ModelRow.promote_key (now : ℤ) (row : ModelRow) : (row.promote now).key = row.key := rfl

theorem ModelRow.stage_key (row : ModelRow) : row.stage.key = row.key := rfl

/-- `promote_model` archives all that is in production, and promotes the version. -/
def RegistryDb.promote (db : RegistryDb) (modelType : ModelType) (version modelId : String)
    (changedBy : String) (now : ℤ) : RegistryDb :=
  let production := db.models.select (ModelRow.inProduction modelType)
  { models :=
      (db.models.updateWhere (ModelRow.inProduction modelType) (ModelRow.archive now)
        (ModelRow.archive_key now)).update (modelType, version) (ModelRow.promote now)
          (ModelRow.promote_key now)
    history := db.history ++
      production.map (fun row => ⟨row.modelId, some .production, .archived, changedBy⟩) ++
      [⟨modelId, some .staged, .production, changedBy⟩] }

/-- The versions in production and archived last, unless one is missing. -/
def RegistryDb.rollbackPair (db : RegistryDb) (modelType : ModelType) :
    Option (ModelRow × ModelRow) := do
  let current ← (db.models.select (ModelRow.inProduction modelType)).head?
  let previous ← latest ModelRow.archivedAt (db.models.select (ModelRow.inArchive modelType))
  return (current, previous)

/-- `rollback_model` -/
def RegistryDb.rollback (db : RegistryDb) (modelType : ModelType) (changedBy : String) (now : ℤ) :
    Option RegistryDb :=
  (db.rollbackPair modelType).map fun (current, previous) =>
    { models :=
        (db.models.updateWhere (fun row => row.modelId = previous.modelId) (ModelRow.promote now)
          (ModelRow.promote_key now)).updateWhere (fun row => row.modelId = current.modelId)
            ModelRow.stage ModelRow.stage_key
      history := db.history ++
        [⟨previous.modelId, some .archived, .production, changedBy⟩,
          ⟨current.modelId, some .production, .staged, changedBy⟩] }

/-! ## Registration -/

/-- `ARTIFACT_REQUIRED_FIELDS` -/
def ModelType.requiredFields : ModelType → List String
  | .riskModel => ["factor_list", "halflife_days", "shrinkage_intensity"]
  | .alphaWeights => ["alpha_names", "combination_method", "ic_threshold"]
  | .factorDefinitions => ["factor_names", "categories", "lookback_days"]
  | .featureTransforms => ["feature_names", "normalization_params"]

/-- Where a registration may raise besides its checks. -/
inductive RegisterStage where
  | makeDir | writeModel | writeChecksum | writeMetadata | hashMetadata | connect
  /-- From the start of the transaction to its commit. -/
  | transaction
  | manifest
  deriving DecidableEq, Repr

/-- A call, with the datasets of each snapshot. A payload that cannot be serialized is none; the
directory that is cleaned up may stay. -/
structure RegisterCall (B : Type*) where
  payload : Option B
  metadata : ModelMetadata
  changedBy : String
  snapshots : Option (String → Option (List (String × String)))
  failsAt : Option RegisterStage
  cleans : Bool

def RegisterCall.key (call : RegisterCall B) : ModelType × String :=
  (call.metadata.modelType, call.metadata.version)

/-- The snapshot has the versions of the datasets. -/
def RegisterCall.snapshotValid (call : RegisterCall B) : Bool :=
  match call.snapshots with
  | none => true
  | some getSnapshot =>
      match getSnapshot call.metadata.snapshotId with
      | none => false
      | some datasets => call.metadata.datasetVersionIds.all fun entry =>
          datasets.lookup entry.1 = some entry.2

/-- The checks before the artifact is serialized. -/
def RegisterCall.valid (call : RegisterCall B) : Bool :=
  (∀ field ∈ call.metadata.modelType.requiredFields, field ∈ call.metadata.parameters) ∧
    call.metadata.datasetVersionIds ≠ [] ∧ call.metadata.snapshotId ≠ "" ∧
    call.snapshotValid = true

def ArtifactDir.new : ArtifactDir B := ⟨none, none, none⟩

/-- The metadata with the checksum of the model file. -/
def RegisterCall.sidecar (call : RegisterCall B) (digests : ModelDigests B) (model : B) :
    ModelMetadata :=
  { call.metadata with checksumSha256 := digests.ofModel model }

/-- `serialize_model`: the directory that is left, and the model file unless it raises. -/
def RegisterCall.serializeModel (call : RegisterCall B) (digests : ModelDigests B)
    (dir : Option (ArtifactDir B)) : Option (ArtifactDir B) × Option B :=
  if call.failsAt = some .makeDir then (dir, none)
  else
    let dir := dir.getD .new
    match call.payload with
    | none => (some dir, none)
    | some model =>
        if call.failsAt = some .writeModel then (some dir, none)
        else
          let dir := { dir with model := some model }
          if call.failsAt = some .writeChecksum then (some dir, none)
          else
            let dir := { dir with checksumFile := some (digests.ofModel model) }
            if call.failsAt = some .writeMetadata then (some dir, none)
            else (some { dir with metadata := some (call.sidecar digests model) }, some model)

def RegisterCall.row (call : RegisterCall B) (digests : ModelDigests B) (model : B) : ModelRow where
  modelId := call.metadata.modelId
  modelType := call.metadata.modelType
  version := call.metadata.version
  status := .staged
  checksumSha256 := digests.ofModel model
  metadataSha256 := digests.ofMetadata (call.sidecar digests model)
  promotedAt := none
  archivedAt := none

def Registry.setDir (s : Registry B) (key : ModelType × String) (dir : Option (ArtifactDir B)) :
    Registry B := { s with artifacts := Function.update s.artifacts key dir }

/-- `register_model`, and whether it returns. -/
def Registry.register (digests : ModelDigests B) (s : Registry B) (call : RegisterCall B) :
    Registry B × Bool :=
  if call.valid then
    match call.serializeModel digests (s.artifacts call.key) with
    | (dir, none) => (s.setDir call.key dir, false)
    | (dir, some model) =>
        let written := s.setDir call.key dir
        if call.failsAt = some .hashMetadata ∨ call.failsAt = some .connect then (written, false)
        else
          let cleaned := if call.cleans then s.setDir call.key none else written
          match s.db.register (call.row digests model) call.changedBy with
          | none => (cleaned, false)
          | some db =>
              if call.failsAt = some .transaction then (cleaned, false)
              else ({ written with db }, call.failsAt ≠ some .manifest)
  else (s, false)

/-! ## Promotion -/

structure PromotionGates where
  minIc : ℚ
  minSharpe : ℚ
  minPaperTradeHours : ℚ

/-- `_check_promotion_gates` -/
def PromotionGates.passed (gates : PromotionGates) (metadata : ModelMetadata) : Bool :=
  let metric (name : String) : ℚ := (metadata.metrics.lookup name).getD 0
  gates.minIc ≤ metric "ic" ∧ gates.minSharpe ≤ metric "sharpe" ∧
    gates.minPaperTradeHours ≤ metric "paper_trade_hours"

/-- `get_model_metadata`, which verifies the sidecar. -/
def Registry.getModelMetadata (digests : ModelDigests B) (s : Registry B) (modelType : ModelType)
    (version : String) : Option ModelMetadata :=
  match s.db.models.find? (modelType, version),
      (s.artifacts (modelType, version)).bind ArtifactDir.metadata with
  | some row, some metadata =>
      if digests.ofMetadata metadata = row.metadataSha256 then some metadata else none
  | _, _ => none

structure PromoteCall where
  modelType : ModelType
  version : String
  changedBy : String
  skipGates : Bool
  gates : PromotionGates
  now : ℤ
  /-- Whether the transaction raises. -/
  fails : Bool

/-- `promote_model` -/
def Registry.promote (digests : ModelDigests B) (s : Registry B) (call : PromoteCall) :
    Registry B :=
  match s.getModelMetadata digests call.modelType call.version with
  | none => s
  | some metadata =>
      if (call.skipGates ∨ call.gates.passed metadata) ∧ ¬call.fails then
        { s with db :=
            s.db.promote call.modelType call.version metadata.modelId call.changedBy call.now }
      else s

/-- `rollback_model` -/
def Registry.rollback (s : Registry B) (modelType : ModelType) (changedBy : String) (now : ℤ)
    (fails : Bool) : Registry B :=
  if fails then s
  else
    match s.db.rollback modelType changedBy now with
    | none => s
    | some db => { s with db }

/-! ## The system -/

inductive RegistryEvent (B : Type*) where
  | register (call : RegisterCall B)
  | promote (call : PromoteCall)
  | rollback (modelType : ModelType) (changedBy : String) (now : ℤ) (fails : Bool)

def registryStep (digests : ModelDigests B) (s : Registry B) : RegistryEvent B → Registry B
  | .register call => (s.register digests call).1
  | .promote call => s.promote digests call
  | .rollback modelType changedBy now fails => s.rollback modelType changedBy now fails

/-- A registry without versions. -/
def Registry.empty (artifacts : Artifacts B) : Registry B := ⟨⟨Table.empty, []⟩, artifacts⟩

/-! ## Validation -/

/-- The name of the model file. -/
def ModelType.modelFile : ModelType → String
  | .alphaWeights => "model.json"
  | _ => "model.pkl"

/-- `validate_model`: the files have the digests of the row, and the model loads. -/
def ModelRow.valid (digests : ModelDigests B) (row : ModelRow) (dir : Option (ArtifactDir B)) :
    Bool :=
  match dir.bind ArtifactDir.model, dir.bind ArtifactDir.metadata with
  | some model, some metadata =>
      digests.ofModel model = row.checksumSha256 ∧
        digests.ofMetadata metadata = row.metadataSha256 ∧
        metadata.modelType.modelFile = row.modelType.modelFile ∧
        metadata.checksumSha256 = digests.ofModel model
  | _, _ => false

/-! ## What a registration does -/

section

variable {digests : ModelDigests B} {s : Registry B} {row : ModelRow} {call : RegisterCall B}

/-- The files of a registration. -/
def RegisterCall.files (call : RegisterCall B) (digests : ModelDigests B) (model : B) :
    ArtifactDir B :=
  ⟨some model, some (digests.ofModel model), some (call.sidecar digests model)⟩

/-- A registration that writes all of its files. -/
theorem serializeModel_eq_some {found dir : Option (ArtifactDir B)} {model : B}
    (h : call.serializeModel digests found = (dir, some model)) :
    dir = some ⟨some model, some (digests.ofModel model), some (call.sidecar digests model)⟩ ∧
      call.payload = some model ∧ call.failsAt ≠ some .makeDir ∧
        call.failsAt ≠ some .writeModel := by
  unfold RegisterCall.serializeModel at h
  by_cases hmakeDir : call.failsAt = some .makeDir
  · rw [if_pos hmakeDir] at h
    cases h
  · rw [if_neg hmakeDir] at h
    cases hpayload : call.payload with
    | none =>
        rw [hpayload] at h
        cases h
    | some payload =>
        rw [hpayload] at h
        dsimp only at h
        by_cases hmodel : call.failsAt = some .writeModel
        · rw [if_pos hmodel] at h
          cases h
        · rw [if_neg hmodel] at h
          by_cases hchecksum : call.failsAt = some .writeChecksum
          · rw [if_pos hchecksum] at h
            cases h
          · rw [if_neg hchecksum] at h
            by_cases hmetadata : call.failsAt = some .writeMetadata
            · rw [if_pos hmetadata] at h
              cases h
            · rw [if_neg hmetadata] at h
              cases h
              exact ⟨rfl, rfl, hmakeDir, hmodel⟩

theorem setDir_self (s : Registry B) (key : ModelType × String) :
    s.setDir key (s.artifacts key) = s := by
  rw [Registry.setDir, Function.update_eq_self]

/-- The registration of a new version commits it with its files, or it stops before that. -/
theorem register_fresh (hfree : s.db.models.find? call.key = none) :
    ((∃ dir, s.register digests call = (s.setDir call.key dir, false)) ∧
      (call.valid = true → call.payload ≠ none → call.failsAt ≠ some .manifest)) ∨
    ∃ model db, (call.valid = true ∧ call.payload = some model ∧
        call.failsAt ≠ some .makeDir ∧ call.failsAt ≠ some .writeModel) ∧
      s.db.register (call.row digests model) call.changedBy = some db ∧
      s.register digests call =
        ({ s.setDir call.key (some (call.files digests model)) with db },
          decide (call.failsAt ≠ some .manifest)) := by
  unfold Registry.register
  by_cases hvalid : call.valid = true
  · rw [if_pos hvalid]
    cases hserialized : call.serializeModel digests (s.artifacts call.key) with
    | mk dir written =>
        cases written with
        | none =>
            left
            constructor
            · exact ⟨dir, rfl⟩
            · intro _ hpayload hmanifest
              obtain ⟨model, hmodel⟩ := Option.ne_none_iff_exists'.mp hpayload
              simp [RegisterCall.serializeModel, hmodel, hmanifest] at hserialized
        | some model =>
            have ⟨hdir, hpayload, hmakeDir, hmodel⟩ := serializeModel_eq_some hserialized
            dsimp only
            by_cases hbefore : call.failsAt = some .hashMetadata ∨ call.failsAt = some .connect
            · left
              rw [if_pos hbefore]
              constructor
              · exact ⟨dir, rfl⟩
              · rintro _ _ hmanifest
                simp [hmanifest] at hbefore
            · rw [if_neg hbefore]
              have hnew : s.db.models.insert (call.row digests model) ≠ none := by
                rw [Ne, Table.insert_eq_none_iff_find?, not_not]
                exact hfree
              obtain ⟨models, hmodels⟩ := Option.ne_none_iff_exists'.mp hnew
              have hdb : s.db.register (call.row digests model) call.changedBy = some
                  { models, history := s.db.history ++
                    [⟨call.metadata.modelId, none, .staged, call.changedBy⟩] } := by
                rw [RegistryDb.register, hmodels]
                rfl
              rw [hdb]
              dsimp only
              by_cases htransaction : call.failsAt = some .transaction
              · left
                rw [if_pos htransaction]
                constructor
                · cases call.cleans with
                  | true => exact ⟨none, rfl⟩
                  | false => exact ⟨dir, rfl⟩
                · intro _ _ hmanifest
                  rw [htransaction] at hmanifest
                  cases hmanifest
              · right
                rw [if_neg htransaction, hdir]
                exact ⟨model, _, ⟨hvalid, hpayload, hmakeDir, hmodel⟩, hdb, rfl⟩
  · left
    rw [if_neg hvalid]
    constructor
    · exact ⟨s.artifacts call.key, by rw [setDir_self]⟩
    · intro h
      exact absurd h hvalid

theorem register_db {model : B} {db : RegistryDb}
    (h : s.db.register (call.row digests model) call.changedBy = some db) :
    s.db.models.insert (call.row digests model) = some db.models ∧
      db.history = s.db.history ++ [⟨call.metadata.modelId, none, .staged, call.changedBy⟩] := by
  rw [RegistryDb.register, Option.map_eq_some_iff] at h
  obtain ⟨models, hmodels, rfl⟩ := h
  exact ⟨hmodels, rfl⟩

/-- A version that exists is refused. -/
theorem register_eq_none (hrow : s.db.models.find? call.key = some row) (model : B) :
    s.db.register (call.row digests model) call.changedBy = none := by
  have hnone : s.db.models.insert (call.row digests model) = none := by
    rw [Table.insert_eq_none_iff_find?]
    change s.db.models.find? call.key ≠ none
    rw [hrow]
    exact Option.some_ne_none row
  rw [RegistryDb.register, hnone]
  rfl

/-- The registration of a version that exists raises and changes its directory at most. -/
theorem register_existing (hrow : s.db.models.find? call.key = some row) :
    (s.register digests call).1.db = s.db ∧ (s.register digests call).2 = false := by
  unfold Registry.register
  split
  · split
    · exact ⟨rfl, rfl⟩
    · rename_i dir model hserialized
      rw [register_eq_none hrow model]
      dsimp only
      split
      · exact ⟨rfl, rfl⟩
      · split
        · exact ⟨rfl, rfl⟩
        · exact ⟨rfl, rfl⟩
  · exact ⟨rfl, rfl⟩

/-- What the registration of a version that exists leaves of its directory. -/
theorem register_existing_dir (hvalid : call.valid = true)
    (hrow : s.db.models.find? call.key = some row) :
    (s.register digests call).1 = s.setDir call.key
      (match call.serializeModel digests (s.artifacts call.key) with
      | (dir, none) => dir
      | (dir, some _) =>
          if (call.failsAt = some .hashMetadata ∨ call.failsAt = some .connect) ∨
            call.cleans = false then dir
          else none) := by
  unfold Registry.register
  rw [if_pos hvalid]
  cases hserialized : call.serializeModel digests (s.artifacts call.key) with
  | mk dir written =>
      cases written with
      | none => rfl
      | some model =>
          dsimp only
          rw [register_eq_none hrow model]
          by_cases hbefore : call.failsAt = some .hashMetadata ∨ call.failsAt = some .connect
          · rw [if_pos hbefore, if_pos (Or.inl hbefore)]
          · rw [if_neg hbefore]
            dsimp only
            cases hcleans : call.cleans with
            | true => simp [hbefore]
            | false => simp

end

end TradingPlatform.Models
