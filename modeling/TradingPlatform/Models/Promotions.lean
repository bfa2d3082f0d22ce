import Mathlib.Data.Int.ConditionallyCompleteOrder
import Mathlib.Data.List.Chain
import Mathlib.Order.ConditionallyCompleteLattice.Basic
import Mathlib.Order.WithBot
import TradingPlatform.Base.RankedStack
import TradingPlatform.Base.Run
import TradingPlatform.Models.Registry

/-! # Promotions and their log

A promotion is logged as one of a staged model, whatever it is of, and models are told apart by
their ids alone. What each transaction does to the log, to the rows, and to the order of the
versions that have been in production.
-/

namespace TradingPlatform.Models

open Base

variable {B : Type*} {digests : ModelDigests B} {db : RegistryDb} {row : ModelRow}
  {modelType : ModelType} {version : String}

def PromotionRecord.Follows (previous next : PromotionRecord) : Prop :=
  next.fromStatus = some previous.toStatus

def RegistryDb.log (db : RegistryDb) (modelId : String) : List PromotionRecord :=
  db.history.filter fun record => record.modelId = modelId

/-- One version of each type is in production at most. -/
def RegistryDb.OneInProduction (db : RegistryDb) : Prop :=
  ∀ modelType, (db.models.select (ModelRow.inProduction modelType)).length ≤ 1

/-- Each record follows the one before it, and the last one is to the status. -/
def LeadsTo (log : List PromotionRecord) (status : ModelStatus) : Prop :=
  log.IsChain PromotionRecord.Follows ∧ log.getLast?.map PromotionRecord.toStatus = some status

instance (previous next : PromotionRecord) : Decidable (previous.Follows next) :=
  inferInstanceAs (Decidable (_ = _))

instance (log : List PromotionRecord) (status : ModelStatus) : Decidable (LeadsTo log status) :=
  inferInstanceAs (Decidable (_ ∧ _))

/-- The log of each model leads to its status. -/
def RegistryDb.Logged (db : RegistryDb) : Prop :=
  ∀ row ∈ db.models.rows, LeadsTo (db.log row.modelId) row.status

instance : Decidable db.Logged :=
  inferInstanceAs (Decidable (∀ row ∈ db.models.rows, LeadsTo _ _))

def RegistryDb.productionVersion (db : RegistryDb) (modelType : ModelType) : Option String :=
  (db.models.select (ModelRow.inProduction modelType)).head?.map ModelRow.version

/-- A registry with the time of its last promotion or rollback, and the version that was in
production before each version was last promoted. -/
structure PromotionRun (B : Type*) where
  registry : Registry B
  clock : WithBot ℤ
  predecessor : ModelType → String → Option String

def PromotionRun.empty (artifacts : Artifacts B) : PromotionRun B :=
  ⟨.empty artifacts, ⊥, fun _ _ => none⟩

def promotionStep (digests : ModelDigests B) (s : PromotionRun B) (event : RegistryEvent B) :
    PromotionRun B where
  registry := registryStep digests s.registry event
  clock :=
    match event with
    | .register _ => s.clock
    | .promote call => call.now
    | .rollback _ _ now _ => now
  predecessor :=
    match event with
    | .promote call => Function.update s.predecessor call.modelType
        (Function.update (s.predecessor call.modelType) call.version
          (s.registry.db.productionVersion call.modelType))
    | _ => s.predecessor

/-- The call returns, at a time after all others. -/
def Succeeds (digests : ModelDigests B) (s : PromotionRun B) : RegistryEvent B → Prop
  | .register call => (s.registry.register digests call).2 = true
  | .promote call => s.clock < call.now ∧ call.fails = false ∧
      ∃ metadata, s.registry.getModelMetadata digests call.modelType call.version =
        some metadata ∧ (call.skipGates = true ∨ call.gates.passed metadata = true)
  | .rollback modelType _ now fails => s.clock < now ∧ fails = false ∧
      s.registry.db.rollbackPair modelType ≠ none

/-- A rollback puts back the version before the one in production, if that is archived. -/
def RestoresPredecessor (digests : ModelDigests B) (s : PromotionRun B) :
    RegistryEvent B → Prop
  | .rollback modelType changedBy now fails =>
      ∀ current ∈ s.registry.db.models.rows, current.inProduction modelType = true →
        ∀ version, s.predecessor modelType current.version = some version →
          ∀ row, s.registry.db.models.find? (modelType, version) = some row →
            row.status = .archived →
              ((promotionStep digests s (.rollback modelType changedBy now fails)).registry.db
                |>.models.find? (modelType, version)).map ModelRow.status = some .production
  | _ => True

/-- A registration has a model id of its own, and a promotion is of a staged version. -/
def PromotesStaged (s : PromotionRun B) : RegistryEvent B → Prop
  | .register call => ∀ row ∈ s.registry.db.models.rows, row.modelId ≠ call.metadata.modelId
  | .promote call => ∀ row,
      s.registry.db.models.find? (call.modelType, call.version) = some row → row.status = .staged
  | .rollback .. => True

/-! ## Logs -/

theorem leadsTo_concat_iff {log : List PromotionRecord} {record : PromotionRecord}
    {status next : ModelStatus} (h : LeadsTo log status) :
    LeadsTo (log ++ [record]) next ↔
      record.fromStatus = some status ∧ record.toStatus = next := by
  have ⟨hchain, hlast⟩ := h
  rw [Option.map_eq_some_iff] at hlast
  obtain ⟨last, hlast, hstatus⟩ := hlast
  unfold LeadsTo
  rw [List.isChain_append, List.getLast?_concat, Option.map_some, Option.some.injEq]
  simp [hchain, hlast, PromotionRecord.Follows, hstatus]

/-- A model id is that of one row. -/
def RegistryDb.DistinctIds (db : RegistryDb) : Prop :=
  ∀ x ∈ db.models.rows, ∀ y ∈ db.models.rows, x.modelId = y.modelId → x = y

theorem filter_select_modelId (h : db.DistinctIds) (hrow : row ∈ db.models.rows)
    (p : ModelRow → Bool) :
    (db.models.select p).filter (fun other => other.modelId = row.modelId) =
      if p row = true then [row] else [] := by
  have hsame : (db.models.select p).filter (fun other => other.modelId = row.modelId) =
      (db.models.select p).filter (fun other => other = row) := by
    apply List.filter_congr
    intro other hother
    have hmem : other ∈ db.models.rows := List.mem_of_mem_filter hother
    simp only [decide_eq_decide]
    constructor
    · exact h other hmem row hrow
    · exact congrArg ModelRow.modelId
  have hnodup : (db.models.select p).Nodup := (db.models.keys_nodup.of_map _).filter p
  have hmem : row ∈ db.models.select p ↔ p row = true := by
    rw [Table.select, List.mem_filter]
    exact and_iff_right hrow
  rw [hsame, List.filter_eq, hnodup.count]
  by_cases hp : p row = true
  · rw [if_pos (hmem.mpr hp), if_pos hp]
    rfl
  · rw [if_neg (fun h => hp (hmem.mp h)), if_neg hp]
    rfl

theorem log_register {next : RegistryDb} {row : ModelRow} {changedBy : String}
    (h : db.register row changedBy = some next) (modelId : String) :
    next.log modelId = db.log modelId ++
      if row.modelId = modelId then [⟨row.modelId, none, .staged, changedBy⟩] else [] := by
  rw [RegistryDb.register, Option.map_eq_some_iff] at h
  obtain ⟨models, _, rfl⟩ := h
  by_cases hid : row.modelId = modelId <;> simp [RegistryDb.log, hid]

theorem log_promote (h : db.DistinctIds) (hrow : row ∈ db.models.rows) (modelType : ModelType)
    (version modelId changedBy : String) (now : ℤ) :
    (db.promote modelType version modelId changedBy now).log row.modelId =
      db.log row.modelId ++
        (if row.inProduction modelType = true then
          [⟨row.modelId, some .production, .archived, changedBy⟩] else []) ++
        if modelId = row.modelId then [⟨modelId, some .staged, .production, changedBy⟩]
        else [] := by
  have hproduction : ((db.models.select (ModelRow.inProduction modelType)).map fun other =>
        (⟨other.modelId, some .production, .archived, changedBy⟩ : PromotionRecord)).filter
          (fun record => record.modelId = row.modelId) =
      if row.inProduction modelType = true then
        [⟨row.modelId, some .production, .archived, changedBy⟩] else [] := by
    rw [List.filter_map]
    change ((db.models.select (ModelRow.inProduction modelType)).filter
      (fun other => other.modelId = row.modelId)).map _ = _
    rw [filter_select_modelId h hrow]
    split <;> rfl
  unfold RegistryDb.log RegistryDb.promote
  dsimp only
  rw [List.filter_append, List.filter_append, hproduction]
  congr 1
  by_cases hid : modelId = row.modelId <;> simp [hid]

theorem log_rollback {current previous : ModelRow} {next : RegistryDb} {changedBy : String}
    {now : ℤ} (hpair : db.rollbackPair modelType = some (current, previous))
    (h : db.rollback modelType changedBy now = some next) (modelId : String) :
    next.log modelId = db.log modelId ++
      (if previous.modelId = modelId then
        [⟨previous.modelId, some .archived, .production, changedBy⟩] else []) ++
      if current.modelId = modelId then
        [⟨current.modelId, some .production, .staged, changedBy⟩] else [] := by
  rw [RegistryDb.rollback, hpair] at h
  cases h
  by_cases hprevious : previous.modelId = modelId <;>
    by_cases hcurrent : current.modelId = modelId <;>
      simp [RegistryDb.log, hprevious, hcurrent]

/-! ## Rows -/

/-- What a promotion makes of a row. -/
def ModelRow.promoted (modelType : ModelType) (version : String) (now : ℤ) (row : ModelRow) :
    ModelRow :=
  if row.key = (modelType, version) then
    (if row.inProduction modelType then row.archive now else row).promote now
  else if row.inProduction modelType then row.archive now
  else row

/-- What a rollback makes of a row. -/
def ModelRow.rolledBack (row current previous : ModelRow) (now : ℤ) : ModelRow :=
  if row.modelId = current.modelId then
    (if row.modelId = previous.modelId then row.promote now else row).stage
  else if row.modelId = previous.modelId then row.promote now
  else row

theorem promoted_key (now : ℤ) (row : ModelRow) :
    (row.promoted modelType version now).key = row.key ∧
      (row.promoted modelType version now).modelId = row.modelId := by
  unfold ModelRow.promoted
  split
  · split <;> exact ⟨rfl, rfl⟩
  · split <;> exact ⟨rfl, rfl⟩

theorem promoted_target {now : ℤ} (h : row.key = (modelType, version)) :
    (row.promoted modelType version now).status = .production := by
  rw [ModelRow.promoted, if_pos h]
  rfl

theorem promoted_production {now : ℤ} (hne : row.key ≠ (modelType, version))
    (h : row.inProduction modelType = true) :
    row.promoted modelType version now = row.archive now := by
  rw [ModelRow.promoted, if_neg hne, if_pos h]

theorem promoted_other {now : ℤ} (hne : row.key ≠ (modelType, version))
    (h : row.inProduction modelType = false) : row.promoted modelType version now = row := by
  rw [ModelRow.promoted, if_neg hne, h]
  rfl

theorem rolledBack_key (row current previous : ModelRow) (now : ℤ) :
    (row.rolledBack current previous now).key = row.key ∧
      (row.rolledBack current previous now).modelId = row.modelId := by
  unfold ModelRow.rolledBack
  split
  · split <;> exact ⟨rfl, rfl⟩
  · split <;> exact ⟨rfl, rfl⟩

theorem rolledBack_current {current previous : ModelRow} {now : ℤ}
    (h : row.modelId = current.modelId) :
    (row.rolledBack current previous now).status = .staged := by
  rw [ModelRow.rolledBack, if_pos h]
  rfl

theorem rolledBack_previous {current previous : ModelRow} {now : ℤ}
    (hne : row.modelId ≠ current.modelId) (h : row.modelId = previous.modelId) :
    row.rolledBack current previous now = row.promote now := by
  rw [ModelRow.rolledBack, if_neg hne, if_pos h]

theorem rolledBack_other {current previous : ModelRow} {now : ℤ}
    (hcurrent : row.modelId ≠ current.modelId) (hprevious : row.modelId ≠ previous.modelId) :
    row.rolledBack current previous now = row := by
  rw [ModelRow.rolledBack, if_neg hcurrent, if_neg hprevious]

/-- The two updates of a promotion, one after the other. -/
theorem promoted_eq (now : ℤ) :
    ModelRow.promoted modelType version now =
      (fun row => if row.key = (modelType, version) then row.promote now else row) ∘
        fun row => if row.inProduction modelType then row.archive now else row := by
  funext row
  by_cases h : row.inProduction modelType = true <;>
    simp [ModelRow.promoted, h, ModelRow.archive_key]

/-- The two updates of a rollback, one after the other. -/
theorem rolledBack_eq (current previous : ModelRow) (now : ℤ) :
    (fun row : ModelRow => row.rolledBack current previous now) =
      (fun row => if row.modelId = current.modelId then row.stage else row) ∘
        fun row => if row.modelId = previous.modelId then row.promote now else row := by
  funext row
  have hid : (row.promote now).modelId = row.modelId := rfl
  by_cases h : row.modelId = previous.modelId <;> simp [ModelRow.rolledBack, h, hid]

theorem find?_promote (db : RegistryDb) (modelType : ModelType) (version modelId : String)
    (changedBy : String) (now : ℤ) (key : ModelType × String) :
    (db.promote modelType version modelId changedBy now).models.find? key =
      (db.models.find? key).map (ModelRow.promoted modelType version now) := by
  unfold RegistryDb.promote Table.update
  dsimp only
  rw [Table.find?_updateWhere, Table.find?_updateWhere, Option.map_map, promoted_eq]
  simp only [decide_eq_true_eq]

theorem mem_promote {modelId changedBy : String} {now : ℤ} {later : ModelRow} :
    later ∈ (db.promote modelType version modelId changedBy now).models.rows ↔
      ∃ row ∈ db.models.rows, row.promoted modelType version now = later := by
  unfold RegistryDb.promote Table.update
  rw [promoted_eq]
  simp [Table.updateWhere]

theorem rollback_models {current previous : ModelRow} {next : RegistryDb} {changedBy : String}
    {now : ℤ} (hpair : db.rollbackPair modelType = some (current, previous))
    (h : db.rollback modelType changedBy now = some next) :
    (∀ key, next.models.find? key =
        (db.models.find? key).map (fun row => row.rolledBack current previous now)) ∧
      ∀ later, later ∈ next.models.rows ↔
        ∃ row ∈ db.models.rows, row.rolledBack current previous now = later := by
  rw [RegistryDb.rollback, hpair] at h
  cases h
  dsimp only
  constructor
  · intro key
    rw [Table.find?_updateWhere, Table.find?_updateWhere, Option.map_map, rolledBack_eq]
    simp only [decide_eq_true_eq]
  · intro later
    have hrow : ∀ row : ModelRow, row.rolledBack current previous now = _ :=
      fun row => congrFun (rolledBack_eq current previous now) row
    simp [Table.updateWhere, hrow]

/-! ## Ranks -/

/-- Production is over the archive, which is ordered by time. -/
def ModelRow.rank (row : ModelRow) : WithBot (WithTop ℤ) :=
  match row.status with
  | .production => ⊤
  | .archived => ((row.archivedAt.getD 0 : ℤ) : WithTop ℤ)
  | _ => ⊥

def RegistryDb.rank (db : RegistryDb) (modelType : ModelType) (version : String) :
    WithBot (WithTop ℤ) :=
  (db.models.find? (modelType, version)).elim ⊥ ModelRow.rank

theorem rank_eq_top_iff : row.rank = ⊤ ↔ row.status = .production := by
  unfold ModelRow.rank
  cases row.status with
  | production => simp
  | archived => simp [← WithBot.coe_top]
  | staged => simp
  | failed => simp

theorem rank_staged (h : row.status = .staged) : row.rank = ⊥ := by
  unfold ModelRow.rank
  rw [h]

theorem rank_archived {time : ℤ} (h : row.status = .archived) (htime : row.archivedAt = some time) :
    row.rank = ((time : WithTop ℤ) : WithBot (WithTop ℤ)) := by
  unfold ModelRow.rank
  rw [h, htime]
  rfl

theorem rank_of_find? (h : db.models.find? (modelType, version) = some row) :
    db.rank modelType version = row.rank := by
  rw [RegistryDb.rank, h]
  rfl

theorem rank_of_mem (h : row ∈ db.models.rows) :
    db.rank row.modelType row.version = row.rank := rank_of_find? (Table.find?_of_mem h)

/-- A version with a rank has a row. -/
theorem exists_of_rank (h : db.rank modelType version ≠ ⊥) :
    ∃ row, db.models.find? (modelType, version) = some row ∧ row.rank =
      db.rank modelType version := by
  cases hrow : db.models.find? (modelType, version) with
  | none =>
      rw [RegistryDb.rank, hrow] at h
      exact absurd rfl h
  | some row => exact ⟨row, rfl, (rank_of_find? hrow).symm⟩

theorem inProduction_iff : row.inProduction modelType = true ↔
    row.modelType = modelType ∧ row.status = .production := by
  simp [ModelRow.inProduction]

/-- A new version has no rank, and changes no other. -/
theorem rank_register {next : RegistryDb} {changedBy : String}
    (h : db.register row changedBy = some next) (hstaged : row.status = .staged) :
    next.rank = db.rank := by
  rw [RegistryDb.register, Option.map_eq_some_iff] at h
  obtain ⟨models, hmodels, rfl⟩ := h
  funext modelType version
  unfold RegistryDb.rank
  dsimp only
  rw [Table.find?_insert hmodels]
  by_cases hkey : (modelType, version) = row.key
  · have hnone : db.models.find? row.key = none := by
      by_contra hfound
      rw [Table.insert_eq_none_iff_find?.mpr hfound] at hmodels
      cases hmodels
    rw [if_pos hkey, hkey, hnone]
    exact rank_staged hstaged
  · rw [if_neg hkey]

/-- A promotion pushes its version. -/
theorem rank_promote {modelId changedBy : String} {now : ℤ}
    (hrow : db.models.find? (modelType, version) = some row) (other : ModelType) :
    (db.promote modelType version modelId changedBy now).rank other =
      if other = modelType then
        Stacked.push (db.rank modelType) version ((now : WithTop ℤ) : WithBot (WithTop ℤ))
      else db.rank other := by
  funext v
  unfold RegistryDb.rank
  rw [find?_promote]
  by_cases htype : other = modelType
  · rw [if_pos htype, htype]
    by_cases hversion : v = version
    · rw [hversion, hrow, Stacked.push_self]
      exact rank_eq_top_iff.mpr (promoted_target (Table.find?_key hrow))
    · rw [Stacked.push_of_ne hversion]
      cases hother : db.models.find? (modelType, v) with
      | none => simp
      | some found =>
          have hkey : found.key = (modelType, v) := Table.find?_key hother
          have hne : found.key ≠ (modelType, version) := by simp [hkey, hversion]
          change (found.promoted modelType version now).rank =
            if found.rank = ⊤ then _ else found.rank
          by_cases hproduction : found.inProduction modelType = true
          · rw [promoted_production hne hproduction,
              if_pos (rank_eq_top_iff.mpr (inProduction_iff.mp hproduction).2)]
            exact rank_archived rfl rfl
          · rw [Bool.not_eq_true] at hproduction
            rw [promoted_other hne hproduction, if_neg]
            intro htop
            have htype : found.modelType = modelType := congrArg Prod.fst hkey
            rw [inProduction_iff.mpr ⟨htype, rank_eq_top_iff.mp htop⟩] at hproduction
            cases hproduction
  · rw [if_neg htype]
    cases hother : db.models.find? (other, v) with
    | none => rfl
    | some found =>
        have hkey : found.key = (other, v) := Table.find?_key hother
        have hne : found.key ≠ (modelType, version) := by simp [hkey, htype]
        have hproduction : found.inProduction modelType = false := by
          rw [← Bool.not_eq_true, inProduction_iff]
          intro ⟨hfound, _⟩
          exact htype ((congrArg Prod.fst hkey).symm.trans hfound)
        rw [Option.map_some, promoted_other hne hproduction]

theorem rollbackPair_eq_some {current previous : ModelRow}
    (h : db.rollbackPair modelType = some (current, previous)) :
    (current ∈ db.models.rows ∧ current.modelType = modelType ∧ current.status = .production) ∧
      (previous ∈ db.models.rows ∧ previous.modelType = modelType ∧
        previous.status = .archived) ∧
      ∀ row ∈ db.models.rows, row.modelType = modelType → row.status = .archived →
        ∀ time last, row.archivedAt = some time → previous.archivedAt = some last →
          time ≤ last := by
  unfold RegistryDb.rollbackPair at h
  rw [Option.bind_eq_bind, Option.bind_eq_some_iff] at h
  obtain ⟨found, hcurrent, h⟩ := h
  rw [Option.bind_eq_some_iff] at h
  obtain ⟨last, hprevious, h⟩ := h
  cases h
  have hhead := List.mem_filter.mp (List.mem_of_head? hcurrent)
  have hlast := List.mem_filter.mp (mem_of_latest hprevious)
  refine ⟨⟨hhead.1, inProduction_iff.mp hhead.2⟩, ⟨hlast.1, ?_⟩, ?_⟩
  · simpa [ModelRow.inArchive] using hlast.2
  · intro row hrow htype hstatus time last htime hlastTime
    have harchive : row ∈ db.models.select (ModelRow.inArchive modelType) :=
      List.mem_filter.mpr ⟨hrow, by simp [ModelRow.inArchive, htype, hstatus]⟩
    exact le_of_latest hprevious harchive htime hlastTime

/-- A rollback pops the version in production, and lifts the one archived last. -/
theorem rank_rollback (hids : db.DistinctIds) {current previous : ModelRow} {next : RegistryDb}
    {changedBy : String} {now : ℤ} (hpair : db.rollbackPair modelType = some (current, previous))
    (h : db.rollback modelType changedBy now = some next) (other : ModelType) :
    next.rank other =
      if other = modelType then Stacked.pop (db.rank modelType) current.version previous.version
      else db.rank other := by
  have ⟨⟨hcurrent, hcurrentType, _⟩, ⟨hprevious, hpreviousType, _⟩, _⟩ :=
    rollbackPair_eq_some hpair
  funext v
  unfold RegistryDb.rank
  rw [(rollback_models hpair h).1]
  have hid : ∀ found row : ModelRow, db.models.find? (other, v) = some found →
      row ∈ db.models.rows → row.modelType = modelType →
        (found.modelId = row.modelId ↔ other = modelType ∧ v = row.version) := by
    intro found row hfound hrow htype
    have hkey : found.key = (other, v) := Table.find?_key hfound
    constructor
    · intro heq
      have hsame := hids found (Table.find?_mem hfound) row hrow heq
      rw [hsame] at hkey
      exact ⟨(congrArg Prod.fst hkey).symm.trans htype, (congrArg Prod.snd hkey).symm⟩
    · intro ⟨hother, hversion⟩
      have hrow' : db.models.find? row.key = some row := Table.find?_of_mem hrow
      have hkeys : row.key = (other, v) := by rw [ModelRow.key, htype, hother, hversion]
      rw [hkeys, hfound] at hrow'
      cases hrow'
      rfl
  cases hfound : db.models.find? (other, v) with
  | none =>
      by_cases htype : other = modelType
      · rw [if_pos htype]
        have hnot : ∀ row ∈ db.models.rows, row.modelType = modelType → v ≠ row.version := by
          intro row hrow hrowType hversion
          exact Table.find?_eq_none.mp hfound row hrow (by
            rw [ModelRow.key, hrowType, htype, hversion])
        rw [Stacked.pop_other (hnot current hcurrent hcurrentType)
          (hnot previous hprevious hpreviousType), ← htype, hfound]
        rfl
      · rw [if_neg htype, hfound]
        rfl
  | some found =>
      have hisCurrent := hid found current hfound hcurrent hcurrentType
      have hisPrevious := hid found previous hfound hprevious hpreviousType
      change (found.rolledBack current previous now).rank = _
      by_cases htype : other = modelType
      · rw [if_pos htype]
        by_cases hv : v = current.version
        · rw [rank_staged (rolledBack_current (hisCurrent.mpr ⟨htype, hv⟩)), hv, Stacked.pop_self]
        · have hne : found.modelId ≠ current.modelId := fun heq => hv (hisCurrent.mp heq).2
          by_cases hv' : v = previous.version
          · rw [rolledBack_previous hne (hisPrevious.mpr ⟨htype, hv'⟩), hv',
              Stacked.pop_lifted (hv' ▸ hv)]
            exact rank_eq_top_iff.mpr rfl
          · have hne' : found.modelId ≠ previous.modelId := fun heq => hv' (hisPrevious.mp heq).2
            rw [rolledBack_other hne hne', Stacked.pop_other hv hv', ← htype, hfound]
            rfl
      · rw [if_neg htype, rolledBack_other (fun heq => htype (hisCurrent.mp heq).1)
          (fun heq => htype (hisPrevious.mp heq).1), hfound]
        rfl

end TradingPlatform.Models
