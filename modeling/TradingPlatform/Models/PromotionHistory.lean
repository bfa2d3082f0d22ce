import TradingPlatform.Models.Promotions

/-! # Promotions are logged as what they are

Runs of calls that return, at increasing times. While model ids are distinct and only staged
versions are promoted, the versions of each type that have been in production are a stack, and
every log leads to the status of its model.
-/

namespace TradingPlatform.Models

open Base

variable {B : Type*} {digests : ModelDigests B} {db : RegistryDb} {row : ModelRow}
  {modelType : ModelType} {version : String}

/-! ## The invariant -/

structure PromotionInvariant (s : PromotionRun B) : Prop where
  ids : s.registry.db.DistinctIds
  known : ∀ record ∈ s.registry.db.history, ∃ row ∈ s.registry.db.models.rows,
    row.modelId = record.modelId
  sidecars : ∀ row ∈ s.registry.db.models.rows, ∀ metadata,
    (s.registry.artifacts row.key).bind ArtifactDir.metadata = some metadata →
      metadata.modelId = row.modelId
  logged : s.registry.db.Logged
  archived : ∀ row ∈ s.registry.db.models.rows, row.status = .archived →
    ∃ time : ℤ, row.archivedAt = some time ∧ (time : WithBot ℤ) ≤ s.clock
  stacked : ∀ modelType, Stacked (s.registry.db.rank modelType) (s.predecessor modelType)

theorem PromotionInvariant.empty (artifacts : Artifacts B) :
    PromotionInvariant (PromotionRun.empty artifacts) where
  ids := nofun
  known := nofun
  sidecars := nofun
  logged := nofun
  archived := nofun
  stacked := fun _ => Stacked.empty _

theorem PromotionInvariant.oneInProduction {s : PromotionRun B} (h : PromotionInvariant s) :
    s.registry.db.OneInProduction := by
  intro modelType
  have hnodup : (s.registry.db.models.select (ModelRow.inProduction modelType)).Nodup :=
    (s.registry.db.models.keys_nodup.of_map _).filter _
  have hsame : ∀ x ∈ s.registry.db.models.select (ModelRow.inProduction modelType),
      ∀ y ∈ s.registry.db.models.select (ModelRow.inProduction modelType), x = y := by
    intro x hx y hy
    obtain ⟨hxmem, hxproduction⟩ := List.mem_filter.mp hx
    obtain ⟨hymem, hyproduction⟩ := List.mem_filter.mp hy
    obtain ⟨hxtype, hxstatus⟩ := inProduction_iff.mp hxproduction
    obtain ⟨hytype, hystatus⟩ := inProduction_iff.mp hyproduction
    have hxrank := rank_of_mem hxmem
    have hyrank := rank_of_mem hymem
    rw [hxtype, rank_eq_top_iff.mpr hxstatus] at hxrank
    rw [hytype, rank_eq_top_iff.mpr hystatus] at hyrank
    have hversion : x.version = y.version := by
      apply (h.stacked modelType).inj _ _ (hxrank.trans hyrank.symm)
      rw [hxrank]
      exact top_ne_bot
    have hx' := Table.find?_of_mem hxmem
    have hy' := Table.find?_of_mem hymem
    rw [ModelRow.key, hxtype, hversion] at hx'
    rw [ModelRow.key, hytype, hx'] at hy'
    exact Option.some.inj hy'
  cases hrows : s.registry.db.models.select (ModelRow.inProduction modelType) with
  | nil => exact Nat.zero_le 1
  | cons x rest =>
      cases rest with
      | nil => exact Nat.le_refl 1
      | cons y rest =>
          rw [hrows] at hnodup hsame
          have heq : x = y := hsame x (by simp) y (by simp)
          simp [heq] at hnodup

/-! ## Registrations -/

theorem register_succeeds {s : Registry B} {call : RegisterCall B}
    (h : (s.register digests call).2 = true) :
    ∃ model next, s.db.register (call.row digests model) call.changedBy = some next ∧
      (s.register digests call).1 =
        { s.setDir call.key (some (call.files digests model)) with db := next } := by
  cases hfound : s.db.models.find? call.key with
  | none =>
      rcases @register_fresh _ digests _ _ hfound with
        ⟨⟨dir, hstop⟩, _⟩ | ⟨model, next, _, hnext, hcommit⟩
      · rw [hstop] at h
        cases h
      · refine ⟨model, next, hnext, ?_⟩
        rw [hcommit]
  | some row =>
      rw [(register_existing hfound).2] at h
      cases h

theorem mem_register {next : RegistryDb} {changedBy : String} {x : ModelRow}
    (h : db.register row changedBy = some next) :
    x ∈ next.models.rows ↔ x ∈ db.models.rows ∨ x = row := by
  rw [RegistryDb.register, Option.map_eq_some_iff] at h
  obtain ⟨models, hmodels, rfl⟩ := h
  exact Table.mem_insert hmodels

theorem log_eq_nil (hknown : ∀ record ∈ db.history, ∃ row ∈ db.models.rows,
      row.modelId = record.modelId) {modelId : String}
    (hfresh : ∀ row ∈ db.models.rows, row.modelId ≠ modelId) : db.log modelId = [] := by
  rw [RegistryDb.log, List.filter_eq_nil_iff]
  intro record hrecord
  obtain ⟨row, hrow, hid⟩ := hknown record hrecord
  rw [decide_eq_true_eq, ← hid]
  exact hfresh row hrow

theorem register_keeps {s : PromotionRun B} {call : RegisterCall B} (h : PromotionInvariant s)
    (hreturns : (s.registry.register digests call).2 = true)
    (hfresh : ∀ row ∈ s.registry.db.models.rows, row.modelId ≠ call.metadata.modelId) :
    PromotionInvariant (promotionStep digests s (.register call)) := by
  obtain ⟨model, next, hnext, hstep⟩ := register_succeeds hreturns
  have hregistry : (promotionStep digests s (.register call)).registry =
      { s.registry.setDir call.key (some (call.files digests model)) with db := next } := hstep
  have hlog : ∀ modelId, next.log modelId = s.registry.db.log modelId ++
      if call.metadata.modelId = modelId then
        [⟨call.metadata.modelId, none, .staged, call.changedBy⟩] else [] :=
    log_register hnext
  have hkey : ∀ row ∈ s.registry.db.models.rows, row.key ≠ call.key := by
    rw [← Table.find?_eq_none]
    by_contra hfound
    have hnone := Table.insert_eq_none_iff_find?.mpr
      (show s.registry.db.models.find? (call.row digests model).key ≠ none from hfound)
    rw [RegistryDb.register, hnone] at hnext
    cases hnext
  constructor
  · rw [hregistry]
    intro x hx y hy heq
    rcases (mem_register hnext).mp hx with hxold | rfl <;>
      rcases (mem_register hnext).mp hy with hyold | rfl
    · exact h.ids x hxold y hyold heq
    · exact absurd heq (hfresh x hxold)
    · exact absurd heq.symm (hfresh y hyold)
    · rfl
  · rw [hregistry]
    obtain ⟨_, hhistory⟩ := register_db hnext
    intro record hrecord
    rw [hhistory, List.mem_append, List.mem_singleton] at hrecord
    rcases hrecord with hold | rfl
    · obtain ⟨row, hrow, hid⟩ := h.known record hold
      exact ⟨row, (mem_register hnext).mpr (Or.inl hrow), hid⟩
    · exact ⟨call.row digests model, (mem_register hnext).mpr (Or.inr rfl), rfl⟩
  · rw [hregistry]
    intro row hrow metadata hmetadata
    change (Function.update s.registry.artifacts call.key _ row.key).bind _ = _ at hmetadata
    rcases (mem_register hnext).mp hrow with hold | rfl
    · rw [Function.update_of_ne (hkey row hold)] at hmetadata
      exact h.sidecars row hold metadata hmetadata
    · change (Function.update s.registry.artifacts call.key _ call.key).bind _ = _ at hmetadata
      rw [Function.update_self] at hmetadata
      cases hmetadata
      rfl
  · rw [hregistry]
    intro row hrow
    rw [hlog]
    rcases (mem_register hnext).mp hrow with hold | rfl
    · rw [if_neg (hfresh row hold).symm, List.append_nil]
      exact h.logged row hold
    · change LeadsTo (s.registry.db.log call.metadata.modelId ++
        if call.metadata.modelId = call.metadata.modelId then _ else []) .staged
      rw [if_pos rfl, log_eq_nil h.known hfresh]
      exact ⟨List.isChain_singleton _, rfl⟩
  · rw [hregistry]
    intro row hrow harchived
    rcases (mem_register hnext).mp hrow with hold | rfl
    · exact h.archived row hold harchived
    · cases harchived
  · rw [hregistry]
    intro modelType
    change Stacked (next.rank modelType) (s.predecessor modelType)
    rw [rank_register hnext rfl]
    exact h.stacked modelType

/-- A registration under an id in use breaks the log of that id. -/
theorem fresh_of_logged {s : PromotionRun B} {call : RegisterCall B} (h : PromotionInvariant s)
    (hreturns : (s.registry.register digests call).2 = true)
    (hlogged : (promotionStep digests s (.register call)).registry.db.Logged) :
    ∀ row ∈ s.registry.db.models.rows, row.modelId ≠ call.metadata.modelId := by
  intro row hrow hid
  obtain ⟨model, next, hnext, hstep⟩ := register_succeeds hreturns
  have hregistry : (promotionStep digests s (.register call)).registry =
      { s.registry.setDir call.key (some (call.files digests model)) with db := next } := hstep
  rw [hregistry] at hlogged
  have hlog := hlogged row ((mem_register hnext).mpr (Or.inl hrow))
  rw [log_register hnext] at hlog
  change LeadsTo (_ ++ if call.metadata.modelId = row.modelId then _ else []) _ at hlog
  rw [if_pos hid.symm, leadsTo_concat_iff (h.logged row hrow)] at hlog
  cases hlog.1

/-! ## Promotions -/

theorem getModelMetadata_eq_some {s : Registry B} {metadata : ModelMetadata}
    (h : s.getModelMetadata digests modelType version = some metadata) :
    ∃ row, s.db.models.find? (modelType, version) = some row ∧
      (s.artifacts (modelType, version)).bind ArtifactDir.metadata = some metadata := by
  unfold Registry.getModelMetadata at h
  split at h
  · rename_i row found hrow hfound
    split at h
    · cases h
      exact ⟨row, hrow, hfound⟩
    · cases h
  · cases h

theorem promote_succeeds {s : PromotionRun B} {call : PromoteCall} (h : PromotionInvariant s)
    (hreturns : Succeeds digests s (.promote call)) :
    ∃ row, s.registry.db.models.find? (call.modelType, call.version) = some row ∧
      (promotionStep digests s (.promote call)).registry =
        { s.registry with
          db := s.registry.db.promote call.modelType call.version row.modelId call.changedBy
            call.now } := by
  have ⟨_, hfails, metadata, hmetadata, hgates⟩ := hreturns
  obtain ⟨row, hrow, hsidecar⟩ := getModelMetadata_eq_some hmetadata
  have hkey : row.key = (call.modelType, call.version) := Table.find?_key hrow
  have hid : metadata.modelId = row.modelId :=
    h.sidecars row (Table.find?_mem hrow) metadata (by rw [hkey, hsidecar])
  refine ⟨row, hrow, ?_⟩
  change s.registry.promote digests call = _
  unfold Registry.promote
  rw [hmetadata]
  dsimp only
  rw [if_pos ⟨hgates, by simp [hfails]⟩, hid]

/-- All ranks are at the clock at most, except that of the version in production. -/
theorem PromotionInvariant.past {s : PromotionRun B} (h : PromotionInvariant s) {now : ℤ}
    (hnow : s.clock < now) (modelType : ModelType) (v : String) :
    s.registry.db.rank modelType v = ⊤ ∨
      s.registry.db.rank modelType v < ((now : WithTop ℤ) : WithBot (WithTop ℤ)) := by
  by_cases hbot : s.registry.db.rank modelType v = ⊥
  · right
    rw [hbot]
    exact WithBot.bot_lt_coe _
  · obtain ⟨row, hrow, hrank⟩ := exists_of_rank hbot
    rw [← hrank] at hbot ⊢
    cases hstatus : row.status with
    | production => exact Or.inl (rank_eq_top_iff.mpr hstatus)
    | archived =>
        right
        obtain ⟨time, htime, hle⟩ := h.archived row (Table.find?_mem hrow) hstatus
        rw [rank_archived hstatus htime, WithBot.coe_lt_coe, WithTop.coe_lt_coe]
        exact WithBot.coe_lt_coe.mp (hle.trans_lt hnow)
    | staged => exact absurd (rank_staged hstatus) hbot
    | failed => simp [ModelRow.rank, hstatus] at hbot

theorem rank_productionVersion (h : db.productionVersion modelType = some version) :
    db.rank modelType version = ⊤ := by
  rw [RegistryDb.productionVersion, Option.map_eq_some_iff] at h
  obtain ⟨row, hhead, rfl⟩ := h
  have ⟨hmem, hproduction⟩ := List.mem_filter.mp (List.mem_of_head? hhead)
  have ⟨htype, hstatus⟩ := inProduction_iff.mp hproduction
  have hrank := rank_of_mem hmem
  rw [htype] at hrank
  rw [hrank]
  exact rank_eq_top_iff.mpr hstatus

theorem promote_keeps {s : PromotionRun B} {call : PromoteCall} (h : PromotionInvariant s)
    (hreturns : Succeeds digests s (.promote call))
    (hstaged : PromotesStaged s (.promote call)) :
    PromotionInvariant (promotionStep digests s (.promote call)) := by
  have hnow : s.clock < call.now := hreturns.1
  obtain ⟨target, hfound, hstep⟩ := promote_succeeds h hreturns
  have hstatus : target.status = .staged := hstaged target hfound
  have htarget : target ∈ s.registry.db.models.rows := Table.find?_mem hfound
  have hkey : target.key = (call.modelType, call.version) := Table.find?_key hfound
  constructor
  · rw [hstep]
    intro later hlater other hother heq
    obtain ⟨x, hx, rfl⟩ := mem_promote.mp hlater
    obtain ⟨y, hy, rfl⟩ := mem_promote.mp hother
    rw [(promoted_key call.now x).2, (promoted_key call.now y).2] at heq
    rw [h.ids x hx y hy heq]
  · rw [hstep]
    intro record hrecord
    have hrow : ∃ row ∈ s.registry.db.models.rows, row.modelId = record.modelId := by
      unfold RegistryDb.promote at hrecord
      dsimp only at hrecord
      rw [List.mem_append, List.mem_append, List.mem_map, List.mem_singleton] at hrecord
      rcases hrecord with (hold | ⟨row, hrow, rfl⟩) | rfl
      · exact h.known record hold
      · exact ⟨row, List.mem_of_mem_filter hrow, rfl⟩
      · exact ⟨target, htarget, rfl⟩
    obtain ⟨row, hrow, hid⟩ := hrow
    exact ⟨_, mem_promote.mpr ⟨row, hrow, rfl⟩, (promoted_key call.now row).2.trans hid⟩
  · rw [hstep]
    intro later hlater metadata hmetadata
    obtain ⟨row, hrow, rfl⟩ := mem_promote.mp hlater
    have ⟨hrowKey, hrowId⟩ := @promoted_key call.modelType call.version call.now row
    rw [hrowKey] at hmetadata
    rw [hrowId]
    exact h.sidecars row hrow metadata hmetadata
  · rw [hstep]
    intro later hlater
    obtain ⟨row, hrow, rfl⟩ := mem_promote.mp hlater
    have hlogged := h.logged row hrow
    rw [(promoted_key call.now row).2, log_promote h.ids hrow]
    by_cases hrowKey : row.key = (call.modelType, call.version)
    · have hsame : s.registry.db.models.find? row.key = some row := Table.find?_of_mem hrow
      rw [hrowKey, hfound] at hsame
      cases hsame
      have hproduction : ¬target.inProduction call.modelType = true := by
        simp [inProduction_iff, hstatus]
      rw [if_neg hproduction, List.append_nil, if_pos rfl, leadsTo_concat_iff hlogged,
        promoted_target hkey, hstatus]
      exact ⟨rfl, rfl⟩
    · have hid : target.modelId ≠ row.modelId := by
        intro heq
        rw [h.ids target htarget row hrow heq] at hkey
        exact hrowKey hkey
      rw [if_neg hid, List.append_nil]
      by_cases hproduction : row.inProduction call.modelType = true
      · rw [if_pos hproduction, leadsTo_concat_iff hlogged,
          promoted_production hrowKey hproduction, (inProduction_iff.mp hproduction).2]
        exact ⟨rfl, rfl⟩
      · rw [if_neg hproduction, List.append_nil,
          promoted_other hrowKey (Bool.not_eq_true _ ▸ hproduction)]
        exact hlogged
  · rw [hstep]
    intro later hlater harchived
    obtain ⟨row, hrow, rfl⟩ := mem_promote.mp hlater
    by_cases hrowKey : row.key = (call.modelType, call.version)
    · rw [promoted_target hrowKey] at harchived
      cases harchived
    · by_cases hproduction : row.inProduction call.modelType = true
      · rw [promoted_production hrowKey hproduction]
        exact ⟨call.now, rfl, le_refl _⟩
      · rw [promoted_other hrowKey (Bool.not_eq_true _ ▸ hproduction)] at harchived ⊢
        obtain ⟨time, htime, hle⟩ := h.archived row hrow harchived
        exact ⟨time, htime, hle.trans hnow.le⟩
  · rw [hstep]
    intro modelType
    change Stacked ((s.registry.db.promote _ _ _ _ _).rank modelType)
      (Function.update s.predecessor call.modelType _ modelType)
    rw [rank_promote hfound]
    by_cases htype : modelType = call.modelType
    · rw [if_pos htype, htype, Function.update_self]
      apply Stacked.pushed (h.stacked call.modelType)
      · rw [rank_of_find? hfound]
        exact rank_staged hstatus
      · exact WithBot.bot_lt_coe _
      · exact WithBot.coe_lt_coe.mpr (WithTop.coe_lt_top _)
      · exact h.past hnow call.modelType
      · intro v hv
        exact rank_productionVersion hv
    · rw [if_neg htype, Function.update_of_ne htype]
      exact h.stacked modelType

/-- A promotion of what is not staged breaks the log of the model. -/
theorem staged_of_logged {s : PromotionRun B} {call : PromoteCall} (h : PromotionInvariant s)
    (hreturns : Succeeds digests s (.promote call))
    (hlogged : (promotionStep digests s (.promote call)).registry.db.Logged) :
    PromotesStaged s (.promote call) := by
  obtain ⟨target, hfound, hstep⟩ := promote_succeeds h hreturns
  intro row hrow
  rw [hfound] at hrow
  cases hrow
  have htarget : target ∈ s.registry.db.models.rows := Table.find?_mem hfound
  have hbefore := h.logged target htarget
  rw [hstep] at hlogged
  have hlog := hlogged _ (mem_promote.mpr ⟨target, htarget, rfl⟩)
  rw [(promoted_key call.now target).2, log_promote h.ids htarget, if_pos rfl] at hlog
  by_cases hproduction : target.inProduction call.modelType = true
  · have harchived : LeadsTo (s.registry.db.log target.modelId ++
        [⟨target.modelId, some .production, .archived, call.changedBy⟩]) .archived := by
      rw [leadsTo_concat_iff hbefore, (inProduction_iff.mp hproduction).2]
      exact ⟨rfl, rfl⟩
    rw [if_pos hproduction, leadsTo_concat_iff harchived] at hlog
    cases hlog.1
  · rw [if_neg hproduction, List.append_nil, leadsTo_concat_iff hbefore] at hlog
    exact (Option.some.inj hlog.1).symm

/-! ## Rollbacks -/

theorem rollback_succeeds {s : PromotionRun B} {changedBy : String} {now : ℤ} {fails : Bool}
    (hreturns : Succeeds digests s (.rollback modelType changedBy now fails)) :
    ∃ current previous next,
      s.registry.db.rollbackPair modelType = some (current, previous) ∧
      s.registry.db.rollback modelType changedBy now = some next ∧
      (promotionStep digests s (.rollback modelType changedBy now fails)).registry =
        { s.registry with db := next } := by
  have ⟨_, hfails, hpair⟩ := hreturns
  obtain ⟨⟨current, previous⟩, hpair⟩ := Option.ne_none_iff_exists'.mp hpair
  cases hnext : s.registry.db.rollback modelType changedBy now with
  | none =>
      rw [RegistryDb.rollback, hpair] at hnext
      cases hnext
  | some next =>
      refine ⟨current, previous, next, hpair, rfl, ?_⟩
      change s.registry.rollback modelType changedBy now fails = _
      unfold Registry.rollback
      rw [hfails, hnext]
      rfl

/-- The version archived last has the greatest rank beside the one in production. -/
theorem PromotionInvariant.greatest {s : PromotionRun B} (h : PromotionInvariant s)
    {current previous : ModelRow}
    (hpair : s.registry.db.rollbackPair modelType = some (current, previous)) :
    s.registry.db.rank modelType current.version = ⊤ ∧
      s.registry.db.rank modelType previous.version ≠ ⊥ ∧
      previous.version ≠ current.version ∧
      ∀ v, v ≠ current.version →
        s.registry.db.rank modelType v ≤ s.registry.db.rank modelType previous.version := by
  have ⟨⟨hcurrent, hcurrentType, hcurrentStatus⟩, ⟨hprevious, hpreviousType, hpreviousStatus⟩,
    hlast⟩ := rollbackPair_eq_some hpair
  obtain ⟨last, hlastTime, _⟩ := h.archived previous hprevious hpreviousStatus
  have htop := rank_of_mem hcurrent
  rw [hcurrentType, rank_eq_top_iff.mpr hcurrentStatus] at htop
  have hrank := rank_of_mem hprevious
  rw [hpreviousType, rank_archived hpreviousStatus hlastTime] at hrank
  refine ⟨htop, ?_, ?_, ?_⟩
  · rw [hrank]
    exact WithBot.coe_ne_bot
  · intro heq
    rw [heq, htop] at hrank
    exact WithTop.coe_ne_top (WithBot.coe_inj.mp hrank).symm
  · intro v hne
    by_cases hbot : s.registry.db.rank modelType v = ⊥
    · rw [hbot]
      exact bot_le
    · obtain ⟨row, hrow, hrowRank⟩ := exists_of_rank hbot
      have hmem : row ∈ s.registry.db.models.rows := Table.find?_mem hrow
      have hkey : row.key = (modelType, v) := Table.find?_key hrow
      have htype : row.modelType = modelType := congrArg Prod.fst hkey
      cases hstatus : row.status with
      | production =>
          have hv := (h.stacked modelType).inj v current.version
            (by rw [htop, ← hrowRank, rank_eq_top_iff.mpr hstatus]) hbot
          exact absurd hv hne
      | archived =>
          obtain ⟨time, htime, _⟩ := h.archived row hmem hstatus
          rw [← hrowRank, rank_archived hstatus htime, hrank, WithBot.coe_le_coe,
            WithTop.coe_le_coe]
          exact hlast row hmem htype hstatus _ _ htime hlastTime
      | staged => exact absurd (hrowRank.symm.trans (rank_staged hstatus)) hbot
      | failed =>
          rw [← hrowRank] at hbot
          simp [ModelRow.rank, hstatus] at hbot

theorem rollback_keeps {s : PromotionRun B} {changedBy : String} {now : ℤ} {fails : Bool}
    (h : PromotionInvariant s)
    (hreturns : Succeeds digests s (.rollback modelType changedBy now fails)) :
    PromotionInvariant (promotionStep digests s (.rollback modelType changedBy now fails)) := by
  have hnow : s.clock < now := hreturns.1
  obtain ⟨current, previous, next, hpair, hnext, hstep⟩ := rollback_succeeds hreturns
  obtain ⟨⟨hcurrent, _, hcurrentStatus⟩, ⟨hprevious, _, hpreviousStatus⟩, _⟩ :=
    rollbackPair_eq_some hpair
  obtain ⟨htop, hmember, hne, hgreatest⟩ := h.greatest hpair
  obtain ⟨_, hrows⟩ := rollback_models hpair hnext
  constructor
  · rw [hstep]
    intro later hlater other hother heq
    obtain ⟨x, hx, rfl⟩ := (hrows later).mp hlater
    obtain ⟨y, hy, rfl⟩ := (hrows other).mp hother
    rw [(rolledBack_key x current previous now).2, (rolledBack_key y current previous now).2]
      at heq
    rw [h.ids x hx y hy heq]
  · rw [hstep]
    intro record hrecord
    have hrow : ∃ row ∈ s.registry.db.models.rows, row.modelId = record.modelId := by
      rw [RegistryDb.rollback, hpair] at hnext
      cases hnext
      dsimp only at hrecord
      rw [List.mem_append, List.mem_pair] at hrecord
      rcases hrecord with hold | rfl | rfl
      · exact h.known record hold
      · exact ⟨previous, hprevious, rfl⟩
      · exact ⟨current, hcurrent, rfl⟩
    obtain ⟨row, hrow, hid⟩ := hrow
    exact ⟨_, (hrows _).mpr ⟨row, hrow, rfl⟩,
      (rolledBack_key row current previous now).2.trans hid⟩
  · rw [hstep]
    intro later hlater metadata hmetadata
    obtain ⟨row, hrow, rfl⟩ := (hrows later).mp hlater
    obtain ⟨hrowKey, hrowId⟩ := rolledBack_key row current previous now
    rw [hrowKey] at hmetadata
    rw [hrowId]
    exact h.sidecars row hrow metadata hmetadata
  · rw [hstep]
    intro later hlater
    obtain ⟨row, hrow, rfl⟩ := (hrows later).mp hlater
    have hlogged := h.logged row hrow
    rw [(rolledBack_key row current previous now).2, log_rollback hpair hnext]
    by_cases hisCurrent : row.modelId = current.modelId
    · have hsame : row = current := h.ids row hrow current hcurrent hisCurrent
      have hother : ¬previous.modelId = row.modelId := by
        intro heq
        have hsame' := h.ids previous hprevious row hrow heq
        rw [hsame', hsame, hcurrentStatus] at hpreviousStatus
        cases hpreviousStatus
      rw [if_neg hother, List.append_nil, if_pos hisCurrent.symm, leadsTo_concat_iff hlogged,
        rolledBack_current hisCurrent, hsame, hcurrentStatus]
      exact ⟨rfl, rfl⟩
    · rw [if_neg (Ne.symm hisCurrent), List.append_nil]
      by_cases hisPrevious : row.modelId = previous.modelId
      · have hsame : row = previous := h.ids row hrow previous hprevious hisPrevious
        rw [if_pos hisPrevious.symm, leadsTo_concat_iff hlogged,
          rolledBack_previous hisCurrent hisPrevious, hsame, hpreviousStatus]
        exact ⟨rfl, rfl⟩
      · rw [if_neg (Ne.symm hisPrevious), List.append_nil,
          rolledBack_other hisCurrent hisPrevious]
        exact hlogged
  · rw [hstep]
    intro later hlater harchived
    obtain ⟨row, hrow, rfl⟩ := (hrows later).mp hlater
    by_cases hisCurrent : row.modelId = current.modelId
    · rw [rolledBack_current hisCurrent] at harchived
      cases harchived
    · by_cases hisPrevious : row.modelId = previous.modelId
      · rw [rolledBack_previous hisCurrent hisPrevious] at harchived
        cases harchived
      · rw [rolledBack_other hisCurrent hisPrevious] at harchived ⊢
        obtain ⟨time, htime, hle⟩ := h.archived row hrow harchived
        exact ⟨time, htime, hle.trans hnow.le⟩
  · rw [hstep]
    intro other
    change Stacked (next.rank other) (s.predecessor other)
    rw [rank_rollback h.ids hpair hnext]
    by_cases htype : other = modelType
    · rw [if_pos htype, htype]
      exact (h.stacked modelType).popped htop hmember hne hgreatest
    · rw [if_neg htype]
      exact h.stacked other

theorem rollback_restores {s : PromotionRun B} {changedBy : String} {now : ℤ} {fails : Bool}
    (h : PromotionInvariant s)
    (hreturns : Succeeds digests s (.rollback modelType changedBy now fails)) :
    RestoresPredecessor digests s (.rollback modelType changedBy now fails) := by
  intro row hrow hproduction version hbefore archived harchived hstatus
  obtain ⟨current, previous, next, hpair, hnext, hstep⟩ := rollback_succeeds hreturns
  have ⟨htop, hmember, hne, hgreatest⟩ := h.greatest hpair
  have ⟨htype, hrowStatus⟩ := inProduction_iff.mp hproduction
  have hrank := rank_of_mem hrow
  rw [htype, rank_eq_top_iff.mpr hrowStatus] at hrank
  have hcurrent : row.version = current.version := by
    apply (h.stacked modelType).inj _ _ (hrank.trans htop.symm)
    rw [hrank]
    exact top_ne_bot
  rw [hcurrent] at hbefore
  have hversion : version = previous.version :=
    (h.stacked modelType).eq_of_greatest htop hbefore hmember hne hgreatest
  have hpopped := congrFun (rank_rollback h.ids hpair hnext modelType) version
  rw [if_pos rfl, hversion, Stacked.pop_lifted hne] at hpopped
  rw [hstep, hversion]
  obtain ⟨restored, hrestored, hrestoredRank⟩ := exists_of_rank (hpopped ▸ top_ne_bot)
  dsimp only
  rw [hrestored, Option.map_some, rank_eq_top_iff.mp (hrestoredRank.trans hpopped)]

/-! ## Runs -/

/-- The log is faithful, and rollbacks restore what was in production before, exactly when every
model has an id of its own and only staged versions are promoted. -/
theorem history_is_faithful_iff (digests : ModelDigests B) (artifacts : Artifacts B)
    (events : List (RegistryEvent B))
    (hreturns : EachStep (promotionStep digests) (Succeeds digests) (.empty artifacts) events) :
    EveryState (promotionStep digests)
        (fun s => s.registry.db.OneInProduction ∧ s.registry.db.Logged) (.empty artifacts)
        events ∧
      EachStep (promotionStep digests) (RestoresPredecessor digests) (.empty artifacts) events ↔
    EachStep (promotionStep digests) PromotesStaged (.empty artifacts) events := by
  apply everyState_and_eachStep_iff_of_invariant (G := PromotionInvariant)
    (W := Succeeds digests)
  · intro s h
    exact ⟨h.oneInProduction, h.logged⟩
  · intro s event h hsucceeds hstaged
    cases event with
    | register call => exact ⟨register_keeps h hsucceeds hstaged, trivial⟩
    | promote call => exact ⟨promote_keeps h hsucceeds hstaged, trivial⟩
    | rollback modelType changedBy now fails =>
        exact ⟨rollback_keeps h hsucceeds, rollback_restores h hsucceeds⟩
  · intro s event h hsucceeds hlogged
    cases event with
    | register call => exact fresh_of_logged h hsucceeds hlogged.2
    | promote call => exact staged_of_logged h hsucceeds hlogged.2
    | rollback modelType changedBy now fails => trivial
  · exact PromotionInvariant.empty artifacts
  · exact hreturns

def modelNamed (modelId version : String) : RegisterCall String where
  payload := some modelId
  metadata :=
    { modelId, modelType := .alphaWeights, version, createdAt := 0
      datasetVersionIds := [("crsp", "7")], snapshotId := "june"
      parameters := ["alpha_names", "combination_method", "ic_threshold"]
      checksumSha256 := "", metrics := [] }
  changedBy := "research"
  snapshots := none
  failsAt := none
  cleans := true

def promoteAt (version : String) (now : ℤ) : PromoteCall where
  modelType := .alphaWeights
  version := version
  changedBy := "research"
  skipGates := true
  gates := ⟨0, 0, 0⟩
  now := now
  fails := false

def plainDigests : ModelDigests String := ⟨id, fun metadata => metadata.checksumSha256⟩

theorem staged_of_find? {s : PromotionRun B} {call : PromoteCall}
    (h : (s.registry.db.models.find? (call.modelType, call.version)).map ModelRow.status =
      some .staged) : PromotesStaged s (.promote call) := by
  intro row hrow
  rw [hrow] at h
  exact Option.some.inj h

/-- Two models are promoted, and the second is rolled back. -/
def rolledBackOnce : List (RegistryEvent String) :=
  [.register (modelNamed "a" "v1.0.0"), .register (modelNamed "b" "v2.0.0"),
    .promote (promoteAt "v1.0.0" 1), .promote (promoteAt "v2.0.0" 2),
    .rollback .alphaWeights "research" 3 false]

theorem history_is_faithful_iff_rolledBack :
    EveryState (promotionStep plainDigests)
        (fun s => s.registry.db.OneInProduction ∧ s.registry.db.Logged)
        (.empty fun _ => none) rolledBackOnce ∧
      EachStep (promotionStep plainDigests) (RestoresPredecessor plainDigests)
        (.empty fun _ => none) rolledBackOnce := by
  apply (history_is_faithful_iff plainDigests (fun _ => none) rolledBackOnce ?_).mpr
  · refine ⟨nofun, ?_, ?_, ?_, trivial, trivial⟩
    · unfold PromotesStaged
      decide +kernel
    · exact staged_of_find? (by decide +kernel)
    · exact staged_of_find? (by decide +kernel)
  · refine ⟨?_, ?_, ?_, ?_, ?_, trivial⟩
    · unfold Succeeds
      decide +kernel
    · unfold Succeeds
      decide +kernel
    · refine ⟨WithBot.bot_lt_coe 1, rfl, (modelNamed "a" "v1.0.0").sidecar plainDigests "a", ?_,
        Or.inl rfl⟩
      decide +kernel
    · refine ⟨WithBot.coe_lt_coe.mpr (by decide), rfl,
        (modelNamed "b" "v2.0.0").sidecar plainDigests "b", ?_, Or.inl rfl⟩
      decide +kernel
    · refine ⟨WithBot.coe_lt_coe.mpr (by decide), rfl, ?_⟩
      decide +kernel

/-- The first model is promoted again after the second. -/
def promotedAgain : List (RegistryEvent String) :=
  [.register (modelNamed "a" "v1.0.0"), .register (modelNamed "b" "v2.0.0"),
    .promote (promoteAt "v1.0.0" 1), .promote (promoteAt "v2.0.0" 2),
    .promote (promoteAt "v1.0.0" 3)]

theorem archived_model_is_logged_as_staged :
    ¬EveryState (promotionStep plainDigests) (fun s => s.registry.db.Logged)
        (.empty fun _ => none) promotedAgain ∧
      (run (promotionStep plainDigests) (.empty fun _ => none) promotedAgain).registry.db.log "a" =
        [⟨"a", none, .staged, "research"⟩, ⟨"a", some .staged, .production, "research"⟩,
          ⟨"a", some .production, .archived, "research"⟩,
          ⟨"a", some .staged, .production, "research"⟩] := by
  decide +kernel

end TradingPlatform.Models
