import TradingPlatform.Base.Run
import Mathlib.Data.List.Pairwise
import Mathlib.Logic.Function.Basic

/-! # Hot reload of the signal model

One caller at a time asks the database for the active version, loads its file and either activates
it or leaves it to a shadow validation, which runs later in a thread of its own. A newer version
supersedes a validation that is pending. Models become current in the order in which they were
asked for, each approved against the model it replaces unless its reload waived the validation.
-/

namespace TradingPlatform.Models

open Base

variable {M : Type}

/-! ## State -/

/-- A row of `model_registry`, by the columns that a reload reads. -/
structure ActiveModel where
  strategyName : String
  version : String
  modelPath : String
  deriving DecidableEq, Repr

structure ReloadParams where
  hasShadowValidator : Bool
  shadowValidationEnabled : Bool
  skipShadowValidation : Bool
  /-- `schedule_validation` is given -/
  scheduled : Bool
  deriving DecidableEq, Repr

def ReloadParams.wantsValidation (p : ReloadParams) : Bool :=
  p.shadowValidationEnabled && !p.skipShadowValidation && p.hasShadowValidator

inductive ValidationPhase where
  | scheduled | running
  | judged (passed : Bool)
  | cleanUp | done
  deriving DecidableEq, Repr

/-- `_run_shadow_validation`, with what it has captured. -/
structure ValidationTask (M : Type) where
  call : ℕ
  currentModel : M
  newModel : M
  newMetadata : ActiveModel
  phase : ValidationPhase

/-- Where a call of `reload_if_changed` stands. -/
inductive ReloadCall (M : Type) where
  | idle
  | changed (params : ReloadParams) (metadata : ActiveModel)
  | reading (params : ReloadParams) (metadata : ActiveModel)
  | loaded (params : ReloadParams) (metadata : ActiveModel) (model : M)
  | inline (validation : ℕ) (metadata : ActiveModel)

inductive ReloadResult where
  | returned (reloaded : Bool)
  | raised
  deriving DecidableEq, Repr

inductive ActivationReason (M : Type) where
  | noCurrentModel
  | waived (params : ReloadParams)
  | approved (against : M)

/-- A model that became current, with the number of the call that loaded it. -/
structure Activation (M : Type) where
  call : ℕ
  metadata : ActiveModel
  model : M
  reason : ActivationReason M

/-- The record of the run: it is read by no call. -/
structure ReloadHistory (M : Type) where
  calls : ℕ
  reads : List (String × M)
  approvals : List (M × M)
  activations : List (Activation M)
  results : List ReloadResult

structure HotRegistry (M : Type) where
  currentModel : Option M
  currentMetadata : Option ActiveModel
  pendingModel : Option M
  pendingMetadata : Option ActiveModel
  pendingValidation : Bool
  pendingValidationId : Option ℕ
  pendingValidationCounter : ℕ
  reload : ReloadCall M
  tasks : ℕ → Option (ValidationTask M)
  history : ReloadHistory M

/-! ## Actions -/

inductive ReloadAction (M : Type) where
  /-- the row of the active version, or `none` when the query fails or finds none -/
  | start (params : ReloadParams) (active : Option ActiveModel)
  | supersede
  /-- the model of the file, or `none` when it cannot be read or cannot predict -/
  | readFile (model : Option M)
  | activate
  | finishInline
  /-- the next stage of a validation, and the verdict, or `none` when the validator raises -/
  | validate (validation : ℕ) (verdict : Option Bool)

def HotRegistry.finish (s : HotRegistry M) (result : ReloadResult) : HotRegistry M :=
  { s with
    reload := .idle
    history := { s.history with results := s.history.results ++ [result] } }

/-- A failed reload keeps the current model. -/
def HotRegistry.failed (s : HotRegistry M) : HotRegistry M :=
  s.finish (if s.currentModel.isSome && s.currentMetadata.isSome then .returned false else .raised)

def HotRegistry.clearPending (s : HotRegistry M) : HotRegistry M :=
  { s with
    pendingModel := none
    pendingMetadata := none
    pendingValidation := false
    pendingValidationId := none }

def HotRegistry.setCurrent (s : HotRegistry M) (activation : Activation M) : HotRegistry M :=
  { s with
    currentModel := some activation.model
    currentMetadata := some activation.metadata
    history := { s.history with activations := activation :: s.history.activations } }

def HotRegistry.setTask (s : HotRegistry M) (validation : ℕ) (task : ValidationTask M) :
    HotRegistry M :=
  { s with tasks := Function.update s.tasks validation (some task) }

def ValidationTask.at (task : ValidationTask M) (phase : ValidationPhase) : ValidationTask M :=
  { task with phase }

/-- `start`: the query, and the comparison with the current version. -/
def HotRegistry.startReload (s : HotRegistry M) (params : ReloadParams)
    (active : Option ActiveModel) : HotRegistry M :=
  let s := { s with history := { s.history with calls := s.history.calls + 1 } }
  match active with
  | none => s.failed
  | some metadata =>
      if s.currentMetadata.any fun current => metadata.version = current.version then
        s.finish (.returned false)
      else { s with reload := .changed params metadata }

/-- The section that finds the version pending already, or gives up another one. -/
def HotRegistry.supersede (s : HotRegistry M) (params : ReloadParams) (metadata : ActiveModel) :
    HotRegistry M :=
  if s.pendingValidation && s.pendingMetadata.any fun pending =>
      metadata.version = pending.version then
    s.finish (.returned false)
  else if s.pendingValidation && s.pendingMetadata.isSome then
    { s.clearPending with reload := .reading params metadata }
  else { s with reload := .reading params metadata }

def HotRegistry.readFile (s : HotRegistry M) (params : ReloadParams) (metadata : ActiveModel)
    (model : Option M) : HotRegistry M :=
  match model with
  | none => s.failed
  | some model =>
      { s with
        reload := .loaded params metadata model
        history := { s.history with reads := (metadata.modelPath, model) :: s.history.reads } }

/-- The section that makes the model pending, with its validation. -/
def HotRegistry.submit (s : HotRegistry M) (params : ReloadParams) (metadata : ActiveModel)
    (model current : M) : HotRegistry M :=
  let validation := s.pendingValidationCounter + 1
  let s := { s with
    pendingValidationCounter := validation
    pendingModel := some model
    pendingMetadata := some metadata
    pendingValidation := true
    pendingValidationId := some validation }
  let s := s.setTask validation ⟨s.history.calls, current, model, metadata, .scheduled⟩
  if params.scheduled then s.finish (.returned false)
  else { s with reload := .inline validation metadata }

/-- A validation if one is wanted and there is a model to compare with, otherwise the model itself
at once. -/
def HotRegistry.activate (s : HotRegistry M) (params : ReloadParams) (metadata : ActiveModel)
    (model : M) : HotRegistry M :=
  match s.currentModel with
  | some current =>
      if params.wantsValidation then s.submit params metadata model current
      else
        (s.setCurrent ⟨s.history.calls, metadata, model, .waived params⟩).finish (.returned true)
  | none =>
      (s.setCurrent ⟨s.history.calls, metadata, model, .noCurrentModel⟩).finish (.returned true)

/-- The check at the head of both sections of a validation. -/
def HotRegistry.isPending (s : HotRegistry M) (validation : ℕ) (metadata : ActiveModel) : Bool :=
  s.pendingValidationId = some validation &&
    s.pendingMetadata.any fun pending => pending.version = metadata.version

/-- The next stage of a validation. -/
def HotRegistry.validate (s : HotRegistry M) (validation : ℕ) (task : ValidationTask M)
    (verdict : Option Bool) : HotRegistry M :=
  match task.phase with
  | .scheduled =>
      s.setTask validation (task.at
        (if s.isPending validation task.newMetadata then .running else .cleanUp))
  | .running =>
      match verdict with
      | none => s.setTask validation (task.at .cleanUp)
      | some passed =>
          { s.setTask validation (task.at (.judged passed)) with
            history := { s.history with
              approvals :=
                if passed then (task.currentModel, task.newModel) :: s.history.approvals
                else s.history.approvals } }
  | .judged passed =>
      let s := s.setTask validation (task.at .cleanUp)
      if s.isPending validation task.newMetadata then
        if passed then
          (s.setCurrent ⟨task.call, task.newMetadata, task.newModel,
            .approved task.currentModel⟩).clearPending
        else s.clearPending
      else s
  | .cleanUp =>
      let s := s.setTask validation (task.at .done)
      if s.pendingValidationId = some validation then s.clearPending else s
  | .done => s

def hotStep (s : HotRegistry M) : ReloadAction M → HotRegistry M
  | .start params active =>
      match s.reload with
      | .idle => s.startReload params active
      | _ => s
  | .supersede =>
      match s.reload with
      | .changed params metadata => s.supersede params metadata
      | _ => s
  | .readFile model =>
      match s.reload with
      | .reading params metadata => s.readFile params metadata model
      | _ => s
  | .activate =>
      match s.reload with
      | .loaded params metadata model => s.activate params metadata model
      | _ => s
  | .finishInline =>
      match s.reload with
      | .inline validation metadata =>
          if (s.tasks validation).any fun task => task.phase = .done then
            s.finish (.returned (s.currentMetadata.any fun current =>
              current.version = metadata.version))
          else s
      | _ => s
  | .validate validation verdict =>
      match s.tasks validation with
      | none => s
      | some task => s.validate validation task verdict

def emptyRegistry : HotRegistry M :=
  ⟨none, none, none, none, false, none, 0, .idle, fun _ => none, ⟨0, [], [], [], []⟩⟩

/-! ## What the activations say -/

/-- The model was read from the file of its metadata, and it was let in: as the first one, without
validation because its reload waived it, or approved against the model before it. -/
def Justified (h : ReloadHistory M) : List (Activation M) → Prop
  | [] => True
  | a :: earlier =>
      (match a.reason with
        | .noCurrentModel => earlier = []
        | .waived params => params.wantsValidation = false
        | .approved against =>
            earlier.head?.map Activation.model = some against ∧
              (against, a.model) ∈ h.approvals) ∧
        (a.metadata.modelPath, a.model) ∈ h.reads ∧ Justified h earlier

theorem Justified.mono {h : ReloadHistory M} {activations : List (Activation M)}
    (hjust : Justified h activations) (h' : ReloadHistory M)
    (hreads : ∀ x ∈ h.reads, x ∈ h'.reads) (happrovals : ∀ x ∈ h.approvals, x ∈ h'.approvals) :
    Justified h' activations := by
  induction activations with
  | nil => trivial
  | cons a earlier ih =>
      obtain ⟨hreason, hread, hearlier⟩ := hjust
      refine ⟨?_, hreads _ hread, ih hearlier⟩
      cases hcase : a.reason with
      | noCurrentModel => simpa [hcase] using hreason
      | waived params => simpa [hcase] using hreason
      | approved against =>
          rw [hcase] at hreason
          exact ⟨hreason.1, happrovals _ hreason.2⟩

/-! ## The invariant -/

structure TaskInv (s : HotRegistry M) (validation : ℕ) (task : ValidationTask M) : Prop where
  numbered : validation ≤ s.pendingValidationCounter
  called : task.call ≤ s.history.calls
  read : (task.newMetadata.modelPath, task.newModel) ∈ s.history.reads
  approved : task.phase = .judged true → (task.currentModel, task.newModel) ∈ s.history.approvals

/-- A validation that may still activate its model: it is to replace the current one, and nothing
that was asked for later has become current. -/
structure PendingInv (s : HotRegistry M) (validation : ℕ) (task : ValidationTask M) : Prop where
  flagged : s.pendingValidation = true
  metadata : s.pendingMetadata = some task.newMetadata
  current : s.currentModel = some task.currentModel
  newest : ∀ a ∈ s.history.activations, a.call < task.call

/-- All that is there belongs to earlier calls. -/
structure NewCall (s : HotRegistry M) : Prop where
  activations : ∀ a ∈ s.history.activations, a.call < s.history.calls
  tasks : ∀ validation task, s.tasks validation = some task → task.call < s.history.calls

def ReloadInv (s : HotRegistry M) : ReloadCall M → Prop
  | .idle | .inline _ _ => True
  | .changed _ _ => NewCall s
  | .reading _ _ => NewCall s ∧ s.pendingValidationId = none
  | .loaded _ metadata model =>
      NewCall s ∧ s.pendingValidationId = none ∧ (metadata.modelPath, model) ∈ s.history.reads

structure HotInv (s : HotRegistry M) : Prop where
  currentModel : s.currentModel = s.history.activations.head?.map Activation.model
  currentMetadata : s.currentMetadata = s.history.activations.head?.map Activation.metadata
  ordered : s.history.activations.Pairwise fun a b => b.call < a.call
  bounded : ∀ a ∈ s.history.activations, a.call ≤ s.history.calls
  justified : Justified s.history s.history.activations
  tasks : ∀ validation task, s.tasks validation = some task → TaskInv s validation task
  pending : ∀ validation, s.pendingValidationId = some validation →
    ∃ task, s.tasks validation = some task ∧ PendingInv s validation task
  reload : ReloadInv s s.reload

variable {s : HotRegistry M}

theorem hotInv_empty : HotInv (emptyRegistry : HotRegistry M) := by
  constructor <;> simp [emptyRegistry, Justified, ReloadInv]

theorem HotInv.finish (h : HotInv s) (result : ReloadResult) : HotInv (s.finish result) where
  currentModel := h.currentModel
  currentMetadata := h.currentMetadata
  ordered := h.ordered
  bounded := h.bounded
  justified := h.justified.mono (s.finish result).history (fun x hx => hx) fun x hx => hx
  tasks v task htask := by
    obtain ⟨hnumbered, hcalled, hread, happroved⟩ := h.tasks v task htask
    exact ⟨hnumbered, hcalled, hread, happroved⟩
  pending v hv := by
    obtain ⟨task, htask, hpending⟩ := h.pending v hv
    exact ⟨task, htask, hpending.flagged, hpending.metadata, hpending.current, hpending.newest⟩
  reload := trivial

theorem HotInv.failed (h : HotInv s) : HotInv s.failed := h.finish _

theorem ReloadInv.clearPending {call : ReloadCall M} (h : ReloadInv s call) :
    ReloadInv s.clearPending call := by
  cases call with
  | idle => trivial
  | inline validation metadata => trivial
  | changed params metadata => exact ⟨h.activations, h.tasks⟩
  | reading params metadata => exact ⟨⟨h.1.activations, h.1.tasks⟩, rfl⟩
  | loaded params metadata model => exact ⟨⟨h.1.activations, h.1.tasks⟩, rfl, h.2.2⟩

theorem HotInv.clearPending (h : HotInv s) : HotInv s.clearPending where
  currentModel := h.currentModel
  currentMetadata := h.currentMetadata
  ordered := h.ordered
  bounded := h.bounded
  justified := h.justified
  tasks v task htask := by
    obtain ⟨hnumbered, hcalled, hread, happroved⟩ := h.tasks v task htask
    exact ⟨hnumbered, hcalled, hread, happroved⟩
  pending v hv := absurd hv (by simp [HotRegistry.clearPending])
  reload := h.reload.clearPending

theorem tasks_setTask {validation v : ℕ} {task task' : ValidationTask M}
    (hv : (s.setTask validation task).tasks v = some task') :
    v = validation ∧ task' = task ∨ s.tasks v = some task' := by
  have hv : Function.update s.tasks validation (some task) v = some task' := hv
  by_cases heq : v = validation
  · rw [heq, Function.update_self] at hv
    exact .inl ⟨heq, (Option.some.inj hv).symm⟩
  · rw [Function.update_of_ne heq] at hv
    exact .inr hv

/-- A stage of a validation changes nothing but its phase. -/
theorem HotInv.setPhase (h : HotInv s) {validation : ℕ} {task : ValidationTask M}
    (htask : s.tasks validation = some task) {phase : ValidationPhase}
    (happroved : phase = .judged true →
      (task.currentModel, task.newModel) ∈ s.history.approvals) :
    HotInv (s.setTask validation (task.at phase)) := by
  have hinv := h.tasks validation task htask
  have hnew : NewCall s → NewCall (s.setTask validation (task.at phase)) := by
    intro hcall
    refine ⟨hcall.activations, fun v task' hv => ?_⟩
    rcases tasks_setTask hv with ⟨_, heq⟩ | hold
    · rw [heq]
      exact hcall.tasks validation task htask
    · exact hcall.tasks v task' hold
  constructor
  case currentModel => exact h.currentModel
  case currentMetadata => exact h.currentMetadata
  case ordered => exact h.ordered
  case bounded => exact h.bounded
  case justified => exact h.justified
  case tasks =>
    intro v task' hv
    rcases tasks_setTask hv with ⟨hsame, heq⟩ | hold
    · rw [heq, hsame]
      exact ⟨hinv.numbered, hinv.called, hinv.read, happroved⟩
    · obtain ⟨hnumbered, hcalled, hread, hjudged⟩ := h.tasks v task' hold
      exact ⟨hnumbered, hcalled, hread, hjudged⟩
  case pending =>
    intro v hv
    obtain ⟨task', htask', hpending⟩ := h.pending v hv
    by_cases heq : v = validation
    · rw [heq, htask] at htask'
      rw [heq, Option.some.inj htask']
      rw [← Option.some.inj htask'] at hpending
      refine ⟨task.at phase, ?_, hpending.flagged, hpending.metadata, hpending.current,
        hpending.newest⟩
      rw [← Option.some.inj htask']
      exact Function.update_self ..
    · exact ⟨task', (Function.update_of_ne heq ..).trans htask', hpending.flagged,
        hpending.metadata, hpending.current, hpending.newest⟩
  case reload =>
    have hreload := h.reload
    show ReloadInv (s.setTask validation (task.at phase)) s.reload
    cases hcall : s.reload with
    | idle => trivial
    | inline v metadata => trivial
    | changed params metadata =>
        rw [hcall] at hreload
        exact hnew hreload
    | reading params metadata =>
        rw [hcall] at hreload
        exact ⟨hnew hreload.1, hreload.2⟩
    | loaded params metadata model =>
        rw [hcall] at hreload
        exact ⟨hnew hreload.1, hreload.2⟩

/-- A call that moves on changes nothing but where it stands. -/
theorem HotInv.setReload (h : HotInv s) (call : ReloadCall M) (hcall : ReloadInv s call) :
    HotInv { s with reload := call } where
  currentModel := h.currentModel
  currentMetadata := h.currentMetadata
  ordered := h.ordered
  bounded := h.bounded
  justified := h.justified
  tasks v task htask := by
    obtain ⟨hnumbered, hcalled, hread, happroved⟩ := h.tasks v task htask
    exact ⟨hnumbered, hcalled, hread, happroved⟩
  pending v hv := by
    obtain ⟨task, htask, hpending⟩ := h.pending v hv
    exact ⟨task, htask, hpending.flagged, hpending.metadata, hpending.current, hpending.newest⟩
  reload := by
    cases call with
    | idle => trivial
    | inline validation metadata => trivial
    | changed params metadata => exact ⟨hcall.activations, hcall.tasks⟩
    | reading params metadata => exact ⟨⟨hcall.1.activations, hcall.1.tasks⟩, hcall.2⟩
    | loaded params metadata model => exact ⟨⟨hcall.1.activations, hcall.1.tasks⟩, hcall.2⟩

/-- With nothing pending, a model that was asked for after the ones before it may become current. -/
theorem HotInv.setCurrent (h : HotInv s) {a : Activation M}
    (hpending : s.pendingValidationId = none)
    (hnew : ∀ b ∈ s.history.activations, b.call < a.call) (hcalls : a.call ≤ s.history.calls)
    (hjust : Justified s.history (a :: s.history.activations))
    (hreload : ReloadInv (s.setCurrent a) s.reload) : HotInv (s.setCurrent a) where
  currentModel := rfl
  currentMetadata := rfl
  ordered := List.pairwise_cons.2 ⟨hnew, h.ordered⟩
  bounded b hb := by
    rcases List.mem_cons.1 hb with heq | hold
    · rw [heq]
      exact hcalls
    · exact h.bounded b hold
  justified := hjust.mono (s.setCurrent a).history (fun x hx => hx) fun x hx => hx
  tasks v task htask := by
    obtain ⟨hnumbered, hcalled, hread, happroved⟩ := h.tasks v task htask
    exact ⟨hnumbered, hcalled, hread, happroved⟩
  pending v hv := by
    have hv : s.pendingValidationId = some v := hv
    simp [hpending] at hv
  reload := hreload

/-! ## One step -/

theorem HotInv.startReload (h : HotInv s) (params : ReloadParams) (active : Option ActiveModel)
    (hidle : s.reload = .idle) : HotInv (s.startReload params active) := by
  have hcounted : HotInv { s with history := { s.history with calls := s.history.calls + 1 } } :=
    { currentModel := h.currentModel
      currentMetadata := h.currentMetadata
      ordered := h.ordered
      bounded := fun a ha => Nat.le_succ_of_le (h.bounded a ha)
      justified := h.justified.mono { s.history with calls := s.history.calls + 1 }
        (fun x hx => hx) fun x hx => hx
      tasks := fun v task htask => by
        obtain ⟨hnumbered, hcalled, hread, happroved⟩ := h.tasks v task htask
        exact ⟨hnumbered, Nat.le_succ_of_le hcalled, hread, happroved⟩
      pending := fun v hv => by
        obtain ⟨task, htask, hpending⟩ := h.pending v hv
        exact ⟨task, htask, hpending.flagged, hpending.metadata, hpending.current,
          hpending.newest⟩
      reload := by
        show ReloadInv _ s.reload
        rw [hidle]
        trivial }
  cases active with
  | none => exact hcounted.failed
  | some metadata =>
      simp only [HotRegistry.startReload]
      split
      · exact hcounted.finish _
      · refine hcounted.setReload (.changed params metadata) ⟨?_, ?_⟩
        · exact fun a ha => Nat.lt_succ_of_le (h.bounded a ha)
        · exact fun v task htask => Nat.lt_succ_of_le (h.tasks v task htask).called

/-- Without a pending version there is no validation that could still activate one. -/
theorem HotInv.pendingValidationId_eq_none (h : HotInv s)
    (hnone : ¬(s.pendingValidation && s.pendingMetadata.isSome) = true) :
    s.pendingValidationId = none := by
  cases hid : s.pendingValidationId with
  | none => rfl
  | some validation =>
      obtain ⟨task, _, hpending⟩ := h.pending validation hid
      exact absurd (by rw [hpending.flagged, hpending.metadata]; rfl) hnone

theorem HotInv.supersede (h : HotInv s) (params : ReloadParams) (metadata : ActiveModel)
    (hnew : NewCall s) : HotInv (s.supersede params metadata) := by
  unfold HotRegistry.supersede
  split
  · exact h.finish _
  · split
    · exact h.clearPending.setReload (.reading params metadata)
        ⟨⟨hnew.activations, hnew.tasks⟩, rfl⟩
    · rename_i hnone
      exact h.setReload (.reading params metadata)
        ⟨hnew, h.pendingValidationId_eq_none hnone⟩

theorem HotInv.readFile (h : HotInv s) (params : ReloadParams) (metadata : ActiveModel)
    (model : Option M) (hnew : NewCall s) (hpending : s.pendingValidationId = none) :
    HotInv (s.readFile params metadata model) := by
  cases model with
  | none => exact h.failed
  | some model =>
      have hmem : ∀ x ∈ s.history.reads, x ∈ (metadata.modelPath, model) :: s.history.reads :=
        fun x hx => List.mem_cons_of_mem _ hx
      constructor
      case currentModel => exact h.currentModel
      case currentMetadata => exact h.currentMetadata
      case ordered => exact h.ordered
      case bounded => exact h.bounded
      case justified =>
        exact h.justified.mono
          { s.history with reads := (metadata.modelPath, model) :: s.history.reads }
          hmem fun x hx => hx
      case tasks =>
        intro v task htask
        obtain ⟨hnumbered, hcalled, hread, happroved⟩ := h.tasks v task htask
        exact ⟨hnumbered, hcalled, hmem _ hread, happroved⟩
      case pending =>
        intro v hv
        have hv : s.pendingValidationId = some v := hv
        simp [hpending] at hv
      case reload => exact ⟨⟨hnew.activations, hnew.tasks⟩, hpending, List.mem_cons_self ..⟩

theorem HotInv.submit (h : HotInv s) (params : ReloadParams) (metadata : ActiveModel)
    {model current : M} (hnew : NewCall s) (hcurrent : s.currentModel = some current)
    (hread : (metadata.modelPath, model) ∈ s.history.reads) :
    HotInv (s.submit params metadata model current) := by
  have hsubmitted : HotInv ({ s with
      pendingValidationCounter := s.pendingValidationCounter + 1
      pendingModel := some model
      pendingMetadata := some metadata
      pendingValidation := true
      pendingValidationId := some (s.pendingValidationCounter + 1)
      reload := .idle }.setTask (s.pendingValidationCounter + 1)
        ⟨s.history.calls, current, model, metadata, .scheduled⟩) := by
    constructor
    case currentModel => exact h.currentModel
    case currentMetadata => exact h.currentMetadata
    case ordered => exact h.ordered
    case bounded => exact h.bounded
    case justified => exact h.justified
    case tasks =>
      intro v task htask
      rcases tasks_setTask htask with ⟨hsame, heq⟩ | hold
      · rw [hsame, heq]
        exact ⟨Nat.le_refl _, Nat.le_refl _, hread, fun hjudged => by cases hjudged⟩
      · obtain ⟨hnumbered, hcalled, hread, happroved⟩ := h.tasks v task hold
        exact ⟨Nat.le_succ_of_le hnumbered, hcalled, hread, happroved⟩
    case pending =>
      intro v hv
      rw [← Option.some.inj hv]
      exact ⟨_, Function.update_self .., rfl, rfl, hcurrent, hnew.activations⟩
    case reload => trivial
  unfold HotRegistry.submit
  split
  · exact hsubmitted.finish _
  · exact hsubmitted.setReload (.inline (s.pendingValidationCounter + 1) metadata) trivial

theorem HotInv.activate (h : HotInv s) (params : ReloadParams) (metadata : ActiveModel)
    (model : M) (hnew : NewCall s) (hpending : s.pendingValidationId = none)
    (hread : (metadata.modelPath, model) ∈ s.history.reads) :
    HotInv (s.activate params metadata model) := by
  have hdirect : ∀ (reason : ActivationReason M) (result : ReloadResult),
      Justified s.history (⟨s.history.calls, metadata, model, reason⟩ :: s.history.activations) →
      HotInv ((s.setCurrent ⟨s.history.calls, metadata, model, reason⟩).finish result) := by
    intro reason result hjust
    have hsame := hjust.mono (s.finish result).history (fun x hx => hx) fun x hx => hx
    exact (h.finish result).setCurrent hpending hnew.activations (Nat.le_refl _) hsame trivial
  unfold HotRegistry.activate
  cases hcurrent : s.currentModel with
  | none =>
      have hfirst : s.history.activations = [] := by
        have hhead := h.currentModel
        rw [hcurrent] at hhead
        simpa using hhead.symm
      exact hdirect _ _ ⟨hfirst, hread, h.justified⟩
  | some current =>
      cases hwants : params.wantsValidation with
      | true =>
          simp only [if_true]
          exact h.submit params metadata hnew hcurrent hread
      | false =>
          simp only [Bool.false_eq_true, if_false]
          exact hdirect _ _ ⟨hwants, hread, h.justified⟩

/-- The check passes for the validation that may still activate its model. -/
theorem HotInv.pending_of_isPending (h : HotInv s) {validation : ℕ} {task : ValidationTask M}
    (htask : s.tasks validation = some task)
    (hcheck : s.isPending validation task.newMetadata = true) : PendingInv s validation task := by
  have hid : s.pendingValidationId = some validation := by
    have hboth := hcheck
    simp only [HotRegistry.isPending, Bool.and_eq_true, decide_eq_true_eq] at hboth
    exact hboth.1
  obtain ⟨task', htask', hpending⟩ := h.pending validation hid
  rw [htask] at htask'
  rw [Option.some.inj htask']
  exact hpending

/-- The second section of a validation that has passed. -/
theorem HotInv.activatePending (h : HotInv s) {validation : ℕ} {task : ValidationTask M}
    (htask : s.tasks validation = some task) (hpending : PendingInv s validation task)
    (happroved : (task.currentModel, task.newModel) ∈ s.history.approvals) :
    HotInv (s.setCurrent ⟨task.call, task.newMetadata, task.newModel,
      .approved task.currentModel⟩).clearPending := by
  have hinv := h.tasks validation task htask
  have hcurrent : s.history.activations.head?.map Activation.model = some task.currentModel := by
    rw [← h.currentModel]
    exact hpending.current
  have hcall : NewCall s → NewCall (s.setCurrent ⟨task.call, task.newMetadata, task.newModel,
      .approved task.currentModel⟩).clearPending := by
    intro hnew
    refine ⟨fun a ha => ?_, hnew.tasks⟩
    rcases List.mem_cons.1 ha with heq | hold
    · rw [heq]
      exact hnew.tasks validation task htask
    · exact hnew.activations a hold
  refine h.clearPending.setCurrent rfl hpending.newest hinv.called
    ⟨⟨hcurrent, happroved⟩, hinv.read, h.justified⟩ ?_
  show ReloadInv _ s.reload
  have hreload := h.reload
  cases hcase : s.reload with
  | idle => trivial
  | inline validation metadata => trivial
  | changed params metadata =>
      rw [hcase] at hreload
      exact hcall hreload
  | reading params metadata =>
      rw [hcase] at hreload
      exact ⟨hcall hreload.1, rfl⟩
  | loaded params metadata model =>
      rw [hcase] at hreload
      exact ⟨hcall hreload.1, rfl, hreload.2.2⟩

/-- The verdict is kept in the task, and on the record when it is a pass. -/
theorem HotInv.judge (h : HotInv s) {validation : ℕ} {task : ValidationTask M}
    (htask : s.tasks validation = some task) (passed : Bool) :
    HotInv { s.setTask validation (task.at (.judged passed)) with
      history := { s.history with
        approvals :=
          if passed then (task.currentModel, task.newModel) :: s.history.approvals
          else s.history.approvals } } := by
  have hmono : ∀ x ∈ s.history.approvals, x ∈
      if passed then (task.currentModel, task.newModel) :: s.history.approvals
      else s.history.approvals := by
    intro x hx
    split
    · exact List.mem_cons_of_mem _ hx
    · exact hx
  have hrecorded : HotInv { s with
      history := { s.history with
        approvals :=
          if passed then (task.currentModel, task.newModel) :: s.history.approvals
          else s.history.approvals } } :=
    { currentModel := h.currentModel
      currentMetadata := h.currentMetadata
      ordered := h.ordered
      bounded := h.bounded
      justified := h.justified.mono { s.history with approvals := _ } (fun x hx => hx) hmono
      tasks := fun v task' htask' => by
        obtain ⟨hnumbered, hcalled, hread, happroved⟩ := h.tasks v task' htask'
        exact ⟨hnumbered, hcalled, hread, fun hjudged => hmono _ (happroved hjudged)⟩
      pending := fun v hv => by
        obtain ⟨task', htask', hpending⟩ := h.pending v hv
        exact ⟨task', htask', hpending.flagged, hpending.metadata, hpending.current,
          hpending.newest⟩
      reload := by
        show ReloadInv _ s.reload
        have hreload := h.reload
        cases hcase : s.reload with
        | idle => trivial
        | inline v metadata => trivial
        | changed params metadata =>
            rw [hcase] at hreload
            exact ⟨hreload.activations, hreload.tasks⟩
        | reading params metadata =>
            rw [hcase] at hreload
            exact ⟨⟨hreload.1.activations, hreload.1.tasks⟩, hreload.2⟩
        | loaded params metadata model =>
            rw [hcase] at hreload
            exact ⟨⟨hreload.1.activations, hreload.1.tasks⟩, hreload.2⟩ }
  refine hrecorded.setPhase htask fun hjudged => ?_
  injection hjudged with hpassed
  rw [hpassed]
  exact List.mem_cons_self ..

theorem HotInv.validate (h : HotInv s) {validation : ℕ} {task : ValidationTask M}
    (htask : s.tasks validation = some task) (verdict : Option Bool) :
    HotInv (s.validate validation task verdict) := by
  have hrest : ∀ phase, (∀ passed, phase ≠ .judged passed) →
      HotInv (s.setTask validation (task.at phase)) :=
    fun phase hphase => h.setPhase htask fun hjudged => absurd hjudged (hphase true)
  unfold HotRegistry.validate
  cases hphase : task.phase with
  | done => exact h
  | scheduled =>
      refine hrest _ fun passed => ?_
      split <;> simp
  | running =>
      cases verdict with
      | none => exact hrest .cleanUp (by simp)
      | some passed => exact h.judge htask passed
  | judged passed =>
      have happroved := (h.tasks validation task htask).approved
      rw [hphase] at happroved
      have hended := hrest .cleanUp (by simp)
      have htask' : (s.setTask validation (task.at .cleanUp)).tasks validation =
          some (task.at .cleanUp) := Function.update_self ..
      simp only
      split
      · rename_i hcheck
        cases passed with
        | true =>
            have hpending : PendingInv _ validation (task.at .cleanUp) :=
              hended.pending_of_isPending htask' hcheck
            have hactive := hended.activatePending htask' hpending (happroved rfl)
            exact hactive
        | false => exact hended.clearPending
      · exact hended
  | cleanUp =>
      have hdone := hrest .done (by simp)
      simp only
      split
      · exact hdone.clearPending
      · exact hdone

theorem hotInv_step (h : HotInv s) (action : ReloadAction M) : HotInv (hotStep s action) := by
  have hreload := h.reload
  cases action with
  | start params active =>
      simp only [hotStep]
      split
      · exact h.startReload params active ‹_›
      · exact h
  | supersede =>
      simp only [hotStep]
      split
      · rename_i hcall
        rw [hcall] at hreload
        exact h.supersede _ _ hreload
      · exact h
  | readFile model =>
      simp only [hotStep]
      split
      · rename_i hcall
        rw [hcall] at hreload
        exact h.readFile _ _ model hreload.1 hreload.2
      · exact h
  | activate =>
      simp only [hotStep]
      split
      · rename_i hcall
        rw [hcall] at hreload
        exact h.activate _ _ _ hreload.1 hreload.2.1 hreload.2.2
      · exact h
  | finishInline =>
      simp only [hotStep]
      split
      · split
        · exact h.finish _
        · exact h
      · exact h
  | validate validation verdict =>
      simp only [hotStep]
      split
      · exact h
      · exact h.validate ‹_› verdict

/-! ## Every run -/

/-- The current model is the newest activation. -/
structure Current (s : HotRegistry M) : Prop where
  model : s.currentModel = s.history.activations.head?.map Activation.model
  metadata : s.currentMetadata = s.history.activations.head?.map Activation.metadata

/-- Whatever the order in which reloads and validations take their sections, models become current
in the order of the calls that asked for them, each only once and with a reason that holds. -/
theorem activations_ordered_and_justified (actions : List (ReloadAction M)) :
    EveryState hotStep (fun s => Current s ∧
      (s.history.activations.Pairwise fun a b => b.call < a.call) ∧
      Justified s.history s.history.activations) emptyRegistry actions := by
  have hinv : EveryState hotStep HotInv (emptyRegistry : HotRegistry M) actions :=
    everyState_of_step (fun s action h => hotInv_step h action) actions hotInv_empty
  exact hinv.mono fun s h => ⟨⟨h.currentModel, h.currentMetadata⟩, h.ordered, h.justified⟩

end TradingPlatform.Models
