import TradingPlatform.Gateway.SliceScheduler

/-! # What a slice comes to

A slice is sent only when its row is not terminal, it keeps its one outcome, and
its row has one when its last job is over. The guards before a call compare with
one status, and the lock on a terminal row has gaps; this module says which
steps fall through them, and that the runs without such a step are exactly the
ones that keep the property.
-/

namespace TradingPlatform.Gateway

open Base

/-! ## Outcomes -/

/-- A slice is submitted as long as its order lives at the broker. -/
inductive SliceOutcome where
  | submitted
  | dryRun
  | terminal (status : OrderStatus)
  deriving DecidableEq

def sliceOutcome : OrderStatus → Option SliceOutcome
  | .pendingNew | .scheduled => none
  | .dryRun => some .dryRun
  | status => some (if status.terminal then .terminal status else .submitted)

/-- A submitted slice may end; the other outcomes are final. -/
def SliceOutcome.Becomes : SliceOutcome → SliceOutcome → Prop
  | .submitted, outcome => outcome ≠ .dryRun
  | before, after => before = after

instance : ∀ before after : SliceOutcome, Decidable (before.Becomes after)
  | .submitted, outcome => inferInstanceAs (Decidable (outcome ≠ .dryRun))
  | .dryRun, after => inferInstanceAs (Decidable (.dryRun = after))
  | .terminal status, after => inferInstanceAs (Decidable (.terminal status = after))

theorem SliceOutcome.Becomes.refl (outcome : SliceOutcome) : outcome.Becomes outcome := by
  cases outcome with
  | submitted => exact SliceOutcome.noConfusion
  | dryRun => rfl
  | terminal status => rfl

theorem SliceOutcome.Becomes.trans {a b c : SliceOutcome} (hab : a.Becomes b)
    (hbc : b.Becomes c) : a.Becomes c := by
  cases a with
  | submitted =>
      cases b with
      | submitted => exact hbc
      | dryRun => exact absurd rfl hab
      | terminal status =>
          rw [← show SliceOutcome.terminal status = c from hbc]
          exact hab
  | dryRun =>
      rw [← show SliceOutcome.dryRun = b from hab] at hbc
      exact hbc
  | terminal status =>
      rw [← show SliceOutcome.terminal status = b from hab] at hbc
      exact hbc

/-- A slice without an outcome may get any. -/
def KeepsOutcome (before after : OrderStatus) : Prop :=
  ∀ outcome ∈ sliceOutcome before, ∃ outcome' ∈ sliceOutcome after, outcome.Becomes outcome'

instance (before after : OrderStatus) : Decidable (KeepsOutcome before after) :=
  inferInstanceAs (Decidable (∀ outcome ∈ sliceOutcome before,
    ∃ outcome' ∈ sliceOutcome after, outcome.Becomes outcome'))

theorem KeepsOutcome.refl (status : OrderStatus) : KeepsOutcome status status := by
  intro outcome houtcome
  exact ⟨outcome, houtcome, .refl outcome⟩

theorem KeepsOutcome.trans {a b c : OrderStatus} (hab : KeepsOutcome a b)
    (hbc : KeepsOutcome b c) : KeepsOutcome a c := by
  intro outcome houtcome
  obtain ⟨middle, hmiddle, hfirst⟩ := hab outcome houtcome
  obtain ⟨last, hlast, hsecond⟩ := hbc middle hmiddle
  exact ⟨last, hlast, hfirst.trans hsecond⟩

/-- No slice of the table gets lost or changes its outcome. -/
def SlicesKeep (db db' : Database) : Prop :=
  ∀ cid r, db.orders.find? cid = some r → r.parentOrderId.isSome →
    ∃ r', db'.orders.find? cid = some r' ∧ r'.parentOrderId.isSome ∧
      KeepsOutcome r.status r'.status

theorem SlicesKeep.refl (db : Database) : SlicesKeep db db := by
  intro cid r hr hslice
  exact ⟨r, hr, hslice, .refl r.status⟩

theorem SlicesKeep.trans {a b c : Database} (hab : SlicesKeep a b) (hbc : SlicesKeep b c) :
    SlicesKeep a c := by
  intro cid r hr hslice
  obtain ⟨r', hr', hslice', hfirst⟩ := hab cid r hr hslice
  obtain ⟨r'', hr'', hslice'', hsecond⟩ := hbc cid r' hr' hslice'
  exact ⟨r'', hr'', hslice'', hfirst.trans hsecond⟩

/-- The order, if its row is there, has an outcome. -/
def Concluded (db : Database) (clientOrderId : String) : Prop :=
  ∀ r, db.orders.find? clientOrderId = some r → (sliceOutcome r.status).isSome

/-! ## The property -/

/-- The row that the guard read before a call of the broker is not terminal. -/
def SentLive (t : SliceStep) : Prop :=
  ∀ row, t.sent = some (some row) → row.status.terminal = false

/-- When the last job of a slice is over its row has an outcome. -/
def EndsConcluded (s : SliceSystem) (t : SliceStep) : Prop :=
  ∀ job, t.gone = some job → t.next.stored job.jobId = false → t.next.busy job.jobId = false →
    Concluded (t.exec s.db) job.clientOrderId

def SlicesSafe (cfg : SchedulerConfig) (s : SliceSystem) (es : List SliceEvent) : Prop :=
  EachStep (sliceStep cfg) (fun s e => SentLive (takeStep cfg s e)) s es ∧
    Along (sliceStep cfg) (fun s s' => SlicesKeep s.db s'.db) s es ∧
    EachStep (sliceStep cfg) (fun s e => EndsConcluded s (takeStep cfg s e)) s es

/-! ## The condition -/

/-- The row has an outcome that the lock does not hold and another status takes away: it is
filled, or it is final with its flag unset, or it is submitted and falls back. -/
def Exposed (r : OrderRow) (status : OrderStatus) : Prop :=
  (r.status = .filled ∧ status ≠ .filled) ∨
  (r.isTerminal = false ∧
    (((r.status.terminal ∨ r.status = .dryRun) ∧ status ≠ r.status) ∨
      (sliceOutcome r.status = some .submitted ∧
        (sliceOutcome status = none ∨ status = .dryRun))))

instance (r : OrderRow) (status : OrderStatus) : Decidable (Exposed r status) :=
  inferInstanceAs (Decidable (_ ∨ _))

/-- No slice's row is exposed to an update that is newer. -/
def UpdateKeeps (db : Database) (clientOrderId : String) (status : OrderStatus) (k : CasKey) :
    Prop :=
  ∀ r, db.orders.find? clientOrderId = some r → r.parentOrderId.isSome → casNewer r k →
    ¬ Exposed r status

def localKey (status : OrderStatus) (now : Timestamp) : CasKey :=
  ⟨now, statusRankFor status, 0, sourcePriorityManual⟩

/-- A job's last update takes nothing away, and the row takes it when it needs an outcome. -/
def JobSettles (s : SliceSystem) (job : SliceJob) (status : OrderStatus) (now : Timestamp) :
    Prop :=
  UpdateKeeps s.db job.clientOrderId status (localKey status now) ∧
    (s.stored job.jobId = false → ∀ r, s.db.orders.find? job.clientOrderId = some r →
      sliceOutcome r.status = none → casAccepts r (localKey status now))

/-- A job may end without an update. -/
def JobLeaves (s : SliceSystem) (job : SliceJob) : Prop :=
  s.stored job.jobId = false → Concluded s.db job.clientOrderId

/-- The slice's row has this status. -/
def HasStatus (s : SliceSystem) (job : SliceJob) (status : OrderStatus) : Prop :=
  ∃ r, s.db.orders.find? job.clientOrderId = some r ∧ r.status = status

def SafeCheck (s : SliceSystem) (job : SliceJob) (now : Timestamp) : PreSubmissionCheck → Prop
  | .clear => True
  | .killSwitchEngaged =>
      HasStatus s job .canceled ∨ JobSettles s job .blockedKillSwitch now
  | .breakerTripped _ => HasStatus s job .canceled ∨ JobSettles s job .blockedCircuitBreaker now
  | .infraError _ => JobSettles s job .failed now

/-- The guard is not reached in a terminal status other than the one it compares with. -/
def SafePreSubmit (cfg : SchedulerConfig) (s : SliceSystem) (job : SliceJob) (now : Timestamp) :
    Option String → Prop
  | some _ => JobSettles s job .failed now
  | none =>
      HasStatus s job .canceled ∨
        if cfg.executor then ∀ status, HasStatus s job status → status.terminal = false
        else JobSettles s job .dryRun now

def SafeReply (s : SliceSystem) (job : SliceJob) (attempt : Nat) (now : Timestamp) :
    BrokerReply → Prop
  | .accepted _ => True
  | .validationError _ | .rejectionError _ => JobSettles s job .rejected now
  | .connectionError _ => attempt < maxAttempts ∨ JobSettles s job .failed now
  | .valueError _ | .otherError => JobLeaves s job

def SafeAdvance (cfg : SchedulerConfig) (s : SliceSystem) (job : SliceJob) :
    SlicePhase → SliceEvent → Prop
  | .attempting _, .check _ result now => SafeCheck s job now result
  | .checked _, .preSubmit _ infraError now => SafePreSubmit cfg s job now infraError
  | .sent attempt, .reply _ reply now => SafeReply s job attempt now reply
  | .recording _ _, .record _ none now => JobSettles s job .submitted now
  | .unconfirmed _ _, .record _ none now => JobSettles s job .submittedUnconfirmed now
  | .unconfirmed _ _, .record _ (some _) _ => JobLeaves s job
  | _, .raise _ => JobLeaves s job
  | _, _ => True

def SafeRecovery (cfg : SchedulerConfig) (s : SliceSystem) (r : Recovery) : SliceEvent → Prop
  | .recoverSlice readings _ =>
      ∀ sliceOrder ∈ r.pending.head?, ∀ parent ∈ r.parent, ∀ status message,
        recoveryAction cfg r.now sliceOrder parent readings = .mark status message →
          UpdateKeeps s.db sliceOrder.clientOrderId status (localKey status r.now)
  | .recoverParent parentOrderId _ =>
      r.pending = [] → parentOrderId ∈ r.expiredParents → parentOrderId ∉ r.canceledParents →
        countNonTerminalChildren s.db parentOrderId = 0 →
        UpdateKeeps s.db parentOrderId .expired (localKey .expired r.now)
  | _ => True

/-- A stored job that is dropped without having run leaves an outcome behind, or an instance
that is still running. -/
def DropsConcluded (s : SliceSystem) (jobId : String) : Prop :=
  ∀ job, s.jobs.find? jobId = some job → s.busy jobId = false →
    Concluded s.db job.clientOrderId

def SafeStep (cfg : SchedulerConfig) (s : SliceSystem) (e : SliceEvent) : Prop :=
  match e with
  | .check jobId _ _ | .preSubmit jobId _ _ | .reply jobId _ _ | .record jobId _ _
  | .raise jobId =>
      ∀ r, s.running.find? jobId = some r → SafeAdvance cfg s r.job r.phase e
  | .misfire jobId => DropsConcluded s jobId
  | .removeJob jobId => jobId ∈ s.removals → DropsConcluded s jobId
  | .recoverSlice _ _ | .recoverParent _ _ =>
      ∀ r, s.recovery = some r → SafeRecovery cfg s r e
  | .brokerUpdate cid u _ => UpdateKeeps s.db cid u.status u.key
  | .replaced cid _ =>
      ∀ r, s.db.orders.find? cid = some r → r.parentOrderId.isSome →
        r.status ≠ .dryRun ∧ (r.status.terminal → r.status = .replaced)
  | .schedule _ | .fire _ | .recover _ | .recoverReadParent | .recoverEnd
  | .cancelRemaining _ _ | .listJobs _ => True

/-! ## Exposed rows -/

theorem sliceOutcome_dryRun {status : OrderStatus} :
    sliceOutcome status = some .dryRun ↔ status = .dryRun := by
  cases status <;> decide

theorem sliceOutcome_terminal {status last : OrderStatus} :
    sliceOutcome status = some (.terminal last) ↔ status.terminal = true ∧ last = status := by
  cases status <;> simp [sliceOutcome, OrderStatus.terminal, terminalStatuses, eq_comm]

theorem keepsOutcome_of_final {a b : OrderStatus} (h : a.terminal = true ∨ a = .dryRun) :
    KeepsOutcome a b ↔ b = a := by
  constructor
  · intro hkeep
    rcases h with hterminal | rfl
    · obtain ⟨outcome, houtcome, heq⟩ := hkeep _ (sliceOutcome_terminal.mpr ⟨hterminal, rfl⟩)
      rw [← show SliceOutcome.terminal a = outcome from heq] at houtcome
      exact (sliceOutcome_terminal.mp houtcome).2.symm
    · obtain ⟨outcome, houtcome, heq⟩ := hkeep .dryRun rfl
      rw [← show SliceOutcome.dryRun = outcome from heq] at houtcome
      exact sliceOutcome_dryRun.mp houtcome
  · rintro rfl
    exact .refl b

theorem keepsOutcome_of_submitted {a b : OrderStatus} (h : sliceOutcome a = some .submitted) :
    KeepsOutcome a b ↔ ¬ (sliceOutcome b = none ∨ b = .dryRun) := by
  rw [KeepsOutcome, h]
  cases hb : sliceOutcome b with
  | none => simp
  | some outcome =>
      rw [← sliceOutcome_dryRun, hb]
      simp [SliceOutcome.Becomes]

theorem keepsOutcome_of_none {a b : OrderStatus} (h : sliceOutcome a = none) :
    KeepsOutcome a b := by
  intro outcome houtcome
  rw [h] at houtcome
  cases houtcome

theorem sliceOutcome_eq_none_or {status : OrderStatus}
    (hnot : ¬ (status.terminal = true ∨ status = .dryRun)) :
    sliceOutcome status = none ∨ sliceOutcome status = some .submitted := by
  rw [← sliceOutcome_dryRun] at hnot
  cases houtcome : sliceOutcome status with
  | none => exact Or.inl rfl
  | some outcome =>
      cases outcome with
      | submitted => exact Or.inr rfl
      | dryRun => exact absurd (Or.inr houtcome) hnot
      | terminal last => exact absurd (Or.inl (sliceOutcome_terminal.mp houtcome).1) hnot

/-- Exposed is what the lock does not hold and the update would take an outcome from. -/
theorem exposed_iff (r : OrderRow) (status : OrderStatus) :
    Exposed r status ↔ casUnlocked r = true ∧ ¬ KeepsOutcome r.status status := by
  unfold Exposed casUnlocked
  rw [Bool.or_eq_true, Bool.not_eq_true', decide_eq_true_eq]
  by_cases hfinal : r.status.terminal = true ∨ r.status = .dryRun
  · have hlive : sliceOutcome r.status ≠ some .submitted := by
      intro hsubmitted
      rcases hfinal with hterminal | hdry
      · rw [sliceOutcome_terminal.mpr ⟨hterminal, rfl⟩] at hsubmitted
        cases hsubmitted
      · rw [hdry] at hsubmitted
        cases hsubmitted
    rw [keepsOutcome_of_final hfinal]
    grind
  · have hfilled : r.status ≠ .filled := by
      intro hfilled
      rw [hfilled] at hfinal
      exact hfinal (Or.inl rfl)
    rcases sliceOutcome_eq_none_or hfinal with hnone | hsubmitted
    · have hkeep : KeepsOutcome r.status status := keepsOutcome_of_none hnone
      simp [hfinal, hfilled, hnone, hkeep]
    · rw [keepsOutcome_of_submitted hsubmitted, not_not]
      simp [hfinal, hfilled, hsubmitted]

/-! ## What a statement does to the slices -/

section Statements

variable {db db' : Database} {cid : String}

/-- A statement that rewrites one order. -/
theorem slicesKeep_of_map {f : OrderRow → OrderRow}
    (hat : db'.orders.find? cid = (db.orders.find? cid).map f)
    (hother : ∀ cid' ≠ cid, db'.orders.find? cid' = db.orders.find? cid')
    (hslice : ∀ r, (f r).parentOrderId = r.parentOrderId) :
    SlicesKeep db db' ↔ ∀ r, db.orders.find? cid = some r → r.parentOrderId.isSome →
      KeepsOutcome r.status (f r).status := by
  constructor
  · intro h r hr hparent
    obtain ⟨r', hr', -, hkeep⟩ := h cid r hr hparent
    rw [hat, hr, Option.map_some] at hr'
    cases hr'
    exact hkeep
  · intro h cid' r hr hparent
    by_cases hcid : cid' = cid
    · subst hcid
      refine ⟨f r, ?_, ?_, h r hr hparent⟩
      · rw [hat, hr, Option.map_some]
      · rwa [hslice]
    · refine ⟨r, ?_, hparent, .refl r.status⟩
      rw [hother cid' hcid, hr]

theorem slicesKeep_cas (u : CasUpdate) (now : Timestamp) :
    SlicesKeep db (updateOrderStatusCas db cid u now).1 ↔ UpdateKeeps db cid u.status u.key := by
  have hslice : ∀ r, (casUpdate r u now).parentOrderId = r.parentOrderId := by
    intro r
    unfold casUpdate
    split <;> rfl
  rw [slicesKeep_of_map (updateOrderStatusCas_find? db cid u now)
    (updateOrderStatusCas_frame db cid u now).1 hslice]
  apply forall₃_congr
  intro r hr hparent
  rw [exposed_iff]
  by_cases hnewer : casNewer r u.key = true
  · by_cases haccepts : casAccepts r u.key = true
    · have hunlocked := ((casAccepts_iff r u.key).mp haccepts).1
      rw [casUpdate_of_accepts haccepts]
      simp [hunlocked, hnewer, casApply]
    · have hlocked : ¬ casUnlocked r = true :=
        fun h => haccepts ((casAccepts_iff r _).mpr ⟨h, hnewer⟩)
      rw [casUpdate_of_not_accepts haccepts]
      simp [hlocked, KeepsOutcome.refl]
  · have haccepts : ¬ casAccepts r u.key = true := fun h => hnewer ((casAccepts_iff r _).mp h).2
    rw [casUpdate_of_not_accepts haccepts]
    simp [hnewer, KeepsOutcome.refl]

theorem slicesKeep_cancelPending (parent : String) (now : Timestamp) :
    SlicesKeep db (cancelPendingSlices db parent now).1 := by
  intro cid r hr hparent
  have hfind := Table.find?_updateWhere db.orders (pendingSlice parent)
    (fun r => { r with status := .canceled, updatedAt := now }) (fun _ => rfl) cid
  rw [hr, Option.map_some] at hfind
  refine ⟨_, hfind, ?_, ?_⟩
  · split <;> exact hparent
  · split
    · rename_i hpending
      simp only [pendingSlice, Bool.and_eq_true, decide_eq_true_eq] at hpending
      rw [hpending.2]
      exact keepsOutcome_of_none rfl
    · exact .refl r.status

theorem slicesKeep_updateOrder (f : OrderRow → OrderRow)
    (hslice : ∀ r, (f r).parentOrderId = r.parentOrderId) :
    SlicesKeep db (db.updateOrder cid f) ↔ ∀ r, db.orders.find? cid = some r →
      r.parentOrderId.isSome → KeepsOutcome r.status (f r).status :=
  slicesKeep_of_map (f := OrderRow.keepingKey f) (updateOrder_find? db cid f)
    (fun _ hne => updateOrder_find?_ne db cid f hne) hslice

theorem slicesKeep_setScheduledTime (time now : Timestamp) :
    SlicesKeep db (updateOrderScheduledTime db cid time now).1 := by
  refine (slicesKeep_updateOrder _ ?_).mpr ?_
  · exact fun _ => rfl
  · exact fun r _ _ => .refl r.status

theorem slicesKeep_setReplaced (now : Timestamp) :
    SlicesKeep db (updateOrderStatusSimpleWithConn db cid .replaced now).1 ↔
      ∀ r, db.orders.find? cid = some r → r.parentOrderId.isSome →
        r.status ≠ .dryRun ∧ (r.status.terminal → r.status = .replaced) := by
  refine (slicesKeep_updateOrder _ ?_).trans ?_
  · exact fun _ => rfl
  · apply forall₃_congr
    intro r _ _
    show KeepsOutcome r.status .replaced ↔ _
    cases r.status <;> decide

/-- What the order comes to under an update of its own. -/
theorem concluded_cas (u : CasUpdate) (now : Timestamp)
    (houtcome : (sliceOutcome u.status).isSome = true) :
    Concluded (updateOrderStatusCas db cid u now).1 cid ↔
      ∀ r, db.orders.find? cid = some r → sliceOutcome r.status = none →
        casAccepts r u.key = true := by
  unfold Concluded
  rw [updateOrderStatusCas_find?]
  constructor
  · intro h r hr hnone
    by_contra haccepts
    have hsome := h (casUpdate r u now) (by rw [hr, Option.map_some])
    rw [casUpdate_of_not_accepts haccepts, hnone] at hsome
    cases hsome
  · intro h r' hr'
    obtain ⟨r, hr, rfl⟩ := Option.map_eq_some_iff.mp hr'
    by_cases haccepts : casAccepts r u.key = true
    · rw [casUpdate_of_accepts haccepts]
      exact houtcome
    · rw [casUpdate_of_not_accepts haccepts, Option.isSome_iff_ne_none]
      exact fun hnone => haccepts (h r hr hnone)

end Statements
/-! ## What a step comes to -/

/-- The three parts of the property for one step. -/
def StepSound (s : SliceSystem) (t : SliceStep) : Prop :=
  SentLive t ∧ SlicesKeep s.db (t.exec s.db) ∧ EndsConcluded s t

section Steps

variable {s next : SliceSystem} {job : SliceJob} {status : OrderStatus} {now : Timestamp}

theorem sentLive_of_none {t : SliceStep} (h : t.sent = none) : SentLive t := by
  intro row hsent
  rw [h] at hsent
  cases hsent

theorem endsConcluded_of_none {t : SliceStep} (h : t.gone = none) : EndsConcluded s t := by
  intro job hgone
  rw [h] at hgone
  cases hgone

theorem stepSound_statement {statement : Option (SliceStatement × Timestamp)} :
    StepSound s ⟨next, statement, none, none⟩ ↔
      SlicesKeep s.db (SliceStep.exec s.db ⟨next, statement, none, none⟩) := by
  constructor
  · exact fun h => h.2.1
  · exact fun h => ⟨sentLive_of_none rfl, h, endsConcluded_of_none rfl⟩

theorem stepSound_quiet : StepSound s (.quiet next) :=
  stepSound_statement.mpr (.refl s.db)

theorem stepSound_cas {cid : String} {u : CasUpdate} :
    StepSound s { SliceStep.quiet next with statement := some (.cas cid u, now) } ↔
      UpdateKeeps s.db cid u.status u.key :=
  stepSound_statement.trans (slicesKeep_cas u now)

theorem stepSound_cancelPending {parent : String} :
    StepSound s { SliceStep.quiet next with statement := some (.cancelPending parent, now) } :=
  stepSound_statement.mpr (slicesKeep_cancelPending parent now)

/-- An instance that returns is not running any more. -/
theorem not_busy_finish (s : SliceSystem) (job : SliceJob) (u : Option CasUpdate)
    (now : Timestamp) : (s.finish job u now).next.busy job.jobId = false := by
  simp [SliceSystem.finish, SliceSystem.busy, Table.find?_delete]

theorem stepSound_finish (broker message : Option String)
    (houtcome : (sliceOutcome status).isSome = true) :
    StepSound s (s.finish job (some (localUpdate status broker message now)) now) ↔
      JobSettles s job status now := by
  have hkeep : SlicesKeep s.db (updateOrderStatusCas s.db job.clientOrderId
      (localUpdate status broker message now) now).1 ↔ _ := slicesKeep_cas _ now
  have hconcluded : Concluded (updateOrderStatusCas s.db job.clientOrderId
      (localUpdate status broker message now) now).1 job.clientOrderId ↔ _ :=
    concluded_cas _ now houtcome
  constructor
  · intro h
    refine ⟨hkeep.mp h.2.1, fun hstored => hconcluded.mp ?_⟩
    exact h.2.2 job rfl hstored (not_busy_finish s job _ now)
  · intro h
    refine ⟨sentLive_of_none rfl, hkeep.mpr h.1, ?_⟩
    intro job' hgone hstored _
    cases hgone
    exact hconcluded.mpr (h.2 hstored)

theorem stepSound_finish_none : StepSound s (s.finish job none now) ↔ JobLeaves s job := by
  constructor
  · intro h hstored
    exact h.2.2 job rfl hstored (not_busy_finish s job none now)
  · intro h
    refine ⟨sentLive_of_none rfl, .refl s.db, ?_⟩
    intro job' hgone hstored _
    cases hgone
    exact h hstored

theorem jobLeaves_of_hasStatus (h : HasStatus s job .canceled) : JobLeaves s job := by
  intro _ r hr
  obtain ⟨r', hr', hstatus⟩ := h
  rw [hr] at hr'
  cases hr'
  rw [hstatus]
  rfl

theorem stepSound_drop : StepSound s (s.drop job) ↔
    (s.busy job.jobId = false → Concluded s.db job.clientOrderId) := by
  have hnot : (s.drop job).next.stored job.jobId = false := by
    simp [SliceSystem.drop, SliceSystem.stored, Table.find?_delete]
  constructor
  · intro h hbusy
    exact h.2.2 job rfl hnot hbusy
  · intro h
    refine ⟨sentLive_of_none rfl, .refl s.db, ?_⟩
    intro job' hgone _ hbusy
    cases hgone
    exact h hbusy

/-- What the guards compare. -/
theorem any_canceled_iff (s : SliceSystem) (job : SliceJob) :
    ((getOrderByClientId s.db job.clientOrderId).any (·.status = .canceled)) = true ↔
      HasStatus s job .canceled := by
  unfold HasStatus getOrderByClientId
  simp [Option.any_eq_true]

theorem stepSound_finish_canceled (h : HasStatus s job .canceled) :
    StepSound s (s.finish job none now) :=
  stepSound_finish_none.mpr (jobLeaves_of_hasStatus h)

theorem stepSound_check (attempt : Nat) (result : PreSubmissionCheck) :
    StepSound s (checkSlice s job attempt result now) ↔ SafeCheck s job now result := by
  by_cases hcanceled : HasStatus s job .canceled
  · have hany := (any_canceled_iff s job).mpr hcanceled
    have hfinish : StepSound s (s.finish job none now) := stepSound_finish_canceled hcanceled
    cases result with
    | infraError message => exact stepSound_finish _ _ rfl
    | clear => simpa [checkSlice, hany, SafeCheck] using hfinish
    | killSwitchEngaged => simpa [checkSlice, hany, SafeCheck, hcanceled] using hfinish
    | breakerTripped reason => simpa [checkSlice, hany, SafeCheck, hcanceled] using hfinish
  · have hany := hcanceled
    rw [← any_canceled_iff] at hany
    cases result with
    | infraError message => exact stepSound_finish _ _ rfl
    | clear =>
        simp only [checkSlice, hany, SafeCheck]
        exact iff_of_true stepSound_quiet trivial
    | killSwitchEngaged =>
        simp only [checkSlice, hany, SafeCheck, hcanceled, false_or]
        exact stepSound_finish _ _ rfl
    | breakerTripped reason =>
        simp only [checkSlice, hany, SafeCheck, hcanceled, false_or]
        exact stepSound_finish _ _ rfl

/-- A call of the broker is sound when what the guard read is not terminal. -/
theorem stepSound_sent {phase : SlicePhase} :
    StepSound s { SliceStep.quiet (s.goOn job.jobId phase) with
      sent := some (getOrderByClientId s.db job.clientOrderId) } ↔
      ∀ status, HasStatus s job status → status.terminal = false := by
  constructor
  · rintro ⟨hsent, -, -⟩ status ⟨r, hr, rfl⟩
    exact hsent r (congrArg some hr)
  · intro h
    refine ⟨?_, .refl s.db, endsConcluded_of_none rfl⟩
    intro r hr
    exact h r.status ⟨r, Option.some.inj hr, rfl⟩

theorem stepSound_preSubmit (cfg : SchedulerConfig) (attempt : Nat) (infraError : Option String) :
    StepSound s (preSubmitSlice cfg s job attempt infraError now) ↔
      SafePreSubmit cfg s job now infraError := by
  cases infraError with
  | some message => exact stepSound_finish _ _ rfl
  | none =>
      simp only [preSubmitSlice, SafePreSubmit]
      by_cases hcanceled : HasStatus s job .canceled
      · rw [if_pos ((any_canceled_iff s job).mpr hcanceled)]
        exact iff_of_true (stepSound_finish_canceled hcanceled) (Or.inl hcanceled)
      · rw [if_neg (mt (any_canceled_iff s job).mp hcanceled), or_iff_right hcanceled]
        by_cases hexecutor : cfg.executor = true
        · rw [if_pos hexecutor, if_pos hexecutor]
          exact stepSound_sent
        · rw [if_neg hexecutor, if_neg hexecutor]
          exact stepSound_finish _ _ rfl

theorem stepSound_reply (attempt : Nat) (reply : BrokerReply) :
    StepSound s (replySlice s job attempt reply now) ↔ SafeReply s job attempt now reply := by
  cases reply with
  | accepted brokerOrderId => exact iff_of_true stepSound_quiet trivial
  | validationError e => exact stepSound_finish _ _ rfl
  | rejectionError e => exact stepSound_finish _ _ rfl
  | connectionError e =>
      simp only [replySlice, SafeReply]
      by_cases hretry : attempt < maxAttempts
      · rw [if_pos hretry]
        exact iff_of_true stepSound_quiet (Or.inl hretry)
      · rw [if_neg hretry, or_iff_right hretry]
        exact stepSound_finish _ _ rfl
  | valueError e => exact stepSound_finish_none
  | otherError => exact stepSound_finish_none

theorem stepSound_record (brokerOrderId : Option String) (retryAttempt : Nat) (e : String)
    (now : Timestamp) :
    StepSound s (recordSlice s job brokerOrderId retryAttempt (some e) now) := by
  unfold recordSlice
  dsimp only
  split <;> exact stepSound_quiet

theorem stepSound_advance (cfg : SchedulerConfig) (phase : SlicePhase) (e : SliceEvent) :
    StepSound s (advance cfg s job phase e) ↔ SafeAdvance cfg s job phase e := by
  cases phase with
  | attempting attempt =>
      cases e with
      | check _ result now => exact stepSound_check attempt result
      | raise => exact stepSound_finish_none
      | _ => exact iff_of_true stepSound_quiet trivial
  | checked attempt =>
      cases e with
      | preSubmit _ infraError now => exact stepSound_preSubmit cfg attempt infraError
      | raise => exact stepSound_finish_none
      | _ => exact iff_of_true stepSound_quiet trivial
  | sent attempt =>
      cases e with
      | reply _ reply now => exact stepSound_reply attempt reply
      | raise => exact stepSound_finish_none
      | _ => exact iff_of_true stepSound_quiet trivial
  | recording brokerOrderId retryAttempt =>
      cases e with
      | record _ dbError now =>
          cases dbError with
          | none => exact stepSound_finish _ _ rfl
          | some e => exact iff_of_true (stepSound_record _ _ e now) trivial
      | raise => exact stepSound_finish_none
      | _ => exact iff_of_true stepSound_quiet trivial
  | unconfirmed brokerOrderId dbError =>
      cases e with
      | record _ failed now =>
          cases failed with
          | none => exact stepSound_finish _ _ rfl
          | some e => exact stepSound_finish_none
      | raise => exact stepSound_finish_none
      | _ => exact iff_of_true stepSound_quiet trivial

theorem stepSound_fireJob (s : SliceSystem) (job : SliceJob) : StepSound s (fireJob s job) := by
  unfold fireJob
  split
  · exact stepSound_quiet
  · rename_i hbusy
    rw [stepSound_drop]
    intro hidle
    rw [Table.insert_eq_none, List.mem_map] at hbusy
    obtain ⟨r, hr, hkey⟩ := hbusy
    rw [SliceSystem.busy, show job.jobId = r.job.jobId from hkey.symm,
      Table.find?_of_mem hr] at hidle
    cases hidle

/-- A stored job is dropped by its id. -/
theorem stepSound_dropById (s : SliceSystem) (jobId : String) :
    StepSound s ((s.jobs.find? jobId).elim (.quiet s) s.drop) ↔ DropsConcluded s jobId := by
  unfold DropsConcluded
  cases hjob : s.jobs.find? jobId with
  | none => exact iff_of_true stepSound_quiet fun _ h => by cases h
  | some job =>
      rw [Option.elim_some, stepSound_drop, Table.find?_key hjob]
      simp

theorem stepSound_recoverSlice (cfg : SchedulerConfig) (r : Recovery) (sliceOrder : OrderRow)
    (parent : Option OrderRow) (readings : RecoveryReadings) :
    StepSound s (recoverSlice cfg s r sliceOrder parent readings now) ↔
      ∀ status message, recoveryAction cfg r.now sliceOrder parent readings =
        .mark status message →
        UpdateKeeps s.db sliceOrder.clientOrderId status (localKey status r.now) := by
  unfold recoverSlice
  cases recoveryAction cfg r.now sliceOrder parent readings with
  | mark status message =>
      refine stepSound_cas.trans ?_
      simp only [RecoveryAction.mark.injEq]
      constructor
      · rintro h _ _ ⟨rfl, rfl⟩
        exact h
      · exact fun h => h status message ⟨rfl, rfl⟩
  | cascade parentOrderId =>
      refine iff_of_true ?_ fun _ _ h => by cases h
      dsimp only
      split
      · exact stepSound_quiet
      · exact stepSound_cancelPending
  | skip => exact iff_of_true stepSound_quiet fun _ _ h => by cases h
  | reschedule parentOrderId sliceNum scheduledTime runTime =>
      refine iff_of_true ?_ fun _ _ h => by cases h
      refine stepSound_statement.mpr ?_
      unfold SliceStep.exec
      dsimp only
      split
      · exact .refl s.db
      · exact slicesKeep_setScheduledTime runTime now

theorem stepSound_recoverParent (r : Recovery) (parentOrderId : String) :
    StepSound s (recoverParent s r parentOrderId now) ↔
      (parentOrderId ∉ r.canceledParents → countNonTerminalChildren s.db parentOrderId = 0 →
        UpdateKeeps s.db parentOrderId .expired (localKey .expired r.now)) := by
  unfold recoverParent
  dsimp only
  split
  · rename_i hskip
    refine iff_of_true stepSound_quiet ?_
    intro hcanceled hcount
    rcases hskip with hin | hlive
    · exact absurd hin hcanceled
    · exact absurd hcount hlive
  · rename_i hexpire
    rw [not_or, not_not] at hexpire
    refine stepSound_cas.trans ?_
    exact ⟨fun h _ _ => h, fun h => h hexpire.1 hexpire.2⟩

end Steps

theorem stepSound_recovery (cfg : SchedulerConfig) (s : SliceSystem) (r : Recovery)
    (hr : s.recovery = some r) (e : SliceEvent) :
    StepSound s (recoveryStep cfg s e) ↔ SafeRecovery cfg s r e := by
  cases e with
  | recoverSlice readings now =>
      simp only [recoveryStep, hr, SafeRecovery]
      cases hpending : r.pending with
      | nil => exact iff_of_true stepSound_quiet fun _ h => by cases h
      | cons sliceOrder rest =>
          cases hparent : r.parent with
          | none => exact iff_of_true stepSound_quiet fun _ _ _ h => by cases h
          | some parent =>
              refine (stepSound_recoverSlice cfg _ sliceOrder parent readings).trans ?_
              simp
  | recoverParent parentOrderId now =>
      simp only [recoveryStep, hr, SafeRecovery]
      split
      · rename_i hready
        refine (stepSound_recoverParent r parentOrderId).trans ?_
        exact ⟨fun h _ _ => h, fun h => h hready.1 hready.2⟩
      · rename_i hidle
        exact iff_of_true stepSound_quiet fun hnil hmem => absurd ⟨hnil, hmem⟩ hidle
  | recover now =>
      simp only [recoveryStep, hr]
      exact iff_of_true stepSound_quiet trivial
  | recoverReadParent =>
      simp only [recoveryStep, hr]
      exact iff_of_true stepSound_quiet trivial
  | _ => exact iff_of_true stepSound_quiet trivial

theorem stepSound_advanceById (cfg : SchedulerConfig) (s : SliceSystem) (jobId : String)
    (e : SliceEvent) :
    StepSound s ((s.running.find? jobId).elim (.quiet s) fun r =>
      advance cfg s r.job r.phase e) ↔
      ∀ r, s.running.find? jobId = some r → SafeAdvance cfg s r.job r.phase e := by
  cases s.running.find? jobId with
  | none => exact iff_of_true stepSound_quiet fun _ h => by cases h
  | some r =>
      rw [Option.elim_some, stepSound_advance]
      simp

/-- Between two recoveries only a start does something. -/
theorem stepSound_recovery_idle (cfg : SchedulerConfig) {s : SliceSystem}
    (hidle : s.recovery = none) (e : SliceEvent) : StepSound s (recoveryStep cfg s e) := by
  cases e <;> simp only [recoveryStep, hidle] <;> exact stepSound_quiet

theorem stepSound_recoveryStep (cfg : SchedulerConfig) (s : SliceSystem) (e : SliceEvent) :
    StepSound s (recoveryStep cfg s e) ↔ ∀ r, s.recovery = some r → SafeRecovery cfg s r e := by
  cases hr : s.recovery with
  | none => exact iff_of_true (stepSound_recovery_idle cfg hr e) fun _ h => by cases h
  | some r =>
      rw [stepSound_recovery cfg s r hr]
      simp

/-- A step keeps the property exactly when it is safe. -/
theorem stepSound_iff (cfg : SchedulerConfig) (s : SliceSystem) (e : SliceEvent) :
    StepSound s (takeStep cfg s e) ↔ SafeStep cfg s e := by
  cases e with
  | schedule job => exact iff_of_true stepSound_quiet trivial
  | fire jobId =>
      refine iff_of_true ?_ trivial
      show StepSound s ((s.jobs.find? jobId).elim (.quiet s) (fireJob s))
      cases s.jobs.find? jobId with
      | none => exact stepSound_quiet
      | some job => exact stepSound_fireJob s job
  | misfire jobId => exact stepSound_dropById s jobId
  | check jobId result now => exact stepSound_advanceById cfg s jobId _
  | preSubmit jobId infraError now => exact stepSound_advanceById cfg s jobId _
  | reply jobId reply now => exact stepSound_advanceById cfg s jobId _
  | record jobId dbError now => exact stepSound_advanceById cfg s jobId _
  | raise jobId => exact stepSound_advanceById cfg s jobId _
  | recover now =>
      exact iff_of_true ((stepSound_recoveryStep cfg s _).mpr fun _ _ => trivial) trivial
  | recoverReadParent =>
      exact iff_of_true ((stepSound_recoveryStep cfg s _).mpr fun _ _ => trivial) trivial
  | recoverSlice readings now => exact stepSound_recoveryStep cfg s _
  | recoverParent parentOrderId now => exact stepSound_recoveryStep cfg s _
  | recoverEnd => exact iff_of_true stepSound_quiet trivial
  | cancelRemaining parentOrderId now => exact iff_of_true stepSound_cancelPending trivial
  | listJobs parentOrderId =>
      refine iff_of_true ?_ trivial
      simp only [takeStep]
      split <;> exact stepSound_quiet
  | removeJob jobId =>
      simp only [takeStep, SafeStep]
      by_cases hlisted : jobId ∈ s.removals
      · rw [if_pos hlisted, imp_iff_right hlisted]
        exact stepSound_dropById { s with removals := s.removals.erase jobId } jobId
      · rw [if_neg hlisted]
        exact iff_of_true stepSound_quiet fun h => absurd h hlisted
  | brokerUpdate cid u now => exact stepSound_cas
  | replaced cid now => exact stepSound_statement.trans (slicesKeep_setReplaced now)

instance (t : SliceStep) : Decidable (SentLive t) :=
  decidable_of_iff (∀ row ∈ t.sent.join, row.status.terminal = false) (by
    unfold SentLive
    cases t.sent with
    | none => simp
    | some row =>
        constructor
        · intro h found hfound
          cases hfound
          exact h found rfl
        · intro h found hfound
          exact h found (congrArg some hfound))

def sliceRow : OrderRow :=
  { OrderRow.defaults tenShares "slice-0" "twap_slice_parent_0" .pendingNew 0 with
    parentOrderId := some "parent"
    sliceNum := some 0
    scheduledTime := some 0 }

/-- One pending slice with its job. -/
def oneSlice : SliceSystem where
  db := { Database.empty with orders := .ofList [sliceRow] }
  jobs := .ofList [recoveredJob "parent" 0 0 sliceRow]
  running := .empty
  recovery := none
  canceling := []
  removals := []

/-- The answer to the first call is lost, the order fills, and the second attempt is refused. -/
def fillBetweenAttempts : List SliceEvent :=
  [.fire "parent_slice_0",
    .check "parent_slice_0" .clear (1 * second),
    .preSubmit "parent_slice_0" none (1 * second),
    .reply "parent_slice_0" (.connectionError "timeout") (2 * second),
    .brokerUpdate "slice-0" { localUpdate .filled (some "b-1") none (2 * second) with
      sourcePriority := sourcePriorityWebhook
      filledQty := some 10 } (3 * second),
    .check "parent_slice_0" .clear (4 * second),
    .preSubmit "parent_slice_0" none (4 * second),
    .reply "parent_slice_0" (.rejectionError "client_order_id must be unique") (5 * second)]

def liveScheduler : SchedulerConfig := ⟨true, 60, 86400⟩

end TradingPlatform.Gateway
