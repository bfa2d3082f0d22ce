import TradingPlatform.Gateway.BrokerSubmission
import TradingPlatform.Gateway.SliceSafety

/-! # Ghost slices

An order that lives at the broker must not be written off here: its row is not
left rejected or failed, and a fill that was reported stays. To the job of a
slice a lost answer and a refused duplicate look like failures, and the lock of
the conflict-resolving update lets go of a filled row; the runs that are free of
both are the ones whose steps are safe.
-/

namespace TradingPlatform.Gateway

open Base

/-! ## The property -/

def OrderStatus.denied (status : OrderStatus) : Bool := status = .rejected || status = .failed

/-- The order's row does not deny the order. -/
def NotDenied (db : Database) (clientOrderId : String) : Prop :=
  ∀ r, db.orders.find? clientOrderId = some r → r.status.denied = false

def FilledStays (clientOrderId : String) (db db' : Database) : Prop :=
  ∀ r, db.orders.find? clientOrderId = some r → r.status = .filled →
    ∃ r', db'.orders.find? clientOrderId = some r' ∧ r'.status = .filled

theorem FilledStays.refl (cid : String) (db : Database) : FilledStays cid db db := by
  intro r hr hfilled
  exact ⟨r, hr, hfilled⟩

theorem FilledStays.trans {cid : String} {a b c : Database} (hab : FilledStays cid a b)
    (hbc : FilledStays cid b c) : FilledStays cid a c := by
  intro r hr hfilled
  obtain ⟨r', hr', hfilled'⟩ := hab r hr hfilled
  exact hbc r' hr' hfilled'

theorem FilledStays.map_status {cid : String} {db db' : Database} (h : FilledStays cid db db')
    (hfilled : (db.orders.find? cid).map (·.status) = some .filled) :
    (db'.orders.find? cid).map (·.status) = some .filled := by
  obtain ⟨r, hr, hstatus⟩ := Option.map_eq_some_iff.mp hfilled
  obtain ⟨r', hr', hstatus'⟩ := h r hr hstatus
  rw [hr', Option.map_some, hstatus']

/-- An accepted order is not denied. -/
def SliceRun.Honest (cid : String) (s : SliceRun) : Prop :=
  s.call.accepted = true → NotDenied s.db cid

def NoGhostSlice (cfg : SchedulerConfig) (job : SliceJob) (s : SliceRun)
    (es : List (SliceRunEvent × Timestamp)) : Prop :=
  EveryState (sliceRunStep cfg job) (SliceRun.Honest job.clientOrderId) s es ∧
    Along (sliceRunStep cfg job) (fun s s' => FilledStays job.clientOrderId s.db s'.db) s es

/-! ## The condition -/

/-- A fill webhook finds no filled row that is older and would become partially filled. -/
def SafeFill (c : BrokerCall) (db : Database) (cid : String) (u : CasUpdate) : Prop :=
  c.accepted = true → u.status = .partiallyFilled → ∀ r, db.orders.find? cid = some r →
    r.status = .filled → casNewer r u.key = false

/-- The row does not take the job's update when it is filled, or when the update denies an
order that the broker has. -/
def SafeWrite (accepted : Bool) (db : Database) (cid : String) (status : OrderStatus)
    (now : Timestamp) : Prop :=
  ∀ r, db.orders.find? cid = some r → casAccepts r (localKey status now) = true →
    r.status ≠ .filled ∧ (accepted = true → status.denied = false)

/-- The row is canceled, so that a guard ends the job. -/
def CanceledRow (db : Database) (cid : String) : Prop :=
  ∃ r, db.orders.find? cid = some r ∧ r.status = .canceled

def SafeSliceCheck (s : SliceRun) (cid : String) (now : Timestamp) : PreSubmissionCheck → Prop
  | .clear => True
  | .killSwitchEngaged =>
      CanceledRow s.db cid ∨ SafeWrite s.call.accepted s.db cid .blockedKillSwitch now
  | .breakerTripped _ =>
      CanceledRow s.db cid ∨ SafeWrite s.call.accepted s.db cid .blockedCircuitBreaker now
  | .infraError _ => SafeWrite s.call.accepted s.db cid .failed now

/-- The executor's reply does not make the job deny an order that the broker has. -/
def SafeSliceReply (accepted : Bool) (db : Database) (cid : String) (attempt : Nat)
    (now : Timestamp) : Option BrokerReply → Prop
  | some (.validationError _) | some (.rejectionError _) =>
      SafeWrite accepted db cid .rejected now
  | some (.connectionError _) => attempt < maxAttempts ∨ SafeWrite accepted db cid .failed now
  | some (.accepted _) | some (.valueError _) | some .otherError | none => True

/-- No update of the job changes what its row must keep. -/
def SafeSliceOwn (cfg : SchedulerConfig) (s : SliceRun) (cid : String) :
    SlicePhase → SliceEvent → Prop
  | .attempting _, .check _ result now => SafeSliceCheck s cid now result
  | .checked _, .preSubmit _ (some _) now => SafeWrite s.call.accepted s.db cid .failed now
  | .checked _, .preSubmit _ none now =>
      CanceledRow s.db cid ∨ cfg.executor = true ∨
        SafeWrite s.call.accepted s.db cid .dryRun now
  | .recording _ _, .record _ none now => SafeWrite s.call.accepted s.db cid .submitted now
  | .unconfirmed _ _, .record _ none now =>
      SafeWrite s.call.accepted s.db cid .submittedUnconfirmed now
  | _, _ => True

/-- Besides, the broker has the order only while the row does not deny it. -/
def SafeSliceStep (cfg : SchedulerConfig) (job : SliceJob) (s : SliceRun)
    (e : SliceRunEvent × Timestamp) : Prop :=
  let cid := job.clientOrderId
  match e.1, s.phase with
  | .attempt delivery, some (.sent attempt) =>
      let accepted := delivery.reaches s.call.accepted
      (accepted = true → NotDenied s.db cid) ∧
        SafeSliceReply accepted s.db cid attempt e.2 (s.call.tryOnce delivery).2
  | .own (.reply _ _ _), _ => True
  | .own e, some phase => SafeSliceOwn cfg s cid phase e
  | .fill u, _ => SafeFill s.call s.db cid u
  | _, _ => True

/-! ## What the updates keep -/

section Updates

variable {db : Database} {cid : String}

/-- A fact about the row that an update leaves, for every row it finds. -/
theorem forall_cas_iff (u : CasUpdate) (now : Timestamp) (p : OrderRow → Prop) :
    (∀ r', (updateOrderStatusCas db cid u now).1.orders.find? cid = some r' → p r') ↔
      ∀ r, db.orders.find? cid = some r → p (casUpdate r u now) := by
  rw [updateOrderStatusCas_find?]
  constructor
  · intro h r hr
    exact h _ (by rw [hr, Option.map_some])
  · intro h r' hr'
    obtain ⟨r, hr, heq⟩ := Option.map_eq_some_iff.mp hr'
    rw [← heq]
    exact h r hr

theorem filledStays_cas_iff (u : CasUpdate) (now : Timestamp) :
    FilledStays cid db (updateOrderStatusCas db cid u now).1 ↔
      ∀ r, db.orders.find? cid = some r → r.status = .filled →
        (casUpdate r u now).status = .filled := by
  unfold FilledStays
  rw [updateOrderStatusCas_find?]
  constructor
  · intro h r hr hfilled
    obtain ⟨r', hr', hfilled'⟩ := h r hr hfilled
    rw [hr, Option.map_some, Option.some.injEq] at hr'
    rwa [hr']
  · intro h r hr hfilled
    exact ⟨casUpdate r u now, by rw [hr, Option.map_some], h r hr hfilled⟩

/-- A job's update of its row. -/
theorem safeWrite_iff {accepted : Bool} {status : OrderStatus} (broker message : Option String)
    (now : Timestamp) (hstatus : status ≠ .filled) (hold : accepted = true → NotDenied db cid) :
    ((accepted = true → NotDenied (updateOrderStatusCas db cid
        (localUpdate status broker message now) now).1 cid) ∧
      FilledStays cid db (updateOrderStatusCas db cid
        (localUpdate status broker message now) now).1) ↔
      SafeWrite accepted db cid status now := by
  rw [filledStays_cas_iff]
  unfold NotDenied
  rw [forall_cas_iff]
  constructor
  · intro ⟨hdenied, hfilled⟩ r hr haccepts
    have hupdate := casUpdate_of_accepts (u := localUpdate status broker message now) haccepts now
    constructor
    · intro hold
      have hstays := hfilled r hr hold
      rw [hupdate] at hstays
      exact hstatus hstays
    · intro hbroker
      have hlive := hdenied hbroker r hr
      rwa [hupdate] at hlive
  · intro h
    constructor
    · intro hbroker r hr
      by_cases haccepts : casAccepts r (localKey status now) = true
      · rw [casUpdate_of_accepts (u := localUpdate status broker message now) haccepts]
        exact (h r hr haccepts).2 hbroker
      · rw [casUpdate_of_not_accepts (u := localUpdate status broker message now) haccepts]
        exact hold hbroker r hr
    · intro r hr hfilled
      by_cases haccepts : casAccepts r (localKey status now) = true
      · exact absurd hfilled (h r hr haccepts).1
      · rw [casUpdate_of_not_accepts (u := localUpdate status broker message now) haccepts]
        exact hfilled

/-- A denying update that leaves no denial behind found none. -/
theorem notDenied_of_denying {status : OrderStatus} (broker message : Option String)
    (now : Timestamp) (hdenied : status.denied = true)
    (h : NotDenied (updateOrderStatusCas db cid
      (localUpdate status broker message now) now).1 cid) : NotDenied db cid := by
  unfold NotDenied at h
  rw [forall_cas_iff] at h
  intro r hr
  have hrow := h r hr
  by_cases haccepts : casAccepts r (localKey status now) = true
  · rw [casUpdate_of_accepts (u := localUpdate status broker message now) haccepts] at hrow
    rw [show status.denied = false from hrow] at hdenied
    cases hdenied
  · rwa [casUpdate_of_not_accepts (u := localUpdate status broker message now) haccepts] at hrow

theorem casAccepts_filled {r : OrderRow} (hfilled : r.status = .filled) (k : CasKey) :
    casAccepts r k = casNewer r k := by
  simp [casAccepts, casUnlocked, hfilled]

theorem isFill_iff (u : CasUpdate) :
    isFill u = true ↔ u.status = .filled ∨ u.status = .partiallyFilled := by
  simp [isFill]

/-- A fill webhook keeps a filled row exactly when it is safe. -/
theorem safeFill_iff {c : BrokerCall} (u : CasUpdate) (now : Timestamp) :
    FilledStays cid db (fillWebhook c db cid u now) ↔ SafeFill c db cid u := by
  unfold fillWebhook SafeFill
  by_cases hfill : (c.accepted && isFill u) = true
  · rw [if_pos hfill, filledStays_cas_iff]
    rw [Bool.and_eq_true, isFill_iff] at hfill
    constructor
    · intro h _ hpartial r hr hfilled
      have hstays := h r hr hfilled
      by_contra hnewer
      rw [Bool.not_eq_false, ← casAccepts_filled hfilled] at hnewer
      rw [casUpdate_of_accepts hnewer, show (casApply r u now).status = u.status from rfl,
        hpartial] at hstays
      cases hstays
    · intro h r hr hfilled
      by_cases haccepts : casAccepts r u.key = true
      · rw [casUpdate_of_accepts haccepts]
        rcases hfill.2 with hwhole | hpartial
        · exact hwhole
        · rw [casAccepts_filled hfilled, h hfill.1 hpartial r hr hfilled] at haccepts
          cases haccepts
      · rw [casUpdate_of_not_accepts haccepts]
        exact hfilled
  · rw [if_neg hfill]
    refine iff_of_true (.refl cid db) ?_
    intro haccepted hpartial
    refine absurd ?_ hfill
    rw [haccepted, Bool.true_and]
    exact (isFill_iff u).mpr (Or.inr hpartial)

/-- A fill denies nothing. -/
theorem notDenied_fill {c : BrokerCall} (u : CasUpdate) (now : Timestamp)
    (h : NotDenied db cid) : NotDenied (fillWebhook c db cid u now) cid := by
  unfold fillWebhook
  split
  · rename_i hfill
    rw [Bool.and_eq_true, isFill_iff] at hfill
    unfold NotDenied
    rw [forall_cas_iff]
    intro r hr
    by_cases haccepts : casAccepts r u.key = true
    · rw [casUpdate_of_accepts haccepts]
      rcases hfill.2 with hwhole | hpartial
      · simp [casApply, OrderStatus.denied, hwhole]
      · simp [casApply, OrderStatus.denied, hpartial]
    · rw [casUpdate_of_not_accepts haccepts]
      exact h r hr
  · exact h

end Updates

/-! ## The job of a slice -/

section Slice

variable {cfg : SchedulerConfig} {job : SliceJob} {s : SliceRun} {now : Timestamp}

/-- What the two parts of the property say about one step. -/
def SliceRun.Sound (cid : String) (s s' : SliceRun) : Prop :=
  s'.Honest cid ∧ FilledStays cid s.db s'.db

/-- The run as a step of the job leaves it. -/
def SliceRun.take (s : SliceRun) (job : SliceJob) (t : SliceStep) : SliceRun :=
  { s with
    db := t.exec s.db
    phase := (t.next.running.find? job.jobId).map (·.phase) }

theorem advance_eq (phase : SlicePhase) (e : SliceEvent) :
    s.advance cfg job phase e =
      s.take job (advance cfg (jobAlone s.db job phase) job phase e) := rfl

/-- A step without a statement. -/
theorem sound_of_db {s' : SliceRun} (hdb : s'.db = s.db)
    (h : s'.call.accepted = true → NotDenied s.db job.clientOrderId) :
    s.Sound job.clientOrderId s' := by
  constructor
  · intro haccepted
    rw [hdb]
    exact h haccepted
  · rw [hdb]
    exact .refl _ _

theorem sound_quiet (h : s.Honest job.clientOrderId) {next : SliceSystem} :
    s.Sound job.clientOrderId (s.take job (.quiet next)) :=
  sound_of_db rfl h

theorem sound_finish_none (h : s.Honest job.clientOrderId) {system : SliceSystem} :
    s.Sound job.clientOrderId (s.take job (system.finish job none now)) :=
  sound_of_db rfl h

theorem sound_finish_iff (h : s.Honest job.clientOrderId) {system : SliceSystem}
    {status : OrderStatus} (broker message : Option String) (hstatus : status ≠ .filled) :
    s.Sound job.clientOrderId
        (s.take job (system.finish job (some (localUpdate status broker message now)) now)) ↔
      SafeWrite s.call.accepted s.db job.clientOrderId status now :=
  safeWrite_iff broker message now hstatus h

theorem canceledRow_iff (db : Database) (job : SliceJob) (phase : SlicePhase) :
    ((getOrderByClientId (jobAlone db job phase).db job.clientOrderId).any
      (·.status = .canceled)) = true ↔ CanceledRow db job.clientOrderId :=
  any_canceled_iff (jobAlone db job phase) job

theorem sound_check_iff (h : s.Honest job.clientOrderId) (phase : SlicePhase) (attempt : Nat)
    (result : PreSubmissionCheck) :
    s.Sound job.clientOrderId
        (s.take job (checkSlice (jobAlone s.db job phase) job attempt result now)) ↔
      SafeSliceCheck s job.clientOrderId now result := by
  by_cases hcanceled : CanceledRow s.db job.clientOrderId
  · have hany := (canceledRow_iff s.db job phase).mpr hcanceled
    have hends : s.Sound job.clientOrderId
        (s.take job ((jobAlone s.db job phase).finish job none now)) := sound_finish_none h
    cases result with
    | infraError message => exact sound_finish_iff h _ _ (by decide)
    | clear => simpa only [checkSlice, hany, SafeSliceCheck, if_true, iff_true] using hends
    | killSwitchEngaged =>
        simpa only [checkSlice, hany, SafeSliceCheck, if_true, hcanceled, true_or, iff_true]
          using hends
    | breakerTripped reason =>
        simpa only [checkSlice, hany, SafeSliceCheck, if_true, hcanceled, true_or, iff_true]
          using hends
  · have hany := mt (canceledRow_iff s.db job phase).mp hcanceled
    cases result with
    | infraError message => exact sound_finish_iff h _ _ (by decide)
    | clear =>
        simp only [checkSlice, if_neg hany, SafeSliceCheck]
        exact iff_of_true (sound_quiet h) trivial
    | killSwitchEngaged =>
        simp only [checkSlice, if_neg hany, SafeSliceCheck, hcanceled, false_or]
        exact sound_finish_iff h _ _ (by decide)
    | breakerTripped reason =>
        simp only [checkSlice, if_neg hany, SafeSliceCheck, hcanceled, false_or]
        exact sound_finish_iff h _ _ (by decide)

theorem sound_preSubmit_iff (h : s.Honest job.clientOrderId) (phase : SlicePhase)
    (attempt : Nat) : s.Sound job.clientOrderId
        (s.take job (preSubmitSlice cfg (jobAlone s.db job phase) job attempt none now)) ↔
      (CanceledRow s.db job.clientOrderId ∨ cfg.executor = true ∨
        SafeWrite s.call.accepted s.db job.clientOrderId .dryRun now) := by
  simp only [preSubmitSlice]
  by_cases hcanceled : CanceledRow s.db job.clientOrderId
  · rw [if_pos ((canceledRow_iff s.db job phase).mpr hcanceled)]
    exact iff_of_true (sound_finish_none h) (Or.inl hcanceled)
  · rw [if_neg (mt (canceledRow_iff s.db job phase).mp hcanceled), or_iff_right hcanceled]
    by_cases hexecutor : cfg.executor = true
    · rw [if_pos hexecutor]
      exact iff_of_true (sound_of_db rfl h) (Or.inl hexecutor)
    · rw [if_neg hexecutor, or_iff_right hexecutor]
      exact sound_finish_iff h _ _ (by decide)

theorem sound_record (h : s.Honest job.clientOrderId) (phase : SlicePhase)
    (brokerOrderId : Option String) (retryAttempt : Nat) (e : String) (now : Timestamp) :
    s.Sound job.clientOrderId (s.take job
      (recordSlice (jobAlone s.db job phase) job brokerOrderId retryAttempt (some e) now)) := by
  simp only [recordSlice]
  split <;> exact sound_quiet h

/-- A step of the job that is no reply of the broker. -/
theorem sound_own_iff (h : s.Honest job.clientOrderId) (phase : SlicePhase) {e : SliceEvent}
    (hown : ∀ jobId reply now, e ≠ .reply jobId reply now) :
    s.Sound job.clientOrderId (s.advance cfg job phase e) ↔
      SafeSliceOwn cfg s job.clientOrderId phase e := by
  rw [advance_eq]
  cases phase with
  | attempting attempt =>
      cases e with
      | check _ result now => exact sound_check_iff h _ attempt result
      | raise => exact iff_of_true (sound_finish_none h) trivial
      | _ => exact iff_of_true (sound_quiet h) trivial
  | checked attempt =>
      cases e with
      | preSubmit _ infraError now =>
          cases infraError with
          | none => exact sound_preSubmit_iff h _ attempt
          | some message => exact sound_finish_iff h _ _ (by decide)
      | raise => exact iff_of_true (sound_finish_none h) trivial
      | _ => exact iff_of_true (sound_quiet h) trivial
  | sent attempt =>
      cases e with
      | reply jobId reply now => exact absurd rfl (hown jobId reply now)
      | raise => exact iff_of_true (sound_finish_none h) trivial
      | _ => exact iff_of_true (sound_quiet h) trivial
  | recording brokerOrderId retryAttempt =>
      cases e with
      | record _ dbError now =>
          cases dbError with
          | none => exact sound_finish_iff h _ _ (by decide)
          | some e => exact iff_of_true (sound_record h _ _ _ e now) trivial
      | raise => exact iff_of_true (sound_finish_none h) trivial
      | _ => exact iff_of_true (sound_quiet h) trivial
  | unconfirmed brokerOrderId dbError =>
      cases e with
      | record _ failed now =>
          cases failed with
          | none => exact sound_finish_iff h _ _ (by decide)
          | some e => exact iff_of_true (sound_finish_none h) trivial
      | raise => exact iff_of_true (sound_finish_none h) trivial
      | _ => exact iff_of_true (sound_quiet h) trivial

/-- A reply of the broker, in the state where the broker has made up its mind. -/
theorem sound_reply_iff (attempt : Nat) (reply : BrokerReply) :
    s.Sound job.clientOrderId
        (s.advance cfg job (.sent attempt) (.reply job.jobId reply now)) ↔
      s.Honest job.clientOrderId ∧
        SafeSliceReply s.call.accepted s.db job.clientOrderId attempt now (some reply) := by
  have hquiet : ∀ {next : SliceSystem},
      s.Sound job.clientOrderId (s.take job (.quiet next)) ↔ s.Honest job.clientOrderId ∧ True :=
    ⟨fun h => ⟨h.1, trivial⟩, fun h => sound_quiet h.1⟩
  have hnone : ∀ {system : SliceSystem},
      s.Sound job.clientOrderId (s.take job (system.finish job none now)) ↔
        s.Honest job.clientOrderId ∧ True :=
    ⟨fun h => ⟨h.1, trivial⟩, fun h => sound_finish_none h.1⟩
  have hdenies : ∀ {system : SliceSystem} {status : OrderStatus} (message : Option String),
      status.denied = true → status ≠ .filled →
      (s.Sound job.clientOrderId
        (s.take job (system.finish job (some (localUpdate status none message now)) now)) ↔
        s.Honest job.clientOrderId ∧
          SafeWrite s.call.accepted s.db job.clientOrderId status now) := by
    intro system status message hdenied hstatus
    constructor
    · intro h
      have hhonest : s.Honest job.clientOrderId := fun haccepted =>
        notDenied_of_denying none message now hdenied (h.1 haccepted)
      exact ⟨hhonest, (sound_finish_iff hhonest none message hstatus).mp h⟩
    · exact fun h => (sound_finish_iff h.1 none message hstatus).mpr h.2
  rw [advance_eq]
  cases reply with
  | accepted brokerOrderId => exact hquiet
  | validationError e => exact hdenies _ rfl (by decide)
  | rejectionError e => exact hdenies _ rfl (by decide)
  | connectionError e =>
      simp only [advance, replySlice, SafeSliceReply]
      by_cases hretry : attempt < maxAttempts
      · rw [if_pos hretry]
        exact hquiet.trans (and_congr_right fun _ => iff_of_true trivial (Or.inl hretry))
      · rw [if_neg hretry, or_iff_right hretry]
        exact hdenies _ rfl (by decide)
  | valueError e => exact hnone
  | otherError => exact hnone

theorem sound_attempt_iff {attempt : Nat} (hphase : s.phase = some (.sent attempt))
    (delivery : Delivery) :
    s.Sound job.clientOrderId (sliceRunStep cfg job s (.attempt delivery, now)) ↔
      SafeSliceStep cfg job s (.attempt delivery, now) := by
  have haccepted := tryOnce_accepted s.call delivery
  simp only [sliceRunStep, SafeSliceStep, hphase]
  cases htry : s.call.tryOnce delivery with
  | mk call reply =>
      rw [htry] at haccepted
      rw [← haccepted]
      cases reply with
      | none => exact ⟨fun h => ⟨h.1, trivial⟩, fun h => sound_of_db rfl h.1⟩
      | some reply => exact sound_reply_iff (s := { s with call }) attempt reply

/-- A step keeps the property exactly when it is safe. -/
theorem sound_iff (h : s.Honest job.clientOrderId) (e : SliceRunEvent × Timestamp) :
    s.Sound job.clientOrderId (sliceRunStep cfg job s e) ↔ SafeSliceStep cfg job s e := by
  obtain ⟨e, now⟩ := e
  have hidle : s.Sound job.clientOrderId s := sound_of_db rfl h
  cases e with
  | attempt delivery =>
      cases hphase : s.phase with
      | none =>
          simp only [sliceRunStep, SafeSliceStep, hphase, iff_true]
          exact hidle
      | some phase =>
          cases phase with
          | sent attempt => exact sound_attempt_iff hphase delivery
          | _ =>
              simp only [sliceRunStep, SafeSliceStep, hphase, iff_true]
              exact hidle
  | own e =>
      cases e with
      | reply => exact iff_of_true hidle trivial
      | _ =>
          simp only [sliceRunStep, SafeSliceStep]
          cases s.phase with
          | none => exact iff_of_true hidle trivial
          | some phase => exact sound_own_iff h phase fun _ _ _ => SliceEvent.noConfusion
  | fill u =>
      constructor
      · exact fun h => (safeFill_iff u now).mp h.2
      · exact fun hsafe =>
          ⟨fun haccepted => notDenied_fill u now (h haccepted), (safeFill_iff u now).mpr hsafe⟩

end Slice

theorem noGhostSlice_iff (cfg : SchedulerConfig) (job : SliceJob) (db : Database)
    (es : List (SliceRunEvent × Timestamp)) :
    NoGhostSlice cfg job (.start db) es ↔
      EachStep (sliceRunStep cfg job) (SafeSliceStep cfg job) (.start db) es := by
  have hunsent : (SliceRun.start db).Honest job.clientOrderId := by
    intro haccepted
    cases haccepted
  have hexact : ∀ s e, True → SliceRun.Honest job.clientOrderId s →
      ((sliceRunStep cfg job s e).Honest job.clientOrderId ∧
        FilledStays job.clientOrderId s.db (sliceRunStep cfg job s e).db ↔
        SafeSliceStep cfg job s e) := fun s e _ h => sound_iff h e
  unfold NoGhostSlice
  exact everyState_and_along_iff (fun s => .refl _ s.db) (fun _ _ _ h h' => h.trans h')
    (fun _ _ _ => trivial) hexact es trivial hunsent

end TradingPlatform.Gateway
