import TradingPlatform.Alerts.DeliveryService
import Mathlib.Tactic.Basic

/-! # The lifecycle of a delivery

Between two turns the row is in progress and nothing waits in the queue; a chain
that is handed on waits as one job for a pending row. What the row and the
counters hold then decides, turn by turn, what the chain leaves behind.
-/

namespace TradingPlatform.Alerts

open Base

def DeliveryChain.over (s : DeliveryChain) : Bool := s.worker.isNone && s.jobs.isEmpty

/-- What a chain is to keep: where `execute` has returned or raised, the delivery is settled or
one job will pick it up. -/
structure Lifecycle (s : DeliveryChain) : Prop where
  settled : s.worker = none → s.row.status = .delivered ∨ s.row.status = .poison ∨
    (s.row.status = .pending ∧ s.jobs.length = 1)
  sends_le : s.sends ≤ maxAttempts
  noResend : s.resends = 0
  decrements : s.decrements = if s.over then 1 else 0

/-- The turn sends, the channel asks for a long delay and there is a scheduler to ask. -/
structure HandsOver (e : DeliveryExecutor) (s : DeliveryChain) (w : Worker) (t : Turn) : Prop where
  retries : w.currentAttempt + 1 < maxAttempts
  allowed : checkRateLimits e.rateLimiter s.row t.limits = none
  handled : e.handlesChannel = true
  failed : t.send.result.success = false
  transient : isTransientError t.send.result = true
  long : (shouldReenqueue t.send.result).1 = true
  scheduler : e.retryScheduler = true

/-- The attempts do not start above the bound of the table, and the scheduler takes the job of
a channel that asks for a long delay. -/
def SafeDelivery (e : DeliveryExecutor) (s : DeliveryChain) : DeliveryEvent → Prop
  | .startJob _ => True
  | .turn t => ∀ w ∈ s.worker,
      w.currentAttempt ≤ maxAttempts ∧ (HandsOver e s w t → t.scheduled = true)

/-! ## Between the turns -/

/-- The slot is still held, and no job waits. -/
structure Held (s : DeliveryChain) : Prop where
  jobs : s.jobs = []
  resends : s.resends = 0
  decrements : s.decrements = 0

/-- The counters of a chain that is still going on. -/
structure Counted (s : DeliveryChain) : Prop extends Held s where
  successes : s.successes = 0

structure Working (s : DeliveryChain) (w : Worker) : Prop extends Counted s where
  worker : s.worker = some w
  status : s.row.status = .inProgress
  sends_le : s.sends ≤ w.currentAttempt
  bounded : w.lastResult.isSome → w.currentAttempt ≤ maxAttempts

structure Waiting (s : DeliveryChain) (job : RetryJob) : Prop where
  worker : s.worker = none
  status : s.row.status = .pending
  jobs : s.jobs = [job]
  successes : s.successes = 0
  resends : s.resends = 0
  decrements : s.decrements = 0
  sends_le : s.sends ≤ job.attempt

inductive Tracked (s : DeliveryChain) : Prop where
  | working (w : Worker) (h : Working s w)
  | waiting (job : RetryJob) (h : Waiting s job)
  | finished (hworker : s.worker = none) (hjobs : s.jobs = [])

/-! ## Ends of a turn -/

variable {e : DeliveryExecutor} {s : DeliveryChain} {w : Worker} {t : Turn}

theorem leave_settled (h : Held s) (hsends : s.sends ≤ maxAttempts)
    (hstatus : s.row.status = .delivered ∨ s.row.status = .poison) :
    Tracked (s.leave false) ∧ Lifecycle (s.leave false) := by
  refine ⟨.finished rfl h.jobs, ?_, hsends, h.resends, ?_⟩
  · intro _
    exact hstatus.imp_right Or.inl
  · simp [DeliveryChain.leave, DeliveryChain.over, h.jobs, h.decrements]

theorem leave_lost (h : Held s) (hdelivered : s.row.status ≠ .delivered)
    (hpoison : s.row.status ≠ .poison) :
    Tracked (s.leave false) ∧ ¬Lifecycle (s.leave false) := by
  refine ⟨.finished rfl h.jobs, ?_⟩
  intro hkept
  rcases hkept.settled rfl with hstatus | hstatus | ⟨-, hone⟩
  · exact hdelivered hstatus
  · exact hpoison hstatus
  · simp [DeliveryChain.leave, h.jobs] at hone

theorem leave_handoff (h : Counted s) (delay : ℤ) {attempt : ℕ} (hle : attempt ≤ maxAttempts)
    (hsends : s.sends ≤ attempt) (hstatus : s.row.status = .pending) :
    Tracked ((s.enqueue delay attempt).leave true) ∧
      Lifecycle ((s.enqueue delay attempt).leave true) := by
  have hjobs : ((s.enqueue delay attempt).leave true).jobs = [⟨delay, attempt⟩] := by
    simp [DeliveryChain.enqueue, DeliveryChain.leave, h.jobs]
  constructor
  · exact .waiting ⟨delay, attempt⟩
      ⟨rfl, hstatus, hjobs, h.successes, h.resends, h.decrements, hsends⟩
  · refine ⟨?_, le_trans hsends hle, h.resends, ?_⟩
    · intro _
      exact Or.inr (Or.inr ⟨hstatus, by rw [hjobs]; rfl⟩)
    · have hover : ((s.enqueue delay attempt).leave true).over = false := by
        simp [DeliveryChain.over, hjobs]
      rw [hover]
      exact h.decrements

theorem goOn_kept (h : Counted s) (hstatus : s.row.status = .inProgress)
    (hsends : s.sends ≤ w.currentAttempt) (hle : w.currentAttempt ≤ maxAttempts) :
    Tracked (s.goOn w) ∧ Lifecycle (s.goOn w) := by
  constructor
  · exact .working w ⟨⟨⟨h.jobs, h.resends, h.decrements⟩, h.successes⟩, rfl, hstatus, hsends,
      fun _ => hle⟩
  · refine ⟨?_, le_trans hsends hle, h.resends, h.decrements⟩
    intro hnone
    cases hnone

/-- A write within the bound of the table does not raise. -/
theorem recording_of_le {attempts : ℕ} (hle : attempts ≤ maxAttempts) (s : DeliveryChain)
    (status : DeliveryStatus) (error : Option String) (delivered : Bool) (now : Timestamp)
    (next : DeliveryChain → DeliveryChain) :
    ∃ row : AlertDelivery, row.status = status ∧
      s.recording attempts status error delivered now next = next { s with row } := by
  have hrecord : ∃ row : AlertDelivery,
      recordAttempt s.row attempts status error delivered now = some row ∧ row.status = status :=
    ⟨_, dif_pos hle, rfl⟩
  obtain ⟨row, hrow, hstatus⟩ := hrecord
  exact ⟨row, hstatus, by simp only [DeliveryChain.recording, hrow]⟩

theorem recording_of_lt {attempts : ℕ} (hlt : maxAttempts < attempts) (s : DeliveryChain)
    (status : DeliveryStatus) (error : Option String) (delivered : Bool) (now : Timestamp)
    (next : DeliveryChain → DeliveryChain) :
    s.recording attempts status error delivered now next = s.leave false := by
  simp only [DeliveryChain.recording, recordAttempt,
    dif_neg (show ¬attempts ≤ 3 from Nat.not_le.mpr hlt)]

theorem Held.withRow (h : Held s) (row : AlertDelivery) : Held { s with row } :=
  ⟨h.jobs, h.resends, h.decrements⟩

theorem Counted.withRow (h : Counted s) (row : AlertDelivery) : Counted { s with row } :=
  ⟨h.toHeld.withRow row, h.successes⟩

theorem poison_kept (h : Held s) (hsends : s.sends ≤ maxAttempts) (error : String)
    (now : Timestamp) : Tracked (s.poison error now) ∧ Lifecycle (s.poison error now) :=
  leave_settled (h.withRow _) hsends (Or.inr rfl)

theorem fail_kept (h : Held s) (hsends : s.sends ≤ maxAttempts) {attempts : ℕ}
    (hle : attempts ≤ maxAttempts) (error : Option String) (now : Timestamp) :
    Tracked (s.fail attempts error now) ∧ Lifecycle (s.fail attempts error now) := by
  unfold DeliveryChain.fail
  obtain ⟨row, -, hrow⟩ := recording_of_le hle s .failed error false now
    fun s => s.poison (errorText error) now
  rw [hrow]
  exact poison_kept (h.withRow row) hsends _ _

/-! ## One turn -/

theorem rescheduleLimited_kept (h : Working s w) (hlt : w.currentAttempt < maxAttempts)
    (result : DeliveryResult) :
    Tracked (s.rescheduleLimited w result t) ∧ Lifecycle (s.rescheduleLimited w result t) := by
  have hsends := h.sends_le
  unfold DeliveryChain.rescheduleLimited
  simp only
  split
  · exact fail_kept h.toHeld (by omega) (by omega) _ _
  · have hle : w.currentAttempt + 1 ≤ maxAttempts := by omega
    obtain ⟨row, hstatus, hrow⟩ := recording_of_le hle
      s .pending result.error false t.now _
    rw [hrow]
    split
    · exact leave_handoff (h.withRow row) _ (by omega) (by simp only; omega) hstatus
    · obtain ⟨row', hstatus', hrow'⟩ :=
        recording_of_le (show w.currentAttempt + 1 ≤ maxAttempts by omega)
          { s with row } .inProgress (some "scheduler_enqueue_failed") false t.now _
      rw [hrow']
      exact goOn_kept (h.withRow row') hstatus' (by simp only; omega) (by simp only; omega)

theorem waitLimited_kept (h : Working s w) (hlt : w.currentAttempt < maxAttempts)
    (result : DeliveryResult) :
    Tracked (s.waitLimited w result t) ∧ Lifecycle (s.waitLimited w result t) := by
  have hsends := h.sends_le
  unfold DeliveryChain.waitLimited
  simp only
  split
  · exact fail_kept h.toHeld (by omega) (by omega) _ _
  · obtain ⟨row, hstatus, hrow⟩ := recording_of_le (show w.currentAttempt ≤ maxAttempts by omega)
      s .inProgress result.error false t.now _
    rw [hrow]
    exact goOn_kept (h.withRow row) hstatus hsends (by simp only; omega)

theorem countSend_held (h : Counted s) (result : DeliveryResult) : Held (s.countSend result) := by
  constructor
  · exact h.jobs
  · simp [DeliveryChain.countSend, h.successes, h.resends]
  · exact h.decrements

theorem countSend_counted (h : Counted s) {result : DeliveryResult}
    (hfailed : result.success = false) : Counted (s.countSend result) := by
  refine ⟨countSend_held h result, ?_⟩
  simp [DeliveryChain.countSend, hfailed, h.successes]

theorem handsOver_of (h : w.currentAttempt + 1 < maxAttempts)
    (hallowed : checkRateLimits e.rateLimiter s.row t.limits = none)
    (hhandled : e.handlesChannel = true) (hfailed : t.send.result.success = false)
    (htransient : isTransientError t.send.result = true) :
    ((shouldReenqueue t.send.result).1 && e.retryScheduler) = true ↔ HandsOver e s w t := by
  rw [Bool.and_eq_true]
  constructor
  · intro ⟨hlong, hscheduler⟩
    exact ⟨h, hallowed, hhandled, hfailed, htransient, hlong, hscheduler⟩
  · intro hover
    exact ⟨hover.long, hover.scheduler⟩

/-- A turn that sends keeps the chain going unless the scheduler refuses a long delay. -/
theorem attemptSend_iff (h : Working s w) (hlt : w.currentAttempt < maxAttempts)
    (hallowed : checkRateLimits e.rateLimiter s.row t.limits = none)
    (hhandled : e.handlesChannel = true) :
    Tracked (s.attemptSend e w t) ∧
      (Lifecycle (s.attemptSend e w t) ↔ (HandsOver e s w t → t.scheduled = true)) := by
  have hsends := h.sends_le
  have hnext : w.currentAttempt + 1 ≤ maxAttempts := hlt
  have hcount : (s.countSend t.send.result).sends ≤ w.currentAttempt + 1 := by
    simp only [DeliveryChain.countSend]
    omega
  unfold DeliveryChain.attemptSend
  simp only
  by_cases hsuccess : t.send.result.success = true
  · have hnot : ¬HandsOver e s w t := fun hover => by
      rw [hover.failed] at hsuccess
      cases hsuccess
    obtain ⟨row, hstatus, hrow⟩ := recording_of_le hnext (s.countSend t.send.result)
      .delivered none true t.now fun s => s.leave false
    rw [if_pos hsuccess, hrow]
    have ⟨htracked, hkept⟩ :=
      leave_settled ((countSend_held h.toCounted t.send.result).withRow row)
        (le_trans hcount hnext) (Or.inl hstatus)
    exact ⟨htracked, iff_of_true hkept fun hover => absurd hover hnot⟩
  · have hfailed : t.send.result.success = false := by simpa using hsuccess
    have hcounted := countSend_counted h.toCounted hfailed
    rw [if_neg hsuccess]
    split
    · rename_i hterminal
      have hnot : ¬HandsOver e s w t := fun hover => by
        rcases hterminal with hlast | hpermanent
        · exact absurd hover.retries (by omega)
        · rw [hover.transient] at hpermanent
          cases hpermanent
      have ⟨htracked, hkept⟩ := fail_kept hcounted.toHeld (le_trans hcount hnext) hnext
        t.send.result.error t.now
      exact ⟨htracked, iff_of_true hkept fun hover => absurd hover hnot⟩
    · rename_i hretry
      obtain ⟨hmore, htransient⟩ := not_or.mp hretry
      have htransient : isTransientError t.send.result = true := by simpa using htransient
      have hover := handsOver_of (Nat.lt_of_not_le hmore) hallowed hhandled hfailed htransient
      by_cases hlong : ((shouldReenqueue t.send.result).1 && e.retryScheduler) = true
      · obtain ⟨row, hstatus, hrow⟩ := recording_of_le hnext (s.countSend t.send.result)
          .pending t.send.result.error false t.now _
        simp only [hlong, if_true]
        rw [hrow]
        split
        · rename_i hscheduled
          have ⟨htracked, hkept⟩ :=
            leave_handoff (hcounted.withRow row) (shouldReenqueue t.send.result).2 hnext hcount
              hstatus
          exact ⟨htracked, iff_of_true hkept fun _ => hscheduled⟩
        · rename_i hrefused
          have ⟨htracked, hlost⟩ := leave_lost (hcounted.toHeld.withRow row)
            (by rw [hstatus]; decide) (by rw [hstatus]; decide)
          exact ⟨htracked, iff_of_false hlost fun hsafe => hrefused (hsafe (hover.mp hlong))⟩
      · obtain ⟨row, hstatus, hrow⟩ := recording_of_le hnext (s.countSend t.send.result)
          .inProgress t.send.result.error false t.now _
        simp only [hlong, Bool.false_eq_true, if_false]
        rw [hrow]
        have ⟨htracked, hkept⟩ := goOn_kept (hcounted.withRow row) hstatus
          (w := { w with
            currentAttempt := w.currentAttempt + 1, lastResult := some t.send.result }) hcount hnext
        exact ⟨htracked, iff_of_true hkept fun h => absurd (hover.mpr h) hlong⟩

/-- The end of the loop is lost only on attempts that the table refuses. -/
theorem exhaust_iff (h : Working s w) (hsends : s.sends ≤ maxAttempts) (now : Timestamp)
    (hge : maxAttempts ≤ w.currentAttempt) :
    Tracked (s.exhaust w now) ∧ (Lifecycle (s.exhaust w now) ↔ w.currentAttempt ≤ maxAttempts) := by
  unfold DeliveryChain.exhaust
  cases hlast : w.lastResult with
  | some result =>
      have ⟨htracked, hkept⟩ := poison_kept h.toHeld hsends (errorText result.error) now
      exact ⟨htracked, iff_of_true hkept (h.bounded (by rw [hlast]; rfl))⟩
  | none =>
      simp only [max_eq_left hge]
      by_cases hle : w.currentAttempt ≤ maxAttempts
      · obtain ⟨row, -, hrow⟩ := recording_of_le hle s .failed (some "Attempt limit reached")
          false now fun s => s.poison "attempt_limit_reached" now
        rw [hrow]
        have ⟨htracked, hkept⟩ := poison_kept (h.toHeld.withRow row) hsends
          "attempt_limit_reached" now
        exact ⟨htracked, iff_of_true hkept hle⟩
      · rw [recording_of_lt (Nat.lt_of_not_le hle)]
        have ⟨htracked, hlost⟩ := leave_lost h.toHeld (by rw [h.status]; decide)
          (by rw [h.status]; decide)
        exact ⟨htracked, iff_of_false hlost hle⟩

theorem turn_iff (h : Working s w) (hsends : s.sends ≤ maxAttempts) :
    Tracked (s.turn e w t) ∧ (Lifecycle (s.turn e w t) ↔
      w.currentAttempt ≤ maxAttempts ∧ (HandsOver e s w t → t.scheduled = true)) := by
  unfold DeliveryChain.turn
  by_cases hge : maxAttempts ≤ w.currentAttempt
  · have hnot : ¬HandsOver e s w t := fun hover => by
      have hretries := hover.retries
      omega
    have ⟨htracked, hiff⟩ := exhaust_iff h hsends t.now hge
    rw [if_pos hge, hiff]
    exact ⟨htracked, (and_iff_left fun hover => absurd hover hnot).symm⟩
  · have hlt := Nat.lt_of_not_le hge
    rw [if_neg hge]
    cases hlimit : checkRateLimits e.rateLimiter s.row t.limits with
    | some result =>
        have hnot : ¬HandsOver e s w t := fun hover => by
          rw [hover.allowed] at hlimit
          cases hlimit
        have hsafe : w.currentAttempt ≤ maxAttempts ∧ (HandsOver e s w t → t.scheduled = true) :=
          ⟨hlt.le, fun hover => absurd hover hnot⟩
        simp only
        split
        · have ⟨htracked, hkept⟩ := rescheduleLimited_kept (t := t) h hlt result
          exact ⟨htracked, iff_of_true hkept hsafe⟩
        · have ⟨htracked, hkept⟩ := waitLimited_kept (t := t) h hlt result
          exact ⟨htracked, iff_of_true hkept hsafe⟩
    | none =>
        simp only
        split
        · rename_i hhandled
          have ⟨htracked, hiff⟩ := attemptSend_iff h hlt hlimit hhandled
          rw [hiff]
          exact ⟨htracked, (and_iff_right hlt.le).symm⟩
        · rename_i hunhandled
          have ⟨htracked, hkept⟩ := fail_kept h.toHeld hsends
            (show w.currentAttempt + 1 ≤ maxAttempts from hlt) (some "Unknown channel type") t.now
          refine ⟨htracked, iff_of_true hkept ⟨hlt.le, ?_⟩⟩
          intro hover
          exact absurd hover.handled hunhandled

/-! ## One step -/

/-- A retry job finds its row pending. -/
theorem startJob_kept {job : RetryJob} (h : Waiting s job) (hkept : Lifecycle s)
    (now : Timestamp) : Tracked (s.startJob now) ∧ Lifecycle (s.startJob now) := by
  have hclaim : claimDelivery s.row now =
      some { s.row with status := .inProgress, lastAttemptAt := some now } :=
    if_pos (Or.inl h.status)
  have hstart : s.startJob now =
      ({ s with
        row := { s.row with status := .inProgress, lastAttemptAt := some now }
        jobs := [] }).goOn ⟨job.attempt, max job.attempt s.row.attempts, none, 0⟩ := by
    simp only [DeliveryChain.startJob, h.worker, h.jobs, hclaim]
    rfl
  rw [hstart]
  constructor
  · exact .working _ ⟨⟨⟨rfl, h.resends, h.decrements⟩, h.successes⟩, rfl, rfl,
      le_trans h.sends_le (Nat.le_max_left _ _), fun hsome => by cases hsome⟩
  · refine ⟨?_, hkept.sends_le, h.resends, h.decrements⟩
    intro hnone
    cases hnone

theorem deliveryStep_tracked (h : Tracked s) (hkept : Lifecycle s) (event : DeliveryEvent) :
    Tracked (deliveryStep e s event) ∧
      (Lifecycle (deliveryStep e s event) ↔ SafeDelivery e s event) := by
  cases event with
  | startJob now =>
      cases h with
      | working w h =>
          have hsame : deliveryStep e s (.startJob now) = s := by
            simp only [deliveryStep, DeliveryChain.startJob, h.worker]
          rw [hsame]
          exact ⟨.working w h, iff_of_true hkept trivial⟩
      | waiting job h =>
          have ⟨htracked, hkept⟩ := startJob_kept h hkept now
          exact ⟨htracked, iff_of_true hkept trivial⟩
      | finished hworker hjobs =>
          have hsame : deliveryStep e s (.startJob now) = s := by
            simp only [deliveryStep, DeliveryChain.startJob, hworker, hjobs]
          rw [hsame]
          exact ⟨.finished hworker hjobs, iff_of_true hkept trivial⟩
  | turn t =>
      cases hworker : s.worker with
      | none =>
          have hsame : deliveryStep e s (.turn t) = s := by simp only [deliveryStep, hworker]
          have hsafe : SafeDelivery e s (.turn t) := by
            intro w hw
            rw [hworker] at hw
            cases hw
          rw [hsame]
          exact ⟨h, iff_of_true hkept hsafe⟩
      | some w =>
          have hworking : Working s w := by
            cases h with
            | working w' h =>
                have hsome := h.worker
                rw [hworker] at hsome
                cases hsome
                exact h
            | waiting job h => exact absurd (hworker.symm.trans h.worker) (by simp)
            | finished hnone _ => exact absurd (hworker.symm.trans hnone) (by simp)
          have hturn : deliveryStep e s (.turn t) = s.turn e w t := by
            simp only [deliveryStep, hworker]
          rw [hturn]
          have ⟨htracked, hiff⟩ := turn_iff (e := e) (t := t) hworking hkept.sends_le
          refine ⟨htracked, hiff.trans ?_⟩
          simp only [SafeDelivery, hworker, Option.mem_def, Option.some.injEq, forall_eq']

/-! ## Chains -/

theorem start_tracked (row : AlertDelivery) (attempt : ℕ) (now : Timestamp) :
    Tracked (.start row attempt now) ∧ Lifecycle (.start row attempt now) := by
  constructor
  · exact .working _ ⟨⟨⟨rfl, rfl, rfl⟩, rfl⟩, rfl, rfl, Nat.zero_le _, fun hsome => by cases hsome⟩
  · refine ⟨?_, Nat.zero_le _, rfl, rfl⟩
    intro hnone
    cases hnone

/-- From any claimed row and any attempt count: the chain keeps its lifecycle in every state
exactly when no job starts above the attempts that the table takes and the scheduler never
refuses the job of a channel that asks for a long delay. -/
theorem lifecycle_iff (e : DeliveryExecutor) (row : AlertDelivery) (attempt : ℕ)
    (now : Timestamp) (events : List DeliveryEvent) :
    EveryState (deliveryStep e) Lifecycle (.start row attempt now) events ↔
      EachStep (deliveryStep e) (SafeDelivery e) (.start row attempt now) events := by
  have ⟨htracked, hkept⟩ := start_tracked row attempt now
  have free : EachStep (deliveryStep e) (fun _ _ => True) (.start row attempt now) events :=
    eachStep_of_forall (by simp) _
  exact everyState_iff_eachStep (G := Tracked) (W := fun _ _ => True)
    (fun _ event h _ hkept => (deliveryStep_tracked h hkept event).1)
    (fun _ event h _ hkept => (deliveryStep_tracked h hkept event).2) htracked free hkept

/-! ## A job that the scheduler refuses -/

def sampleExecutor : DeliveryExecutor := ⟨false, true, true⟩

def sampleDelivery : AlertDelivery where
  dedupKey := "rule-1:email:hash-1:2025010112"
  status := .pending
  attempts := 0
  lastAttemptAt := none
  deliveredAt := none
  poisonAt := none
  errorMessage := none
  attempts_le := Nat.zero_le 3

/-- The channel asks for a minute, and the scheduler raises. -/
def busyChannelTurn : Turn where
  limits := .allowed true true true
  send := .answered { success := false, metadata := [("retry_after", "60")] }
  scheduled := false
  now := 1

/-- The first attempt leaves a pending row and no job. -/
theorem refused_job_strands_delivery :
    (run (deliveryStep sampleExecutor) (.start sampleDelivery 0 0) [.turn busyChannelTurn]).over =
        true ∧
      ¬EveryState (deliveryStep sampleExecutor) Lifecycle (.start sampleDelivery 0 0)
        [.turn busyChannelTurn] := by
  have hpending : (run (deliveryStep sampleExecutor) (.start sampleDelivery 0 0)
      [.turn busyChannelTurn]).row.status = .pending := by decide +kernel
  have hjobs : (run (deliveryStep sampleExecutor) (.start sampleDelivery 0 0)
      [.turn busyChannelTurn]).jobs = [] := by decide +kernel
  have hover : (run (deliveryStep sampleExecutor) (.start sampleDelivery 0 0)
      [.turn busyChannelTurn]).over = true := by decide +kernel
  refine ⟨hover, fun h => ?_⟩
  have hnone := Option.isNone_iff_eq_none.mp (Bool.and_eq_true_iff.mp hover).1
  rcases h.last.settled hnone with hstatus | hstatus | ⟨-, hone⟩
  · rw [hpending] at hstatus
    cases hstatus
  · rw [hpending] at hstatus
    cases hstatus
  · rw [hjobs] at hone
    cases hone

end TradingPlatform.Alerts
