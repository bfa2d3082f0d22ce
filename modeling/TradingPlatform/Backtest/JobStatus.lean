import TradingPlatform.Backtest.JobQueue
import TradingPlatform.Base.Run

/-! # What the status of a backtest job says

An attempt that returns has recorded its result, which completes the row whatever its
status was. The flag of a cancellation outlives the job that it was set for, so that the
first check of a later job may find it.
-/

namespace TradingPlatform.Backtest

open Base

variable {A : Type*} {s t : JobState A} {a : A} {attempt : Attempt}

/-- The status of the row is completed. -/
def JobState.Completed (s : JobState A) : Prop := ∃ row, s.row = some row ∧ row.status = .completed

/-- The result is recorded. -/
def WorkerStage.recorded : WorkerStage → Bool
  | .finishing | .completing | .returning => true
  | _ => false

section Steps

variable [DecidableEq A]

/-- An attempt that returns leaves the row completed, if nothing else happened to the job since it
started. -/
def ReturnsCompleted (s : JobState A) : JobEvent A → Prop
  | .work a .proceed => ∀ attempt, s.attempts a = some attempt → attempt.stage = .returning →
      attempt.undisturbed = true → (jobStep s (.work a .proceed)).Completed
  | _ => True

/-- An attempt at a job since whose enqueueing no cancellation was called does not end as
cancelled. -/
def CancelledOnRequest (s : JobState A) : JobEvent A → Prop
  | .work a .proceed => ∀ attempt, s.attempts a = some attempt → attempt.stage = .cancelling →
      attempt.fresh = false
  | _ => True

end Steps

/-- The call makes a job of the queue. -/
def JobState.Enqueues (s : JobState A) (call : EnqueueCall) : Prop :=
  (s.enqueuePath call = .create ∨ ∃ healCount, s.enqueuePath call = .heal healCount) ∧
    call.queueFails = false

/-- A job is enqueued while no flag of a cancellation is set. -/
def EnqueuedUnflagged (s : JobState A) : JobEvent A → Prop
  | .enqueue call => s.Enqueues call → s.flagged = false
  | _ => True

/-! ## Writes -/

theorem JobState.Completed.map (h : s.Completed) {f : BacktestJob → BacktestJob}
    (hf : ∀ row, row.status = .completed → (f row).status = .completed)
    (hrow : t.row = s.row.map f) : t.Completed := by
  obtain ⟨row, hsome, hstatus⟩ := h
  exact ⟨f row, by rw [hrow, hsome]; rfl, hf row hstatus⟩

/-- A write of a worker to the row and to the keys, besides its own check. -/
structure JobState.Beside (t s : JobState A) : Prop where
  attempts : t.attempts = s.attempts
  flagged : t.flagged = s.flagged
  fresh : (∃ job, t.rq = some job ∧ job.fresh = true) → ∃ job, s.rq = some job ∧ job.fresh = true
  completed : s.Completed → t.Completed

theorem beside_rfl (s : JobState A) : s.Beside s := ⟨rfl, rfl, id, id⟩

theorem JobState.Beside.trans {u : JobState A} (h : t.Beside s) (h' : u.Beside t) : u.Beside s where
  attempts := h'.attempts.trans h.attempts
  flagged := h'.flagged.trans h.flagged
  fresh := h.fresh ∘ h'.fresh
  completed := h'.completed ∘ h.completed

theorem flagged_extended (s : JobState A) (ttl : ℕ) (hpos : 0 < ttl) :
    (if s.flagged then some (s.now + ttl) else s.cancelFlag).any (fun expiry => s.now < expiry) =
      s.flagged := by
  cases hflag : s.flagged with
  | false => exact hflag
  | true =>
      simp only [if_true, Option.any_some, decide_eq_true_eq]
      omega

theorem beside_updateDbStatus (s : JobState A) (status : JobStatus) :
    (s.updateDbStatus status).Beside s where
  attempts := rfl
  flagged := rfl
  fresh := id
  completed := by
    intro h
    refine h.map ?_ rfl
    intro row hstatus
    simp [hstatus, JobStatus.terminal]

theorem beside_writeProgress (s : JobState A) (pct jobTimeout : ℕ) :
    (s.writeProgress pct jobTimeout).Beside s where
  attempts := rfl
  flagged := by
    exact flagged_extended s (max jobTimeout 3600) (by omega)
  fresh := id
  completed := by
    intro h
    refine h.map ?_ rfl
    intro row hstatus
    split
    · exact hstatus
    · exact hstatus

theorem beside_writeHeartbeat (s : JobState A) (jobTimeout : ℕ) :
    (s.writeHeartbeat jobTimeout).Beside s where
  attempts := rfl
  flagged := flagged_extended s (max jobTimeout 3600) (by omega)
  fresh := id
  completed := id

theorem beside_rqReturned (s : JobState A) : s.rqReturned.Beside s where
  attempts := rfl
  flagged := rfl
  fresh := by
    rintro ⟨job, hsome, hfresh⟩
    obtain ⟨old, hold, rfl⟩ := Option.map_eq_some_iff.mp hsome
    refine ⟨old, hold, ?_⟩
    split at hfresh
    · exact hfresh
    · exact hfresh
  completed := id

theorem beside_rqRaised (s : JobState A) : s.rqRaised.Beside s where
  attempts := rfl
  flagged := rfl
  fresh := by
    rintro ⟨job, hsome, hfresh⟩
    obtain ⟨old, hold, rfl⟩ := Option.map_eq_some_iff.mp hsome
    refine ⟨old, hold, ?_⟩
    split at hfresh
    · split at hfresh
      · exact hfresh
      · exact hfresh
    · exact hfresh
  completed := by
    intro h
    refine h.map ?_ rfl
    intro _ hstatus
    exact hstatus

/-! ## A step of a worker -/

variable [DecidableEq A]

/-- How a step of a worker ends: it may find the flag, go on to a stage or be over. -/
inductive JobState.Worked (s : JobState A) (a : A) (attempt : Attempt) (t : JobState A) : Prop where
  | nothing (h : t = s)
  | cancelled (hflag : s.flagged = true)
      (h : t = JobState.goto { s with cancelFlag := none } a attempt .cancelling)
  | stage (u : JobState A) (stage : WorkerStage) (hbeside : u.Beside s)
      (hstage : stage ≠ .cancelling)
      (hrecorded : stage.recorded = true → (attempt.stage.recorded = true → s.Completed) →
        u.Completed)
      (h : t = u.goto a attempt stage)
  | finished (u : JobState A) (hbeside : u.Beside s) (h : t = u.put a none)

/-- After a check that finds no flag a stage follows that is recorded only after another one. -/
theorem worked_updateProgress (s : JobState A) (a : A) (attempt : Attempt) (pct : ℕ)
    {stage : WorkerStage} (hstage : stage ≠ .cancelling)
    (hrecorded : stage.recorded = true → attempt.stage.recorded = true) :
    s.Worked a attempt (s.updateProgress a attempt pct stage) := by
  unfold JobState.updateProgress JobState.checked
  have hbeside := beside_writeProgress s pct attempt.jobTimeout
  by_cases hflag : s.flagged = true
  · rw [if_pos hflag]
    exact .cancelled hflag rfl
  · rw [if_neg hflag]
    exact .stage _ stage hbeside hstage
      (fun hlater hbefore => hbeside.completed (hbefore (hrecorded hlater))) rfl

theorem worked_goto (s : JobState A) (a : A) (attempt : Attempt) {u : JobState A}
    (hbeside : u.Beside s) {stage : WorkerStage} (hstage : stage ≠ .cancelling)
    (hrecorded : stage.recorded = true → attempt.stage.recorded = true) :
    s.Worked a attempt (u.goto a attempt stage) :=
  .stage u stage hbeside hstage
    (fun hlater hbefore => hbeside.completed (hbefore (hrecorded hlater))) rfl

theorem worked (hattempt : s.attempts a = some attempt) (input : WorkInput) :
    s.Worked a attempt (s.work a attempt input) := by
  unfold JobState.work
  cases input with
  | proceed =>
      cases hstage : attempt.stage with
      | init => exact worked_updateProgress s a attempt 5 (by decide) nofun
      | setup =>
          exact worked_goto s a attempt (beside_updateDbStatus s .running) (by decide) nofun
      | started => exact worked_updateProgress s a attempt 0 (by decide) nofun
      | loading => exact worked_updateProgress s a attempt 10 (by decide) nofun
      | computing => exact worked_goto s a attempt (beside_rfl s) (by decide) nofun
      | saving => exact worked_updateProgress s a attempt 90 (by decide) nofun
      | savingDb => exact worked_updateProgress s a attempt 95 (by decide) nofun
      | recording =>
          dsimp only
          cases hsaved : s.saveResult with
          | none => exact worked_goto s a attempt (beside_rfl s) (by decide) nofun
          | some saved =>
              obtain ⟨row, hrow, rfl⟩ := Option.map_eq_some_iff.mp hsaved
              have hcompleted : JobState.Completed
                  { s with row := some { row with status := .completed } } := ⟨_, rfl, rfl⟩
              exact .stage { s with row := some { row with status := .completed } } .finishing
                ⟨rfl, rfl, id, fun _ => hcompleted⟩ (by decide) (fun _ _ => hcompleted) rfl
      | finishing =>
          exact worked_updateProgress s a attempt 100 (by decide) (fun _ => by rw [hstage]; rfl)
      | completing =>
          exact worked_goto s a attempt (beside_updateDbStatus s .completed) (by decide)
            (fun _ => by rw [hstage]; rfl)
      | returning => exact .finished _ (beside_rqReturned s) rfl
      | cancelling =>
          have hbeside := ((beside_updateDbStatus s .cancelled).trans
            (beside_writeProgress _ ((s.get s.progress).getD 0) 3600)).trans (beside_rqReturned _)
          exact .finished _ hbeside rfl
      | failing =>
          have hbeside := (beside_updateDbStatus s .failed).trans (beside_rqRaised _)
          exact .finished _ hbeside rfl
  | raise =>
      cases hstage : attempt.stage with
      | returning => exact .nothing rfl
      | cancelling => exact .nothing rfl
      | failing => exact .nothing rfl
      | _ => exact worked_goto s a attempt (beside_rfl s) (by decide) nofun
  | report pct =>
      cases hstage : attempt.stage with
      | computing => exact worked_updateProgress s a attempt pct (by decide) nofun
      | _ => exact .nothing rfl
  | periodic =>
      cases hstage : attempt.stage with
      | computing =>
          dsimp only
          unfold JobState.checked
          have hbeside := beside_writeHeartbeat s attempt.jobTimeout
          by_cases hflag : s.flagged = true
          · rw [if_pos hflag]
            exact .cancelled hflag rfl
          · rw [if_neg hflag]
            have hsame : s.writeHeartbeat attempt.jobTimeout =
                (s.writeHeartbeat attempt.jobTimeout).goto a attempt .computing := by
              have hself : Function.update s.attempts a (some attempt) = s.attempts := by
                rw [← hattempt, Function.update_eq_self]
              have hput : ({ attempt with stage := .computing } : Attempt) = attempt := by
                rw [← hstage]
              unfold JobState.goto JobState.put
              rw [hput]
              change _ = { s.writeHeartbeat attempt.jobTimeout with
                attempts := Function.update s.attempts a (some attempt) }
              rw [hself]
              rfl
            rw [hsame]
            exact worked_goto s a attempt hbeside (by decide) nofun
      | _ => exact .nothing rfl

/-! ## Results -/

/-- Where an attempt that nothing has disturbed has recorded its result, the row is completed. -/
def JobState.Sound (s : JobState A) : Prop :=
  ∀ a attempt, s.attempts a = some attempt → attempt.undisturbed = true →
    attempt.stage.recorded = true → s.Completed

omit [DecidableEq A] in
theorem attempts_enqueue (s : JobState A) (call : EnqueueCall) :
    (s.enqueue call).attempts = s.attempts := by
  unfold JobState.enqueue
  split <;> rfl

omit [DecidableEq A] in
theorem attempts_cancelJob (s : JobState A) (jobTimeout : Option ℕ) :
    (s.cancelJob jobTimeout).1.attempts = s.attempts := by
  unfold JobState.cancelJob
  split
  · split
    · rfl
    · split <;> rfl
  · split <;> rfl

omit [DecidableEq A] in
theorem attempts_watchdog (s : JobState A) : s.watchdog.attempts = s.attempts := by
  unfold JobState.watchdog
  split
  · rfl
  · dsimp only
    split <;> rfl

theorem disturb_attempts {except : Option A} {attempt : Attempt}
    (h : (s.disturb except).attempts a = some attempt) :
    ∃ old, s.attempts a = some old ∧ attempt.stage = old.stage ∧ attempt.fresh = old.fresh ∧
      (attempt.undisturbed = true → except = some a ∧ attempt = old) := by
  change (if except = some a then s.attempts a else _) = _ at h
  split at h
  · rename_i heq
    exact ⟨attempt, h, rfl, rfl, fun _ => ⟨heq, rfl⟩⟩
  · obtain ⟨old, hold, rfl⟩ := Option.map_eq_some_iff.mp h
    exact ⟨old, hold, rfl, rfl, fun hfalse => by cases hfalse⟩

theorem disturb_self (s : JobState A) (a : A) :
    (s.disturb (some a)).attempts a = s.attempts a := if_pos rfl

theorem disturb_none (s : JobState A) (a : A) : (s.disturb none).attempts a =
    (s.attempts a).map fun attempt => { attempt with undisturbed := false } := by
  simp [JobState.disturb]

theorem jobStep_work (hattempt : s.attempts a = some attempt) (input : WorkInput) :
    jobStep s (.work a input) = (s.disturb (some a)).work a attempt input := by
  unfold jobStep
  dsimp only
  rw [hattempt]

theorem sound_disturb (h : s.Sound) (except : Option A) : (s.disturb except).Sound := by
  intro a attempt hattempt hundisturbed hrecorded
  obtain ⟨old, hold, -, -, hsame⟩ := disturb_attempts hattempt
  obtain ⟨-, rfl⟩ := hsame hundisturbed
  exact h a attempt hold hundisturbed hrecorded

/-- After a step beside all attempts there is none that is undisturbed. -/
theorem sound_of_disturbed
    (h : ∀ a attempt, t.attempts a = some attempt →
      ∃ old, (s.disturb none).attempts a = some old ∧ attempt.undisturbed = old.undisturbed) :
    t.Sound := by
  intro a attempt hattempt hundisturbed
  obtain ⟨old, hold, hsame⟩ := h a attempt hattempt
  obtain ⟨_, -, -, -, hnone⟩ := disturb_attempts hold
  rw [hsame] at hundisturbed
  cases (hnone hundisturbed).1

theorem sound_work (h : s.Sound) (hattempt : s.attempts a = some attempt) (input : WorkInput) :
    ((s.disturb (some a)).work a attempt input).Sound := by
  have hdisturbed := sound_disturb h (some a)
  have hself := (disturb_self s a).trans hattempt
  have hothers : ∀ {u : JobState A} {next : Option Attempt} {b : A} {other : Attempt}, b ≠ a →
      u.attempts = (s.disturb (some a)).attempts → (u.put a next).attempts b = some other →
        other.undisturbed = true → False := by
    intro u next b other hne hattempts hother hundisturbed
    change Function.update u.attempts a next b = _ at hother
    rw [Function.update_of_ne hne, hattempts] at hother
    obtain ⟨_, -, -, -, hsame⟩ := disturb_attempts hother
    obtain ⟨heq, -⟩ := hsame hundisturbed
    cases heq
    exact hne rfl
  rcases worked hself input with heq | ⟨-, heq⟩ | ⟨u, stage, hbeside, -, hrecorded, heq⟩ |
    ⟨u, hbeside, heq⟩
  · rw [heq]
    exact hdisturbed
  · rw [heq]
    intro b other hother hundisturbed hlater
    by_cases hne : b = a
    · subst hne
      change Function.update _ b _ b = _ at hother
      rw [Function.update_self] at hother
      cases hother
      cases hlater
    · exact (hothers hne rfl hother hundisturbed).elim
  · rw [heq]
    intro b other hother hundisturbed hlater
    by_cases hne : b = a
    · subst hne
      change Function.update _ b _ b = _ at hother
      rw [Function.update_self] at hother
      cases hother
      exact hrecorded hlater fun hbefore => hdisturbed b attempt hself hundisturbed hbefore
    · exact (hothers hne hbeside.attempts hother hundisturbed).elim
  · rw [heq]
    intro b other hother hundisturbed
    by_cases hne : b = a
    · subst hne
      change Function.update _ b _ b = _ at hother
      rw [Function.update_self] at hother
      cases hother
    · exact (hothers hne hbeside.attempts hother hundisturbed).elim

theorem sound_step (h : s.Sound) (event : JobEvent A) : (jobStep s event).Sound := by
  cases event with
  | wait seconds => exact h
  | requeue => exact h
  | evict => exact h
  | enqueue call =>
      apply sound_of_disturbed (s := s)
      intro a attempt hattempt
      change ((s.disturb none).enqueue call).attempts a = _ at hattempt
      rw [attempts_enqueue] at hattempt
      exact ⟨attempt, hattempt, rfl⟩
  | cancel jobTimeout =>
      apply sound_of_disturbed (s := s)
      intro a attempt hattempt
      change (JobState.cancelJob _ jobTimeout).1.attempts a = _ at hattempt
      rw [attempts_cancelJob] at hattempt
      obtain ⟨old, hold, rfl⟩ := Option.map_eq_some_iff.mp hattempt
      exact ⟨old, hold, rfl⟩
  | watchdog =>
      apply sound_of_disturbed (s := s)
      intro a attempt hattempt
      change (s.disturb none).watchdog.attempts a = _ at hattempt
      rw [attempts_watchdog] at hattempt
      exact ⟨attempt, hattempt, rfl⟩
  | start a =>
      unfold jobStep JobState.startAttempt
      dsimp only
      split
      · split
        · intro b attempt hattempt hundisturbed hrecorded
          by_cases heq : b = a
          · subst heq
            change Function.update _ b _ b = _ at hattempt
            rw [Function.update_self] at hattempt
            cases hattempt
            cases hrecorded
          · change Function.update _ a _ b = _ at hattempt
            rw [Function.update_of_ne heq] at hattempt
            exact sound_disturb h none b attempt hattempt hundisturbed hrecorded
        · exact h
      · exact h
  | work a input =>
      unfold jobStep
      dsimp only
      cases hattempt : s.attempts a with
      | none => exact h
      | some attempt => exact sound_work h hattempt input
  | lose a =>
      unfold jobStep
      dsimp only
      cases hattempt : s.attempts a with
      | none => exact h
      | some attempt =>
          apply sound_of_disturbed (s := s)
          intro b other hother
          by_cases heq : b = a
          · subst heq
            change Function.update _ b _ b = _ at hother
            rw [Function.update_self] at hother
            cases hother
          · change Function.update _ a _ b = _ at hother
            rw [Function.update_of_ne heq] at hother
            exact ⟨other, hother, rfl⟩

theorem returnsCompleted (h : s.Sound) (event : JobEvent A) : ReturnsCompleted s event := by
  cases event with
  | work a input =>
      cases input with
      | proceed =>
          intro attempt hattempt hstage hundisturbed
          obtain ⟨row, hrow, hstatus⟩ := h a attempt hattempt hundisturbed (by rw [hstage]; rfl)
          refine ⟨row, ?_, hstatus⟩
          rw [jobStep_work hattempt, JobState.work]
          dsimp only
          rw [hstage]
          exact hrow
      | _ => trivial
  | _ => trivial

/-! ## Cancellations -/

def JobState.AnyFresh (s : JobState A) : Prop :=
  (∃ job, s.rq = some job ∧ job.fresh = true) ∨
    ∃ a attempt, s.attempts a = some attempt ∧ attempt.fresh = true

/-- While a job is fresh no flag is set, and no attempt at it is being cancelled. -/
structure JobState.Unflagged (s : JobState A) : Prop where
  flag : s.AnyFresh → s.flagged = false
  cancelling : ∀ a attempt, s.attempts a = some attempt → attempt.stage = .cancelling →
    attempt.fresh = false

omit [DecidableEq A] in
theorem unflagged_of_not_fresh (h : ¬t.AnyFresh) : t.Unflagged where
  flag := fun hfresh => absurd hfresh h
  cancelling := by
    intro a attempt hattempt _
    rw [← Bool.not_eq_true]
    intro hfresh
    exact h (Or.inr ⟨a, attempt, hattempt, hfresh⟩)

omit [DecidableEq A] in
theorem JobState.Unflagged.follow (h : s.Unflagged) (hfresh : t.AnyFresh → s.AnyFresh)
    (hflag : s.flagged = false → t.flagged = false)
    (hcancelling : ∀ a attempt, t.attempts a = some attempt → attempt.stage = .cancelling →
      attempt.fresh = false) : t.Unflagged where
  flag := fun hlater => hflag (h.flag (hfresh hlater))
  cancelling := hcancelling

theorem unflagged_disturb (h : s.Unflagged) (except : Option A) :
    (s.disturb except).Unflagged := by
  refine h.follow ?_ id ?_
  · rintro (hrq | ⟨a, attempt, hattempt, hfresh⟩)
    · exact Or.inl hrq
    · obtain ⟨old, hold, -, hsame, -⟩ := disturb_attempts hattempt
      exact Or.inr ⟨a, old, hold, hsame ▸ hfresh⟩
  · intro a attempt hattempt hstage
    obtain ⟨old, hold, hold_stage, hsame, -⟩ := disturb_attempts hattempt
    rw [hsame]
    exact h.cancelling a old hold (hold_stage ▸ hstage)

/-- An attempt that goes on or is over makes no job fresh. -/
theorem anyFresh_put (hattempt : s.attempts a = some attempt) (hbeside : t.Beside s)
    {next : Option Attempt} (hnext : ∀ later, next = some later → later.fresh = attempt.fresh)
    (h : (t.put a next).AnyFresh) : s.AnyFresh := by
  rcases h with hrq | ⟨b, other, hother, hfresh⟩
  · exact Or.inl (hbeside.fresh hrq)
  · change Function.update t.attempts a next b = _ at hother
    by_cases heq : b = a
    · rw [heq, Function.update_self] at hother
      rw [hnext other hother] at hfresh
      exact Or.inr ⟨a, attempt, hattempt, hfresh⟩
    · rw [Function.update_of_ne heq, hbeside.attempts] at hother
      exact Or.inr ⟨b, other, hother, hfresh⟩

theorem unflagged_put (h : s.Unflagged) (hattempt : s.attempts a = some attempt)
    (hbeside : t.Beside s) {next : Option Attempt}
    (hnext : ∀ later, next = some later → later.fresh = attempt.fresh ∧ later.stage ≠ .cancelling) :
    (t.put a next).Unflagged := by
  refine h.follow (anyFresh_put hattempt hbeside fun later hlater => (hnext later hlater).1) ?_ ?_
  · intro hflag
    exact hbeside.flagged.trans hflag
  · intro b other hother hstage
    change Function.update t.attempts a next b = _ at hother
    by_cases heq : b = a
    · rw [heq, Function.update_self] at hother
      exact absurd hstage (hnext other hother).2
    · rw [Function.update_of_ne heq, hbeside.attempts] at hother
      exact h.cancelling b other hother hstage

theorem unflagged_work (h : s.Unflagged) (hattempt : s.attempts a = some attempt)
    (input : WorkInput) : (s.work a attempt input).Unflagged := by
  rcases worked hattempt input with heq | ⟨hflag, heq⟩ | ⟨u, stage, hbeside, hstage, -, heq⟩ |
    ⟨u, hbeside, heq⟩
  · rw [heq]
    exact h
  · rw [heq]
    apply unflagged_of_not_fresh
    intro hfresh
    have hclear : s.AnyFresh := by
      rcases hfresh with hrq | ⟨b, other, hother, hfresh⟩
      · exact Or.inl hrq
      · change Function.update s.attempts a _ b = _ at hother
        by_cases heq : b = a
        · rw [heq, Function.update_self] at hother
          cases hother
          exact Or.inr ⟨a, attempt, hattempt, hfresh⟩
        · rw [Function.update_of_ne heq] at hother
          exact Or.inr ⟨b, other, hother, hfresh⟩
    rw [h.flag hclear] at hflag
    cases hflag
  · rw [heq]
    apply unflagged_put h hattempt hbeside
    intro later hlater
    cases hlater
    exact ⟨rfl, hstage⟩
  · rw [heq]
    apply unflagged_put h hattempt hbeside
    intro later hlater
    cases hlater

omit [DecidableEq A] in
theorem unflagged_enqueue (h : s.Unflagged) {call : EnqueueCall}
    (hunflagged : s.Enqueues call → s.flagged = false) : (s.enqueue call).Unflagged := by
  have hcreated : ∀ {t : JobState A}, t.attempts = s.attempts → t.flagged = s.flagged →
      t.rq = call.rqJob → (call.queueFails = false → s.flagged = false) → t.Unflagged := by
    intro t hattempts hflagged hrq hclear
    refine ⟨?_, ?_⟩
    · rintro (⟨job, hjob, -⟩ | ⟨a, attempt, hattempt, hfresh⟩)
      · rw [hrq, EnqueueCall.rqJob] at hjob
        cases hfails : call.queueFails with
        | true =>
            rw [hfails] at hjob
            cases hjob
        | false => exact hflagged.trans (hclear hfails)
      · rw [hattempts] at hattempt
        exact hflagged.trans (h.flag (Or.inr ⟨a, attempt, hattempt, hfresh⟩))
    · intro a attempt hattempt hstage
      rw [hattempts] at hattempt
      exact h.cancelling a attempt hattempt hstage
  unfold JobState.enqueue
  split
  · exact h
  · exact h
  · exact ⟨h.flag, h.cancelling⟩
  · rename_i healCount hpath
    exact hcreated rfl rfl rfl fun hfails => hunflagged ⟨Or.inr ⟨healCount, hpath⟩, hfails⟩
  · rename_i hpath
    exact hcreated rfl rfl rfl fun hfails => hunflagged ⟨Or.inl hpath, hfails⟩

omit [DecidableEq A] in
/-- A cancellation makes no job fresh. -/
theorem not_fresh_cancel (s : JobState A) (jobTimeout : Option ℕ) :
    ¬(s.markCancelled.cancelJob jobTimeout).1.AnyFresh := by
  have hmarked : ∀ a attempt, s.markCancelled.attempts a = some attempt →
      attempt.fresh = false := by
    intro a attempt hattempt
    obtain ⟨old, -, rfl⟩ := Option.map_eq_some_iff.mp hattempt
    rfl
  have hrq : ∀ job, s.markCancelled.rq = some job → job.fresh = false := by
    intro job hjob
    obtain ⟨old, -, rfl⟩ := Option.map_eq_some_iff.mp hjob
    rfl
  have hstill : ∀ job, (s.markCancelled.cancelJob jobTimeout).1.rq = some job →
      job.fresh = false := by
    intro job hjob
    unfold JobState.cancelJob at hjob
    cases hsome : s.markCancelled.rq with
    | none =>
        rw [hsome] at hjob
        dsimp only at hjob
        split at hjob
        · exact hrq job hjob
        · split at hjob
          · cases hjob
          · exact hrq job hjob
          · exact hrq job hjob
    | some old =>
        rw [hsome] at hjob
        dsimp only at hjob
        split at hjob
        · cases hjob
          exact hrq old hsome
        · exact hrq job hjob
        · exact hrq job hjob
  rintro (⟨job, hjob, hfresh⟩ | ⟨a, attempt, hattempt, hfresh⟩)
  · rw [hstill job hjob] at hfresh
    cases hfresh
  · rw [attempts_cancelJob] at hattempt
    rw [hmarked a attempt hattempt] at hfresh
    cases hfresh

theorem unflagged_step (h : s.Unflagged) {event : JobEvent A} (hclear : EnqueuedUnflagged s event) :
    (jobStep s event).Unflagged := by
  cases event with
  | wait seconds =>
      refine h.follow id ?_ h.cancelling
      intro hflag
      change s.cancelFlag.any (fun expiry => s.now + (seconds : ℤ) < expiry) = false
      cases hkey : s.cancelFlag with
      | none => rfl
      | some expiry =>
          unfold JobState.flagged at hflag
          rw [hkey] at hflag
          simp only [Option.any_some, decide_eq_false_iff_not] at hflag ⊢
          omega
  | requeue =>
      refine h.follow ?_ id h.cancelling
      rintro (⟨job, hjob, hfresh⟩ | hattempt)
      · obtain ⟨old, hold, rfl⟩ := Option.map_eq_some_iff.mp hjob
        refine Or.inl ⟨old, hold, ?_⟩
        split at hfresh
        · exact hfresh
        · exact hfresh
      · exact Or.inr hattempt
  | evict =>
      refine h.follow ?_ id h.cancelling
      rintro (⟨job, hjob, -⟩ | hattempt)
      · cases hjob
      · exact Or.inr hattempt
  | enqueue call => exact unflagged_enqueue (unflagged_disturb h none) hclear
  | cancel jobTimeout => exact unflagged_of_not_fresh (not_fresh_cancel _ jobTimeout)
  | watchdog =>
      change (s.disturb none).watchdog.Unflagged
      have hdisturbed := unflagged_disturb h none
      unfold JobState.watchdog
      split
      · exact hdisturbed
      · dsimp only
        split
        · exact ⟨hdisturbed.flag, hdisturbed.cancelling⟩
        · exact hdisturbed
  | start a =>
      unfold jobStep JobState.startAttempt
      dsimp only
      split
      · rename_i job hjob hfree
        split
        · have hdisturbed := unflagged_disturb h none
          refine h.follow ?_ id ?_
          · rintro (⟨later, hlater, hfresh⟩ | ⟨b, attempt, hattempt, hfresh⟩)
            · cases hlater
              exact Or.inl ⟨job, hjob, hfresh⟩
            · change Function.update _ a _ b = _ at hattempt
              by_cases heq : b = a
              · rw [heq, Function.update_self] at hattempt
                cases hattempt
                exact Or.inl ⟨job, hjob, hfresh⟩
              · rw [Function.update_of_ne heq] at hattempt
                have hdisturb : (s.disturb none).attempts b = some attempt := hattempt
                obtain ⟨old, hold, -, hsame, -⟩ := disturb_attempts hdisturb
                exact Or.inr ⟨b, old, hold, hsame ▸ hfresh⟩
          · intro b attempt hattempt hstage
            change Function.update _ a _ b = _ at hattempt
            by_cases heq : b = a
            · rw [heq, Function.update_self] at hattempt
              cases hattempt
              cases hstage
            · rw [Function.update_of_ne heq] at hattempt
              exact hdisturbed.cancelling b attempt hattempt hstage
        · exact h
      · exact h
  | work a input =>
      unfold jobStep
      dsimp only
      cases hattempt : s.attempts a with
      | none => exact h
      | some attempt =>
          exact unflagged_work (unflagged_disturb h (some a))
            ((disturb_self s a).trans hattempt) input
  | lose a =>
      unfold jobStep
      dsimp only
      cases hattempt : s.attempts a with
      | none => exact h
      | some attempt =>
          have hself : (s.disturb none).attempts a =
              some { attempt with undisturbed := false } := by
            rw [disturb_none, hattempt]
            rfl
          apply unflagged_put (unflagged_disturb h none) hself (beside_rqRaised _)
          intro later hlater
          cases hlater

omit [DecidableEq A] in
theorem cancelledOnRequest (h : s.Unflagged) (event : JobEvent A) :
    CancelledOnRequest s event := by
  cases event with
  | work a input =>
      cases input with
      | proceed => exact fun attempt hattempt hstage => h.cancelling a attempt hattempt hstage
      | _ => trivial
  | _ => trivial

/-- The run in which a job is enqueued and its first attempt makes its first check. -/
def enqueueAndCheck (call : EnqueueCall) (a : A) : List (JobEvent A) :=
  [.enqueue call, .start a, .work a .proceed, .work a .proceed]

omit [DecidableEq A] in
theorem enqueue_created {call : EnqueueCall} (hcall : s.Enqueues call) :
    (s.enqueue call).rq = some ⟨.queued, call.jobTimeout, maxRetries, true⟩ ∧
      (s.enqueue call).flagged = s.flagged := by
  obtain ⟨hpath, hfails⟩ := hcall
  have hjob : call.rqJob = some ⟨.queued, call.jobTimeout, maxRetries, true⟩ := by
    rw [EnqueueCall.rqJob, hfails]
    rfl
  unfold JobState.enqueue
  rcases hpath with hpath | ⟨healCount, hpath⟩
  · rw [hpath]
    exact ⟨hjob, rfl⟩
  · rw [hpath]
    exact ⟨hjob, rfl⟩

theorem start_attempts {job : RqJob} (hjob : s.rq = some job) (hqueued : job.status = .queued)
    (hfree : s.attempts a = none) :
    (jobStep s (.start a)).flagged = s.flagged ∧
      ∃ attempt, (jobStep s (.start a)).attempts a = some attempt ∧ attempt.stage = .init ∧
        attempt.fresh = job.fresh := by
  unfold jobStep JobState.startAttempt
  dsimp only
  rw [hjob, hfree]
  dsimp only
  rw [if_pos hqueued]
  refine ⟨rfl, _, Function.update_self _ _ _, rfl, rfl⟩

theorem check_attempts (hattempt : s.attempts a = some attempt) (hstage : attempt.stage = .init)
    (hflag : s.flagged = true) :
    (jobStep s (.work a .proceed)).attempts a = some { attempt with stage := .cancelling } := by
  have hdisturbed : (s.disturb (some a)).flagged = true := hflag
  rw [jobStep_work hattempt, JobState.work]
  dsimp only
  rw [hstage]
  dsimp only
  unfold JobState.updateProgress JobState.checked
  rw [if_pos hdisturbed]
  exact Function.update_self _ _ _

/-- A job that is enqueued while a flag is set ends as cancelled at its first check. -/
theorem cancelled_by_old_flag {call : EnqueueCall} (hcall : s.Enqueues call)
    (hflag : s.flagged = true) (hfree : s.attempts a = none) :
    ¬EachStep jobStep CancelledOnRequest s (enqueueAndCheck call a) := by
  have hcreated : (s.disturb none).Enqueues call := hcall
  obtain ⟨hjob, hflagged⟩ := enqueue_created hcreated
  have hstillFree : (jobStep s (.enqueue call)).attempts a = none := by
    change ((s.disturb none).enqueue call).attempts a = none
    rw [attempts_enqueue, disturb_none, hfree]
    rfl
  obtain ⟨hstarted, attempt, hattempt, hstage, hfresh⟩ := start_attempts hjob rfl hstillFree
  have hchecked := check_attempts hattempt hstage (hstarted.trans (hflagged.trans hflag))
  rintro ⟨-, -, -, hrequested, -⟩
  have hstale := hrequested _ hchecked rfl
  rw [hfresh] at hstale
  cases hstale

/-- In every run an undisturbed attempt that returns leaves the row completed. Where no job is
enqueued while a flag is set, none ends as cancelled unless a cancellation is called after it was
enqueued; where one is, its first attempt does. -/
theorem job_status_is_true (events : List (JobEvent A)) :
    EachStep jobStep ReturnsCompleted JobState.empty events ∧
      (EachStep jobStep EnqueuedUnflagged JobState.empty events →
        EachStep jobStep CancelledOnRequest JobState.empty events) ∧
      ∀ (s : JobState A) (call : EnqueueCall) (a : A), s.Enqueues call → s.flagged = true →
        s.attempts a = none →
          ¬EachStep jobStep CancelledOnRequest s (enqueueAndCheck call a) := by
  have hsound : (JobState.empty : JobState A).Sound := by
    intro a attempt hattempt
    cases hattempt
  have hunflagged : (JobState.empty : JobState A).Unflagged := by
    apply unflagged_of_not_fresh
    rintro (⟨job, hjob, -⟩ | ⟨a, attempt, hattempt, -⟩)
    · cases hjob
    · cases hattempt
  refine ⟨?_, ?_, fun s call a => cancelled_by_old_flag⟩
  · have hany : EachStep jobStep (fun _ _ => True) (JobState.empty : JobState A) events :=
      eachStep_of_forall (fun _ _ => trivial) _
    exact (everyState_and_eachStep (P := JobState.Sound) (D := ReturnsCompleted)
      (fun s event h _ => ⟨sound_step h event, returnsCompleted h event⟩) hsound hany).2
  · intro hclear
    exact (everyState_and_eachStep (P := JobState.Unflagged) (D := CancelledOnRequest)
      (fun s event h hnow => ⟨unflagged_step h hnow, cancelledOnRequest h event⟩) hunflagged
      hclear).2

def hourJob (isRerun : Bool) : EnqueueCall := ⟨none, isRerun, false⟩

/-- The first attempt raises before it checks anything, the second goes through. -/
def retriedRun : List (JobEvent Unit) :=
  [.enqueue (hourJob false), .start (), .work () .raise, .work () .proceed, .requeue, .start ()] ++
    List.replicate 11 (.work () .proceed)

theorem job_status_is_true_retried :
    EachStep jobStep ReturnsCompleted .empty retriedRun ∧
      EachStep jobStep CancelledOnRequest .empty retriedRun ∧
      ¬EachStep jobStep CancelledOnRequest
        (JobState.setFlag (.empty : JobState Unit) 3600) (enqueueAndCheck (hourJob true) ()) := by
  have h := job_status_is_true retriedRun
  refine ⟨h.1, h.2.1 ?_, h.2.2 _ _ () ⟨Or.inl (by decide), rfl⟩ (by decide) rfl⟩
  exact ⟨fun _ => rfl, by simp [EachStep, EnqueuedUnflagged, List.replicate]⟩

/-- A queued job is cancelled, and run again within the hour. -/
def rerunAfterCancel : List (JobEvent Unit) :=
  [.enqueue (hourJob false), .cancel none] ++ enqueueAndCheck (hourJob true) ()

theorem rerun_is_cancelled_by_old_flag :
    ¬(EachStep jobStep ReturnsCompleted .empty rerunAfterCancel ∧
      EachStep jobStep CancelledOnRequest .empty rerunAfterCancel) := by
  rintro ⟨-, -, -, -, -, -, hrequested, -⟩
  have hattempt : (run jobStep .empty (rerunAfterCancel.take 5)).attempts () =
      some ⟨.cancelling, 3600, true, true⟩ := by
    decide +kernel
  cases hrequested _ hattempt rfl

end TradingPlatform.Backtest
