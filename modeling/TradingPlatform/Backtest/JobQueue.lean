import Mathlib.Data.Nat.Basic
import Mathlib.Logic.Function.Basic
import Mathlib.Order.Defs.LinearOrder
import Mathlib.Tactic.TypeStar

/-! # The jobs of the backtests

One job: its row in the database, the job of the queue under the same id, its keys in
Redis, and the attempts that workers make at it. An attempt goes on by one write of the
status or one check for cancellation at a time; the calls of the queue are one step each.
-/

namespace TradingPlatform.Backtest

variable {A : Type*}

inductive JobStatus where
  | pending | running | completed | failed | cancelled
  deriving DecidableEq, Repr

/-- `TERMINAL_STATES` -/
def JobStatus.terminal : JobStatus → Bool
  | .completed | .failed | .cancelled => true
  | .pending | .running => false

/-- The columns of a job that are read or counted. -/
structure BacktestJob where
  status : JobStatus
  jobTimeout : ℕ
  retryCount : ℕ
  progressPct : ℕ
  deriving DecidableEq, Repr

inductive RqStatus where
  | queued | started | scheduled | finished | failed | canceled
  deriving DecidableEq, Repr

/-- A job of the queue. It is fresh while no cancellation was called since it was enqueued. -/
structure RqJob where
  status : RqStatus
  timeout : ℕ
  retriesLeft : ℕ
  fresh : Bool
  deriving DecidableEq, Repr

/-- What a worker does next. -/
inductive WorkerStage where
  /-- `update_progress(5, "init_dependencies")` -/
  | init
  /-- `update_db_status("running")` -/
  | setup
  /-- `update_progress(0, "started")` -/
  | started
  /-- `update_progress(10, "loading_data")` -/
  | loading
  | computing
  /-- `update_progress(90, "saving_parquet")` -/
  | saving
  /-- `update_progress(95, "saving_db")` -/
  | savingDb
  /-- `_save_result_to_db` -/
  | recording
  /-- `update_progress(100, "completed")` -/
  | finishing
  /-- `update_db_status("completed")` -/
  | completing
  | returning
  /-- `JobCancelled` was raised. -/
  | cancelling
  /-- Another exception was raised. -/
  | failing
  deriving DecidableEq, Repr

/-- An attempt, with two marks: whether its job is fresh, and whether since its start nothing else
happened to the job. -/
structure Attempt where
  stage : WorkerStage
  jobTimeout : ℕ
  fresh : Bool
  undisturbed : Bool
  deriving DecidableEq, Repr

/-- The keys of Redis are kept with the time of their expiry. -/
structure JobState (A : Type*) where
  now : ℤ
  row : Option BacktestJob
  rq : Option RqJob
  cancelFlag : Option ℤ
  healCount : Option (ℕ × ℤ)
  heartbeat : Option (ℤ × ℤ)
  progress : Option (ℕ × ℤ)
  attempts : A → Option Attempt

def defaultTimeout : ℕ := 3600
def maxRetries : ℕ := 3

/-- `EXISTS` on the flag. -/
def JobState.flagged (s : JobState A) : Bool := s.cancelFlag.any fun expiry => s.now < expiry

/-- `GET`, of a key that is not expired. -/
def JobState.get {α : Type*} (s : JobState A) (key : Option (α × ℤ)) : Option α :=
  (key.filter fun entry => s.now < entry.2).map Prod.fst

/-! ## Enqueueing -/

structure EnqueueCall where
  timeout : Option ℕ
  isRerun : Bool
  /-- Whether `queue.enqueue` raises. -/
  queueFails : Bool

/-- `timeout or DEFAULT_TIMEOUT` -/
def EnqueueCall.jobTimeout (call : EnqueueCall) : ℕ :=
  match call.timeout with
  | some timeout => if timeout = 0 then defaultTimeout else timeout
  | none => defaultTimeout

inductive EnqueuePath where
  | refused
  | existing
  | tooManyHeals
  | heal (healCount : ℕ)
  | create
  deriving DecidableEq, Repr

/-- Which way `enqueue` goes. -/
def JobState.enqueuePath (s : JobState A) (call : EnqueueCall) : EnqueuePath :=
  if ¬(300 ≤ call.jobTimeout ∧ call.jobTimeout ≤ 14400) then .refused
  else
    let active := s.row.any fun row => row.status = .pending ∨ row.status = .running
    match active, s.rq with
    | true, some _ => .existing
    | true, none =>
        let healCount := (s.get s.healCount).getD 0
        if 3 ≤ healCount then .tooManyHeals else .heal healCount
    | false, some job =>
        if job.status = .queued ∨ job.status = .started then .existing else .create
    | false, none => .create

/-- `_create_db_job` -/
def createDbJob (row : Option BacktestJob) (jobTimeout : ℕ) (isRerun : Bool) : BacktestJob where
  status := .pending
  jobTimeout
  retryCount := if isRerun then 0 else (row.map BacktestJob.retryCount).getD 0
  progressPct := 0

/-- The job that `queue.enqueue` makes. -/
def EnqueueCall.rqJob (call : EnqueueCall) : Option RqJob :=
  if call.queueFails then none
  else some {
    status := .queued
    timeout := call.jobTimeout
    retriesLeft := maxRetries
    fresh := true }

/-- `enqueue` -/
def JobState.enqueue (s : JobState A) (call : EnqueueCall) : JobState A :=
  match s.enqueuePath call with
  | .refused | .existing => s
  | .tooManyHeals => { s with row := s.row.map fun row => { row with status := .failed } }
  | .heal healCount =>
      { s with
        healCount := some (healCount + 1, s.now + max call.jobTimeout 3600)
        row := some (createDbJob s.row call.jobTimeout false)
        rq := call.rqJob }
  | .create =>
      { s with
        row := some (createDbJob s.row call.jobTimeout call.isRerun)
        rq := call.rqJob }

/-! ## Cancellation and the watchdog -/

/-- The first of these that is not zero. -/
def firstTimeout (timeouts : List ℕ) : ℕ := (timeouts.find? (· ≠ 0)).getD 3600

def JobState.setFlag (s : JobState A) (ttl : ℕ) : JobState A :=
  { s with cancelFlag := some (s.now + ttl) }

/-- `cancel_job`, with what it returns. -/
def JobState.cancelJob (s : JobState A) (jobTimeout : Option ℕ) : JobState A × Bool :=
  match s.rq with
  | none =>
      match s.row with
      | none => (s, false)
      | some row =>
          match row.status with
          | .pending => ({ s with row := some { row with status := .cancelled } }, true)
          | .running =>
              let timeout := firstTimeout [jobTimeout.getD 0, row.jobTimeout, defaultTimeout]
              (s.setFlag (max timeout 3600), true)
          | _ => (s, false)
  | some job =>
      match job.status with
      | .queued =>
          let row := s.row.map fun row =>
            if row.status = .pending then { row with status := .cancelled } else row
          (JobState.setFlag { s with row, rq := some { job with status := .canceled } } 3600, true)
      | .started =>
          let rowTimeout := (s.row.map BacktestJob.jobTimeout).getD 0
          let timeout := firstTimeout [job.timeout, rowTimeout, jobTimeout.getD 0, defaultTimeout]
          (s.setFlag (max timeout 3600), true)
      | _ => (s, false)

/-- `watchdog_fail_lost_jobs`, for this job. -/
def JobState.watchdog (s : JobState A) : JobState A :=
  match s.row with
  | none => s
  | some row =>
      let threshold := s.now - max row.jobTimeout 300
      let alive := (s.get s.heartbeat).any fun beat => threshold ≤ beat
      if row.status = .running ∧ ¬alive then
        { s with row := some { row with status := .failed } }
      else s

/-! ## Workers -/

/-- `update_db_status` -/
def JobState.updateDbStatus (s : JobState A) (status : JobStatus) : JobState A :=
  { s with row := s.row.map fun row => if row.status.terminal then row else { row with status } }

/-- `_save_result_to_db` raises where there is no row. -/
def JobState.saveResult (s : JobState A) : Option (JobState A) :=
  s.row.map fun row => { s with row := some { row with status := .completed } }

/-- `update_progress`, after its checks. -/
def JobState.writeProgress (s : JobState A) (pct jobTimeout : ℕ) : JobState A :=
  let expiry := s.now + max jobTimeout 3600
  { s with
    progress := some (pct, expiry)
    heartbeat := some (s.now, expiry)
    cancelFlag := if s.flagged then some expiry else s.cancelFlag
    row := s.row.map fun row => if pct % 10 = 0 then { row with progressPct := pct } else row }

/-- `check_cancellation_periodic`, after its check. -/
def JobState.writeHeartbeat (s : JobState A) (jobTimeout : ℕ) : JobState A :=
  let expiry := s.now + max jobTimeout 3600
  { s with
    heartbeat := some (s.now, expiry)
    cancelFlag := if s.flagged then some expiry else s.cancelFlag }

/-- RQ is told that the attempt has returned. -/
def JobState.rqReturned (s : JobState A) : JobState A :=
  { s with rq := s.rq.map fun job =>
      if job.status = .started then { job with status := .finished } else job }

/-- RQ is told that the attempt has raised, after the hook `record_retry`. -/
def JobState.rqRaised (s : JobState A) : JobState A :=
  { s with
    row := s.row.map fun row => { row with retryCount := row.retryCount + 1 }
    rq := s.rq.map fun job =>
      if job.status = .started then
        if job.retriesLeft = 0 then { job with status := .failed }
        else { job with status := .scheduled, retriesLeft := job.retriesLeft - 1 }
      else job }

/-- How a worker goes on: it raises where it may, and while it computes it reports a percentage or
checks for a cancellation. -/
inductive WorkInput where
  | proceed
  | raise
  | report (pct : ℕ)
  | periodic
  deriving DecidableEq, Repr

variable [DecidableEq A]

def JobState.put (s : JobState A) (a : A) (attempt : Option Attempt) : JobState A :=
  { s with attempts := Function.update s.attempts a attempt }

def JobState.goto (s : JobState A) (a : A) (attempt : Attempt) (stage : WorkerStage) :
    JobState A := s.put a (some { attempt with stage })

/-- `check_cancellation`, which deletes the flag and raises, and what follows it otherwise. -/
def JobState.checked (s : JobState A) (a : A) (attempt : Attempt) (next : JobState A) :
    JobState A :=
  if s.flagged then JobState.goto { s with cancelFlag := none } a attempt .cancelling else next

/-- `update_progress`, and the stage after it. -/
def JobState.updateProgress (s : JobState A) (a : A) (attempt : Attempt) (pct : ℕ)
    (stage : WorkerStage) : JobState A :=
  s.checked a attempt ((s.writeProgress pct attempt.jobTimeout).goto a attempt stage)

/-- One step of `run_backtest`. -/
def JobState.work (s : JobState A) (a : A) (attempt : Attempt) : WorkInput → JobState A
  | .proceed =>
      match attempt.stage with
      | .init => s.updateProgress a attempt 5 .setup
      | .setup => (s.updateDbStatus .running).goto a attempt .started
      | .started => s.updateProgress a attempt 0 .loading
      | .loading => s.updateProgress a attempt 10 .computing
      | .computing => s.goto a attempt .saving
      | .saving => s.updateProgress a attempt 90 .savingDb
      | .savingDb => s.updateProgress a attempt 95 .recording
      | .recording =>
          match s.saveResult with
          | some saved => saved.goto a attempt .finishing
          | none => s.goto a attempt .failing
      | .finishing => s.updateProgress a attempt 100 .completing
      | .completing => (s.updateDbStatus .completed).goto a attempt .returning
      | .returning => s.rqReturned.put a none
      | .cancelling =>
          let pct := (s.get s.progress).getD 0
          (((s.updateDbStatus .cancelled).writeProgress pct 3600).rqReturned).put a none
      | .failing => ((s.updateDbStatus .failed).rqRaised).put a none
  | .raise =>
      match attempt.stage with
      | .returning | .cancelling | .failing => s
      | _ => s.goto a attempt .failing
  | .report pct =>
      match attempt.stage with
      | .computing => s.updateProgress a attempt pct .computing
      | _ => s
  | .periodic =>
      match attempt.stage with
      | .computing => s.checked a attempt (s.writeHeartbeat attempt.jobTimeout)
      | _ => s

/-! ## Steps -/

inductive JobEvent (A : Type*) where
  | wait (seconds : ℕ)
  | enqueue (call : EnqueueCall)
  | cancel (jobTimeout : Option ℕ)
  | watchdog
  /-- A worker takes the job from the queue. -/
  | start (a : A)
  | work (a : A) (input : WorkInput)
  /-- The attempt is over with nothing written, as when its worker is killed. -/
  | lose (a : A)
  /-- RQ puts a job that it retries back into the queue. -/
  | requeue
  /-- RQ forgets the job. -/
  | evict

/-- Something happens to the job besides this attempt. -/
def JobState.disturb (s : JobState A) (except : Option A) : JobState A :=
  { s with attempts := fun a =>
      if except = some a then s.attempts a
      else (s.attempts a).map fun attempt => { attempt with undisturbed := false } }

/-- No job is fresh once a cancellation is called. -/
def JobState.markCancelled (s : JobState A) : JobState A :=
  { s with
    rq := s.rq.map fun job => { job with fresh := false }
    attempts := fun a => (s.attempts a).map fun attempt => { attempt with fresh := false } }

/-- A worker starts with the job, with the timeout of the job or the default. -/
def JobState.startAttempt (s : JobState A) (a : A) : JobState A :=
  match s.rq, s.attempts a with
  | some job, none =>
      if job.status = .queued then
        JobState.put { s.disturb none with rq := some { job with status := .started } } a (some {
          stage := .init
          jobTimeout := if job.timeout = 0 then defaultTimeout else job.timeout
          fresh := job.fresh
          undisturbed := true })
      else s
  | _, _ => s

def jobStep (s : JobState A) : JobEvent A → JobState A
  | .wait seconds => { s with now := s.now + seconds }
  | .enqueue call => (s.disturb none).enqueue call
  | .cancel jobTimeout => (((s.disturb none).markCancelled).cancelJob jobTimeout).1
  | .watchdog => (s.disturb none).watchdog
  | .start a => s.startAttempt a
  | .work a input =>
      match s.attempts a with
      | none => s
      | some attempt => (s.disturb (some a)).work a attempt input
  | .lose a =>
      match s.attempts a with
      | none => s
      | some _ => ((s.disturb none).rqRaised).put a none
  | .requeue =>
      { s with rq := s.rq.map fun job =>
          if job.status = .scheduled then { job with status := .queued } else job }
  | .evict => { s with rq := none }

def JobState.empty : JobState A where
  now := 0
  row := none
  rq := none
  cancelFlag := none
  healCount := none
  heartbeat := none
  progress := none
  attempts := fun _ => none

end TradingPlatform.Backtest
