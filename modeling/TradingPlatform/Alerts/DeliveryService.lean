import TradingPlatform.Base.Run
import TradingPlatform.Base.Text

/-! # The delivery of an alert

The row of a delivery, the retry jobs that wait for it and the worker that has
claimed it. A turn is one pass through the loop of `execute`; what the rate
limiter, the channel and the scheduler answer in it is its input. Sleeping
changes nothing, so delays are computed and not waited for.
-/

namespace TradingPlatform.Alerts

open Base

abbrev Timestamp := ℤ

inductive DeliveryStatus where
  | pending | inProgress | delivered | failed | poison
  deriving DecidableEq, Repr

/-- The row of the delivery; the check of the table bounds its attempts. -/
structure AlertDelivery where
  dedupKey : String
  status : DeliveryStatus
  attempts : ℕ
  lastAttemptAt : Option Timestamp
  deliveredAt : Option Timestamp
  poisonAt : Option Timestamp
  errorMessage : Option String
  attempts_le : attempts ≤ 3

structure DeliveryResult where
  success : Bool
  messageId : Option String := none
  error : Option String := none
  retryable : Bool := true
  metadata : List (String × String) := []

def maxAttempts : ℕ := 3
def longRetryThreshold : ℤ := 5
def stuckTaskThreshold : ℤ := 15 * 60
def maxRateLimitWaits : ℕ := 3
def rateLimitRetryDelay : ℤ := 60

/-! ## Writes to the row -/

/-- The claim: a pending delivery, or one whose worker has been silent for too long. -/
def claimDelivery (row : AlertDelivery) (now : Timestamp) : Option AlertDelivery :=
  let silent := row.lastAttemptAt.any (· < now - stuckTaskThreshold)
  if row.status = .pending ∨ (row.status = .inProgress ∧ silent = true) then
    some { row with status := .inProgress, lastAttemptAt := some now }
  else none

/-- Nothing is written, and an error raised, where the check of the table fails. -/
def recordAttempt (row : AlertDelivery) (attempts : ℕ) (status : DeliveryStatus)
    (error : Option String) (delivered : Bool) (now : Timestamp) : Option AlertDelivery :=
  if h : attempts ≤ 3 then
    some { row with
      attempts
      status
      lastAttemptAt := some now
      deliveredAt := row.deliveredAt.or (if delivered then some now else none)
      errorMessage := error
      attempts_le := h }
  else none

def recordAttemptFailure (row : AlertDelivery) (attempts : ℕ) (error : Option String)
    (status : DeliveryStatus) (now : Timestamp) : Option AlertDelivery :=
  recordAttempt row attempts status error false now

/-- `PoisonQueue.add` -/
def addPoison (row : AlertDelivery) (error : String) (now : Timestamp) : AlertDelivery :=
  { row with
    status := .poison
    poisonAt := some now
    errorMessage := some error
    lastAttemptAt := some now }

/-! ## Answers -/

def isTransientError (result : DeliveryResult) : Bool :=
  if result.success then false else result.retryable

/-- The result of a failed send asks for a delay that is not waited for in memory. -/
def shouldReenqueue (result : DeliveryResult) : Bool × ℤ :=
  match (result.metadata.lookup "retry_after").bind parseInt with
  | some seconds => if longRetryThreshold < seconds then (true, seconds) else (false, 0)
  | none => (false, 0)

def rateLimitDelay (result : DeliveryResult) : ℤ :=
  match (result.metadata.lookup "retry_after").bind parseInt with
  | some seconds => if seconds ≤ 0 then rateLimitRetryDelay else seconds
  | none => rateLimitRetryDelay

/-- What the limiter answers to the three questions, as far as they are asked. -/
inductive LimitAnswer where
  | raised
  | allowed (channel recipient global : Bool)
  deriving DecidableEq, Repr

def extractRecipientHash (row : AlertDelivery) : Option String :=
  (row.dedupKey.splitOn ":")[2]?

/-- An empty hash counts as none. -/
def hasRecipientHash (row : AlertDelivery) : Bool :=
  (extractRecipientHash row).any (· ≠ "")

def limited (error limit : String) : DeliveryResult :=
  { success := false, error := some error, metadata := [("limit", limit)] }

def checkRateLimits (rateLimiter : Bool) (row : AlertDelivery) :
    LimitAnswer → Option DeliveryResult
  | .raised =>
      if rateLimiter then some (limited "Rate limiter error" "rate_limiter_exception") else none
  | .allowed channel recipient global =>
      if rateLimiter then
        if !channel then some (limited "channel_rate_limited" "channel")
        else if hasRecipientHash row && !recipient then
          some (limited "recipient_rate_limited" "recipient")
        else if !global then some (limited "global_rate_limited" "global")
        else none
      else none

inductive SendAnswer where
  | raised (message : String)
  | answered (result : DeliveryResult)

def SendAnswer.result : SendAnswer → DeliveryResult
  | .raised message =>
      { success := false, error := some message, metadata := [("raised_exception", "true")] }
  | .answered result => result

/-- The text that poisons a delivery; an empty error counts as none. -/
def errorText (error : Option String) : String :=
  match error with
  | some text => if text = "" then "delivery failed" else text
  | none => "delivery failed"

/-! ## The chain of jobs -/

structure RetryJob where
  delay : ℤ
  attempt : ℕ
  deriving DecidableEq, Repr

/-- What the worker was built with. -/
structure DeliveryExecutor where
  rateLimiter : Bool
  retryScheduler : Bool
  /-- Whether the channel of the delivery has a handler. -/
  handlesChannel : Bool

/-- The loop variables of `execute`. -/
structure Worker where
  attempt : ℕ
  currentAttempt : ℕ
  lastResult : Option DeliveryResult
  rateLimitWaits : ℕ

/-- The row, the retry jobs in the queue and the worker. The last four fields count calls. -/
structure DeliveryChain where
  row : AlertDelivery
  jobs : List RetryJob
  worker : Option Worker
  sends : ℕ
  successes : ℕ
  /-- Sends after a successful one. -/
  resends : ℕ
  decrements : ℕ

structure Turn where
  limits : LimitAnswer
  send : SendAnswer
  /-- Whether the scheduler takes the job; it raises otherwise. -/
  scheduled : Bool
  now : Timestamp

namespace DeliveryChain

/-- `execute` returns or raises; the slot in the queue is given back unless it is handed on. -/
def leave (s : DeliveryChain) (handoff : Bool) : DeliveryChain :=
  { s with worker := none, decrements := if handoff then s.decrements else s.decrements + 1 }

/-- The write, and what follows unless it raises. -/
def recording (s : DeliveryChain) (attempts : ℕ) (status : DeliveryStatus)
    (error : Option String) (delivered : Bool) (now : Timestamp)
    (next : DeliveryChain → DeliveryChain) : DeliveryChain :=
  match recordAttempt s.row attempts status error delivered now with
  | none => s.leave false
  | some row => next { s with row }

def poison (s : DeliveryChain) (error : String) (now : Timestamp) : DeliveryChain :=
  ({ s with row := addPoison s.row error now }).leave false

/-- The delivery has failed for good. -/
def fail (s : DeliveryChain) (attempts : ℕ) (error : Option String) (now : Timestamp) :
    DeliveryChain :=
  s.recording attempts .failed error false now fun s =>
    s.poison (errorText error) now

/-- The loop goes on. -/
def goOn (s : DeliveryChain) (w : Worker) : DeliveryChain := { s with worker := some w }

def enqueue (s : DeliveryChain) (delay : ℤ) (attempt : ℕ) : DeliveryChain :=
  { s with jobs := s.jobs ++ [⟨delay, attempt⟩] }

/-- A turn that the limiter stops, with a scheduler to hand the delivery to. -/
def rescheduleLimited (s : DeliveryChain) (w : Worker) (result : DeliveryResult) (t : Turn) :
    DeliveryChain :=
  let attempt := w.currentAttempt + 1
  if maxAttempts ≤ attempt then s.fail attempt (some "rate_limit_retries_exhausted") t.now
  else
    s.recording attempt .pending result.error false t.now fun s =>
      if t.scheduled then (s.enqueue (rateLimitDelay result) attempt).leave true
      else
        let failure : DeliveryResult :=
          { success := false
            error := some "scheduler_enqueue_failed"
            metadata := [("limit", (result.metadata.lookup "limit").getD "unknown"),
              ("scheduler_failed", "true")] }
        if maxAttempts ≤ attempt then s.fail attempt failure.error t.now
        else
          s.recording attempt .inProgress failure.error false t.now fun s =>
            s.goOn { w with currentAttempt := attempt, lastResult := some failure }

/-- A turn that the limiter stops, without a scheduler; the wait is no attempt. -/
def waitLimited (s : DeliveryChain) (w : Worker) (result : DeliveryResult) (t : Turn) :
    DeliveryChain :=
  let waits := w.rateLimitWaits + 1
  if maxRateLimitWaits ≤ waits then
    s.fail (w.currentAttempt + 1) (some "rate_limit_wait_exhausted") t.now
  else
    s.recording w.currentAttempt .inProgress result.error false t.now fun s =>
      s.goOn { w with lastResult := some result, rateLimitWaits := waits }

def countSend (s : DeliveryChain) (result : DeliveryResult) : DeliveryChain :=
  { s with
    sends := s.sends + 1
    resends := if 0 < s.successes then s.resends + 1 else s.resends
    successes := if result.success then s.successes + 1 else s.successes }

/-- A turn that sends. -/
def attemptSend (s : DeliveryChain) (e : DeliveryExecutor) (w : Worker) (t : Turn) :
    DeliveryChain :=
  let result := t.send.result
  let attempt := w.currentAttempt + 1
  let s := s.countSend result
  if result.success then
    s.recording attempt .delivered none true t.now fun s => s.leave false
  else if maxAttempts ≤ attempt ∨ isTransientError result = false then
    s.fail attempt result.error t.now
  else
    let later := shouldReenqueue result
    let status := if later.1 && e.retryScheduler then .pending else .inProgress
    s.recording attempt status result.error false t.now fun s =>
      if later.1 && e.retryScheduler then
        if t.scheduled then (s.enqueue later.2 attempt).leave true
        -- The error of the scheduler is raised again, with the row left as it is.
        else s.leave false
      else s.goOn { w with currentAttempt := attempt, lastResult := some result }

/-- The end of the loop. -/
def exhaust (s : DeliveryChain) (w : Worker) (now : Timestamp) : DeliveryChain :=
  match w.lastResult with
  | some result => s.poison (errorText result.error) now
  | none =>
      s.recording (max w.currentAttempt maxAttempts) .failed (some "Attempt limit reached") false
        now fun s => s.poison "attempt_limit_reached" now

/-- One pass through the loop. -/
def turn (s : DeliveryChain) (e : DeliveryExecutor) (w : Worker) (t : Turn) : DeliveryChain :=
  if maxAttempts ≤ w.currentAttempt then s.exhaust w t.now
  else
    match checkRateLimits e.rateLimiter s.row t.limits with
    | some result =>
        if e.retryScheduler then s.rescheduleLimited w result t else s.waitLimited w result t
    | none =>
        if e.handlesChannel then s.attemptSend e w t
        else s.fail (w.currentAttempt + 1) (some "Unknown channel type") t.now

/-- A retry job starts. One that cannot claim the row gives the slot back and is done. -/
def startJob (s : DeliveryChain) (now : Timestamp) : DeliveryChain :=
  match s.worker, s.jobs with
  | none, job :: jobs =>
      match claimDelivery s.row now with
      | some row =>
          { s with
            row
            jobs
            worker := some ⟨job.attempt, max job.attempt row.attempts, none, 0⟩ }
      | none => { s with jobs, decrements := s.decrements + 1 }
  | _, _ => s

end DeliveryChain

inductive DeliveryEvent where
  | startJob (now : Timestamp)
  | turn (t : Turn)

def deliveryStep (e : DeliveryExecutor) (s : DeliveryChain) : DeliveryEvent → DeliveryChain
  | .startJob now => s.startJob now
  | .turn t =>
      match s.worker with
      | none => s
      | some w => s.turn e w t

/-- The first job of the chain has just claimed the row. -/
def DeliveryChain.start (row : AlertDelivery) (attempt : ℕ) (now : Timestamp) : DeliveryChain where
  row := { row with status := .inProgress, lastAttemptAt := some now }
  jobs := []
  worker := some ⟨attempt, max attempt row.attempts, none, 0⟩
  sends := 0
  successes := 0
  resends := 0
  decrements := 0

end TradingPlatform.Alerts
