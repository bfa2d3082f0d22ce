import TradingPlatform.Base.Run
import TradingPlatform.Gateway.OrderSlicer
import TradingPlatform.Gateway.SubmitOrder

/-! # The slice scheduler

The jobs of one process, its zombie recovery, its cancellations and the updates
that come in from the broker, as one system over the orders table. A step issues
at most one statement; whatever lies between two statements of the source lies
between two steps, so every interleaving is a run. A job that ends on an
exception no handler catches, or with the process, is the event `raise`.
-/

namespace TradingPlatform.Gateway

open Base

/-! ## Jobs -/

/-- The arguments of a scheduled job. -/
structure SliceJob where
  parentOrderId : String
  sliceDetail : SliceDetail
  symbol : String
  side : Side
  orderType : OrderType
  limitPrice : Option Price
  stopPrice : Option Price
  timeInForce : TimeInForce
  deriving DecidableEq

def sliceJobId (parentOrderId : String) (sliceNum : Nat) : String :=
  parentOrderId ++ "_slice_" ++ toString sliceNum

def SliceJob.jobId (job : SliceJob) : String :=
  sliceJobId job.parentOrderId job.sliceDetail.sliceNum

def SliceJob.clientOrderId (job : SliceJob) : String := job.sliceDetail.clientOrderId

def SliceJob.orderRequest (job : SliceJob) : OrderRequest :=
  ⟨job.symbol, job.side, job.sliceDetail.qty, job.orderType, job.limitPrice, job.stopPrice,
    job.timeInForce, job.sliceDetail.qty_pos⟩

/-- Where a running job is; attempts count from one. -/
inductive SlicePhase where
  | attempting (attempt : Nat)
  | checked (attempt : Nat)
  | sent (attempt : Nat)
  | recording (brokerOrderId : Option String) (retryAttempt : Nat)
  | unconfirmed (brokerOrderId : Option String) (dbError : String)
  deriving DecidableEq

structure RunningJob where
  job : SliceJob
  phase : SlicePhase
  deriving DecidableEq

/-- `stop_after_attempt(3)`. -/
def maxAttempts : Nat := 3

def maxDbRetries : Nat := 3

/-- The update every local writer of a slice sends. -/
def localUpdate (status : OrderStatus) (brokerOrderId errorMessage : Option String)
    (now : Timestamp) : CasUpdate where
  status
  brokerUpdatedAt := now
  statusRank := statusRankFor status
  sourcePriority := sourcePriorityManual
  filledQty := none
  filledAvgPrice := none
  filledAt := none
  brokerOrderId
  brokerEventId := none
  errorMessage

/-! ## Recovery -/

structure MarketClockSnapshot where
  isOpen : Bool
  nextOpen : Option Timestamp
  deriving DecidableEq

structure SchedulerConfig where
  /-- There is an executor; without one a slice is only logged. -/
  executor : Bool
  misfireGraceSeconds : Int
  staleSliceExpirySeconds : Int

/-- A future time is never stale. -/
def isSliceStale (cfg : SchedulerConfig) (sliceOrder : OrderRow) (now : Timestamp) : Bool :=
  if cfg.staleSliceExpirySeconds ≤ 0 then false
  else
    match sliceOrder.scheduledTime with
    | none => false
    | some scheduledTime =>
        0 ≤ now - scheduledTime && cfg.staleSliceExpirySeconds * second < now - scheduledTime

structure RecoveryCounts where
  pending : Nat
  scheduled : Nat
  blocked : Nat
  failed : Nat
  canceled : Nat
  expired : Nat
  parentsExpired : Nat
  deriving DecidableEq

/-- A recovery between two of its statements: the slices it still has to look at, and what it
read about the parent of the first. -/
structure Recovery where
  now : Timestamp
  pending : List OrderRow
  parent : Option (Option OrderRow)
  canceledParents : List String
  expiredParents : List String
  counts : RecoveryCounts
  deriving DecidableEq

/-- What a recovery finds outside of the database; a trip comes with its reason. -/
structure RecoveryReadings where
  tripped : Option (Option String)
  marketClock : MarketClockSnapshot

inductive RecoveryAction where
  | mark (status : OrderStatus) (errorMessage : String)
  | cascade (parentOrderId : String)
  | skip
  | reschedule (parentOrderId : String) (sliceNum : Nat) (scheduledTime runTime : Timestamp)
  deriving DecidableEq

def allowedParentStatuses : List OrderStatus := [.accepted, .submitted, .submittedUnconfirmed]

def terminalParentStatuses : List OrderStatus := [.canceled, .expired, .failed]

def breakerMessage (reason : Option String) : String :=
  "Circuit breaker is tripped - reason: " ++ reason.getD "None"

/-- When a slice is to run, or why it cannot. -/
def recoveryRunTime (cfg : SchedulerConfig) (now scheduledTime : Timestamp)
    (marketClock : MarketClockSnapshot) : Except String Timestamp :=
  if now ≤ scheduledTime then .ok scheduledTime
  else if marketClock.isOpen then .ok now
  else
    match marketClock.nextOpen with
    | some nextOpen => .ok nextOpen
    | none =>
        if now - scheduledTime ≤ cfg.misfireGraceSeconds * second then
          .error "Market closed and next open unavailable during recovery"
        else .error "Slice missed grace period and next open unavailable"

/-- The body of the recovery's loop up to its statement. -/
def recoveryAction (cfg : SchedulerConfig) (now : Timestamp) (sliceOrder : OrderRow)
    (parent : Option OrderRow) (readings : RecoveryReadings) : RecoveryAction :=
  let parentOrderId := sliceOrder.parentOrderId.getD ""
  if parentOrderId = "" then .mark .failed "Pending slice missing parent_order_id"
  else
    match parent with
    | none => .mark .failed "Parent order missing for pending slice recovery"
    | some parent =>
        if parent.status ∈ terminalParentStatuses then .cascade parentOrderId
        else if parent.status ∉ allowedParentStatuses then .skip
        else if isSliceStale cfg sliceOrder now then
          .mark .expired
            s!"Slice expired: age exceeded {cfg.staleSliceExpirySeconds}s threshold"
        else
          match readings.tripped, sliceOrder.scheduledTime, sliceOrder.sliceNum with
          | some reason, _, _ => .mark .blockedCircuitBreaker (breakerMessage reason)
          | none, none, _ => .mark .failed "Pending slice missing scheduled_time"
          | none, some _, none => .mark .failed "Pending slice missing slice_num"
          | none, some scheduledTime, some sliceNum =>
              match recoveryRunTime cfg now scheduledTime readings.marketClock with
              | .error message => .mark .failed message
              | .ok runTime => .reschedule parentOrderId sliceNum scheduledTime runTime

/-- The job that takes a pending slice up again. -/
def recoveredJob (parentOrderId : String) (sliceNum : Nat) (runTime : Timestamp)
    (sliceOrder : OrderRow) : SliceJob where
  parentOrderId
  sliceDetail := ⟨sliceNum, sliceOrder.qty, runTime, sliceOrder.clientOrderId,
    sliceOrder.strategyId, sliceOrder.status, sliceOrder.zero_lt_qty⟩
  symbol := sliceOrder.symbol
  side := sliceOrder.side
  orderType := sliceOrder.orderType
  limitPrice := sliceOrder.limitPrice
  stopPrice := sliceOrder.stopPrice
  timeInForce := sliceOrder.timeInForce

/-! ## The system -/

/-- `canceling` holds the parents whose rows a cancellation has canceled and whose jobs it has
not listed yet, `removals` the listed jobs. -/
structure SliceSystem where
  db : Database
  jobs : Table String SliceJob SliceJob.jobId
  running : Table String RunningJob (·.job.jobId)
  recovery : Option Recovery
  canceling : List String
  removals : List String

def SliceSystem.stored (s : SliceSystem) (jobId : String) : Bool := (s.jobs.find? jobId).isSome

def SliceSystem.busy (s : SliceSystem) (jobId : String) : Bool := (s.running.find? jobId).isSome

inductive PreSubmissionCheck where
  | clear
  | killSwitchEngaged
  | breakerTripped (reason : Option String)
  /-- PostgreSQL or Redis failed, and the slice can still be marked. -/
  | infraError (message : String)
  deriving DecidableEq

/-- Instants are those of the database server, which the local clock is taken to agree with. -/
inductive SliceEvent where
  /-- One job of `schedule_slices`. -/
  | schedule (job : SliceJob)
  | fire (jobId : String)
  | misfire (jobId : String)
  | check (jobId : String) (result : PreSubmissionCheck) (now : Timestamp)
  /-- The pre-submit guard, with the call or the dry-run record that follows it. -/
  | preSubmit (jobId : String) (infraError : Option String) (now : Timestamp)
  | reply (jobId : String) (reply : BrokerReply) (now : Timestamp)
  | record (jobId : String) (dbError : Option String) (now : Timestamp)
  | raise (jobId : String)
  | recover (now : Timestamp)
  | recoverReadParent
  | recoverSlice (readings : RecoveryReadings) (now : Timestamp)
  | recoverParent (parentOrderId : String) (now : Timestamp)
  /-- The recovery returns or raises. -/
  | recoverEnd
  | cancelRemaining (parentOrderId : String) (now : Timestamp)
  | listJobs (parentOrderId : String)
  | removeJob (jobId : String)
  /-- A webhook or the reconciliation updates an order. -/
  | brokerUpdate (clientOrderId : String) (u : CasUpdate) (now : Timestamp)
  /-- The reconciliation recovers a modification of the order. -/
  | replaced (clientOrderId : String) (now : Timestamp)

inductive SliceStatement where
  | cas (clientOrderId : String) (u : CasUpdate)
  | cancelPending (parentOrderId : String)
  | setScheduledTime (clientOrderId : String) (scheduledTime : Timestamp)
  | setReplaced (clientOrderId : String)

def SliceStatement.exec (db : Database) (now : Timestamp) : SliceStatement → Database
  | .cas cid u => (updateOrderStatusCas db cid u now).1
  | .cancelPending parent => (cancelPendingSlices db parent now).1
  | .setScheduledTime cid time => (updateOrderScheduledTime db cid time now).1
  | .setReplaced cid => (updateOrderStatusSimpleWithConn db cid .replaced now).1

/-- What a step comes to: the state but for the table, the statement with its instant, the row
the guard read before a call of the broker, and the job that is over. -/
structure SliceStep where
  next : SliceSystem
  statement : Option (SliceStatement × Timestamp)
  sent : Option (Option OrderRow)
  gone : Option SliceJob

/-- A step that only changes what the process holds in memory. -/
def SliceStep.quiet (s : SliceSystem) : SliceStep := ⟨s, none, none, none⟩

/-- The job goes on in another phase, without a statement. -/
def SliceSystem.goOn (s : SliceSystem) (jobId : String) (phase : SlicePhase) : SliceSystem :=
  { s with running := s.running.update jobId (fun r => { r with phase }) fun _ => rfl }

/-- The job returns, after an update of its slice's row or without one. -/
def SliceSystem.finish (s : SliceSystem) (job : SliceJob) (u : Option CasUpdate)
    (now : Timestamp) : SliceStep where
  next := { s with running := s.running.delete job.jobId }
  statement := u.map fun u => (.cas job.clientOrderId u, now)
  sent := none
  gone := some job

/-- A stored job is dropped without having run. -/
def SliceSystem.drop (s : SliceSystem) (job : SliceJob) : SliceStep where
  next := { s with jobs := s.jobs.delete job.jobId }
  statement := none
  sent := none
  gone := some job

/-- `_execute_slice` up to the order request. -/
def checkSlice (s : SliceSystem) (job : SliceJob) (attempt : Nat) (result : PreSubmissionCheck)
    (now : Timestamp) : SliceStep :=
  match result with
  | .infraError message =>
      s.finish job (localUpdate .failed none (some
        ("Infrastructure failure during pre-submission checks: " ++ message)) now) now
  | result =>
      if (getOrderByClientId s.db job.clientOrderId).any (·.status = .canceled) then
        s.finish job none now
      else
        match result with
        | .killSwitchEngaged =>
            s.finish job (localUpdate .blockedKillSwitch none
              (some "Kill switch is engaged - all new orders blocked") now) now
        | .breakerTripped reason =>
            s.finish job (localUpdate .blockedCircuitBreaker none
              (some (breakerMessage reason)) now) now
        | _ => .quiet (s.goOn job.jobId (.checked attempt))

/-- The second guard, and what follows when it lets the slice pass. -/
def preSubmitSlice (cfg : SchedulerConfig) (s : SliceSystem) (job : SliceJob) (attempt : Nat)
    (infraError : Option String) (now : Timestamp) : SliceStep :=
  match infraError with
  | some message =>
      s.finish job (localUpdate .failed none
        (some ("Infrastructure failure at pre-submit guard: " ++ message)) now) now
  | none =>
      let currentOrder := getOrderByClientId s.db job.clientOrderId
      if currentOrder.any (·.status = .canceled) then s.finish job none now
      else if cfg.executor then
        { SliceStep.quiet (s.goOn job.jobId (.sent attempt)) with sent := some currentOrder }
      else s.finish job (localUpdate .dryRun none none now) now

/-- The handlers around the broker call, with the retries and the wrapper's last one. -/
def replySlice (s : SliceSystem) (job : SliceJob) (attempt : Nat) (reply : BrokerReply)
    (now : Timestamp) : SliceStep :=
  match reply with
  | .accepted brokerOrderId => .quiet (s.goOn job.jobId (.recording brokerOrderId 0))
  | .validationError e | .rejectionError e =>
      s.finish job (localUpdate .rejected none (some e) now) now
  | .connectionError e =>
      if attempt < maxAttempts then .quiet (s.goOn job.jobId (.attempting (attempt + 1)))
      else s.finish job (localUpdate .failed none (some ("Retry exhausted: " ++ e)) now) now
  | .valueError _ | .otherError => s.finish job none now

/-- One try to record the submission. -/
def recordSlice (s : SliceSystem) (job : SliceJob) (brokerOrderId : Option String)
    (retryAttempt : Nat) (dbError : Option String) (now : Timestamp) : SliceStep :=
  match dbError with
  | none => s.finish job (localUpdate .submitted brokerOrderId (some "") now) now
  | some e =>
      if retryAttempt + 1 < maxDbRetries then
        .quiet (s.goOn job.jobId (.recording brokerOrderId (retryAttempt + 1)))
      else .quiet (s.goOn job.jobId (.unconfirmed brokerOrderId e))

/-- The last resort after the tries. -/
def recordUnconfirmed (s : SliceSystem) (job : SliceJob) (brokerOrderId : Option String)
    (dbError : String) (failed : Option String) (now : Timestamp) : SliceStep :=
  match failed with
  | none =>
      s.finish job (localUpdate .submittedUnconfirmed brokerOrderId
        (some ("DB update failed after broker submission: " ++ dbError)) now) now
  | some _ => s.finish job none now

/-- A running job takes its next step; an event that its phase does not wait for is no step. -/
def advance (cfg : SchedulerConfig) (s : SliceSystem) (job : SliceJob) :
    SlicePhase → SliceEvent → SliceStep
  | .attempting attempt, .check _ result now => checkSlice s job attempt result now
  | .checked attempt, .preSubmit _ infraError now =>
      preSubmitSlice cfg s job attempt infraError now
  | .sent attempt, .reply _ reply now => replySlice s job attempt reply now
  | .recording brokerOrderId retryAttempt, .record _ dbError now =>
      recordSlice s job brokerOrderId retryAttempt dbError now
  | .unconfirmed brokerOrderId dbError, .record _ failed now =>
      recordUnconfirmed s job brokerOrderId dbError failed now
  | _, .raise _ => s.finish job none 0
  | _, _ => .quiet s

/-- APScheduler hands a due job to a worker, unless an instance of it is still running. -/
def fireJob (s : SliceSystem) (job : SliceJob) : SliceStep :=
  match s.running.insert ⟨job, .attempting 1⟩ with
  | some running => .quiet { s with jobs := s.jobs.delete job.jobId, running }
  | none => s.drop job

/-- The counters, and the parents whose slices expired. -/
def Recovery.marked (r : Recovery) (sliceOrder : OrderRow) : OrderStatus → Recovery
  | .failed => { r with counts.failed := r.counts.failed + 1 }
  | .expired =>
      { r with
        counts.expired := r.counts.expired + 1
        expiredParents := r.expiredParents.insert (sliceOrder.parentOrderId.getD "") }
  | _ => { r with counts.blocked := r.counts.blocked + 1 }

/-- The loop body of the recovery for the slice at the head of its list. -/
def recoverSlice (cfg : SchedulerConfig) (s : SliceSystem) (r : Recovery) (sliceOrder : OrderRow)
    (parent : Option OrderRow) (readings : RecoveryReadings) (now : Timestamp) : SliceStep :=
  match recoveryAction cfg r.now sliceOrder parent readings with
  | .mark status message =>
      { SliceStep.quiet { s with recovery := some (r.marked sliceOrder status) } with
        statement := some (.cas sliceOrder.clientOrderId
          (localUpdate status none (some message) r.now), now) }
  | .cascade parentOrderId =>
      if parentOrderId ∈ r.canceledParents then .quiet { s with recovery := some r }
      else
        { SliceStep.quiet { s with
            recovery := some { r with
              canceledParents := parentOrderId :: r.canceledParents
              counts.canceled := r.counts.canceled +
                (cancelPendingSlices s.db parentOrderId now).2 } } with
          statement := some (.cancelPending parentOrderId, now) }
  | .skip => .quiet { s with recovery := some r }
  | .reschedule parentOrderId sliceNum scheduledTime runTime =>
      let next :=
        -- A job that is stored already is left alone.
        match s.jobs.insert (recoveredJob parentOrderId sliceNum runTime sliceOrder) with
        | none => { s with recovery := some r }
        | some jobs =>
            { s with
              jobs
              recovery := some { r with counts.scheduled := r.counts.scheduled + 1 } }
      { SliceStep.quiet next with
        statement := if runTime = scheduledTime then none
          else some (.setScheduledTime sliceOrder.clientOrderId runTime, now) }

/-- A parent of expired slices expires when none of its slices is live. -/
def recoverParent (s : SliceSystem) (r : Recovery) (parentOrderId : String) (now : Timestamp) :
    SliceStep :=
  let r := { r with expiredParents := r.expiredParents.erase parentOrderId }
  if parentOrderId ∈ r.canceledParents ∨ countNonTerminalChildren s.db parentOrderId ≠ 0 then
    .quiet { s with recovery := some r }
  else
    { SliceStep.quiet { s with
        recovery := some { r with counts.parentsExpired := r.counts.parentsExpired + 1 } } with
      statement := some (.cas parentOrderId (localUpdate .expired none
        (some "Parent expired: all child slices are in terminal state") r.now), now) }

def startRecovery (db : Database) (now : Timestamp) : Recovery :=
  let pending := getPendingChildSlices db
  ⟨now, pending, none, [], [], ⟨pending.length, 0, 0, 0, 0, 0, 0⟩⟩

/-- One recovery runs at a time. -/
def recoveryStep (cfg : SchedulerConfig) (s : SliceSystem) : SliceEvent → SliceStep
  | .recover now =>
      if s.recovery.isSome then .quiet s
      else .quiet { s with recovery := some (startRecovery s.db now) }
  | .recoverReadParent =>
      match s.recovery with
      | some r =>
          .quiet { s with recovery := some { r with
            parent := r.pending.head?.map fun sliceOrder =>
              sliceOrder.parentOrderId.bind (getOrderByClientId s.db) } }
      | none => .quiet s
  | .recoverSlice readings now =>
      match s.recovery with
      | some r =>
          match r.pending, r.parent with
          | sliceOrder :: pending, some parent =>
              recoverSlice cfg s { r with pending, parent := none } sliceOrder parent readings now
          | _, _ => .quiet s
      | none => .quiet s
  | .recoverParent parentOrderId now =>
      match s.recovery with
      | some r =>
          if r.pending = [] ∧ parentOrderId ∈ r.expiredParents then
            recoverParent s r parentOrderId now
          else .quiet s
      | none => .quiet s
  | .recoverEnd => .quiet { s with recovery := none }
  | _ => .quiet s

def slicePrefix (parentOrderId jobId : String) : Bool :=
  (parentOrderId ++ "_slice_").toList.isPrefixOf jobId.toList

def takeStep (cfg : SchedulerConfig) (s : SliceSystem) (e : SliceEvent) : SliceStep :=
  match e with
  -- An id that is taken is a conflict.
  | .schedule job => .quiet { s with jobs := (s.jobs.insert job).getD s.jobs }
  | .fire jobId => (s.jobs.find? jobId).elim (.quiet s) (fireJob s)
  | .misfire jobId => (s.jobs.find? jobId).elim (.quiet s) s.drop
  | .check jobId _ _ | .preSubmit jobId _ _ | .reply jobId _ _ | .record jobId _ _
  | .raise jobId =>
      (s.running.find? jobId).elim (.quiet s) fun r => advance cfg s r.job r.phase e
  | .recover _ | .recoverReadParent | .recoverSlice _ _ | .recoverParent _ _ | .recoverEnd =>
      recoveryStep cfg s e
  | .cancelRemaining parentOrderId now =>
      { SliceStep.quiet { s with canceling := parentOrderId :: s.canceling } with
        statement := some (.cancelPending parentOrderId, now) }
  | .listJobs parentOrderId =>
      if parentOrderId ∈ s.canceling then
        .quiet { s with
          canceling := s.canceling.erase parentOrderId
          removals := s.removals ++
            (s.jobs.rows.map SliceJob.jobId).filter (slicePrefix parentOrderId) }
      else .quiet s
  | .removeJob jobId =>
      if jobId ∈ s.removals then
        -- A job that is not stored any more is a `JobLookupError`, which is ignored.
        let s := { s with removals := s.removals.erase jobId }
        (s.jobs.find? jobId).elim (.quiet s) s.drop
      else .quiet s
  | .brokerUpdate cid u now => { SliceStep.quiet s with statement := some (.cas cid u, now) }
  | .replaced cid now => { SliceStep.quiet s with statement := some (.setReplaced cid, now) }

def SliceStep.exec (db : Database) (t : SliceStep) : Database :=
  t.statement.elim db fun (statement, now) => statement.exec db now

def sliceStep (cfg : SchedulerConfig) (s : SliceSystem) (e : SliceEvent) : SliceSystem :=
  let t := takeStep cfg s e
  { t.next with db := t.exec s.db }

end TradingPlatform.Gateway
