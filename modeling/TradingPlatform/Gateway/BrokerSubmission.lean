import TradingPlatform.Gateway.SliceScheduler

/-! # Submission to a broker that loses responses

The broker decides about the orders that reach it and refuses to take one
`client_order_id` twice; what it answers may get lost on the way back. The
executor retries on lost answers, and its two callers, the order route and the
job of a slice, go on with what it returns. Fill webhooks come in for an order
that the broker has accepted.
-/

namespace TradingPlatform.Gateway

open Base Risk Risk.PositionReservation

/-! ## The broker -/

inductive RefusalCode where
  | badRequest | forbidden | unprocessableEntity
  deriving DecidableEq

inductive BrokerDecision where
  | accept (brokerOrderId : String)
  | refuse (code : RefusalCode) (message : String)
  deriving DecidableEq

def BrokerDecision.accepts : BrokerDecision → Bool
  | .accept _ => true
  | .refuse _ _ => false

/-- An id that was accepted before is refused. -/
def decideOrder (accepted : Bool) (decision : BrokerDecision) : BrokerDecision :=
  if accepted then .refuse .unprocessableEntity "client_order_id must be unique" else decision

inductive ApiFailure where
  /-- An API error with any other status code, a 5xx say. -/
  | apiError (message : String)
  | networkError (message : String)
  deriving DecidableEq

/-- What becomes of one request: it never arrives, or the broker decides and the answer is
lost, does not parse, has another type than an order, or comes back. -/
inductive Delivery where
  | unsent (failure : ApiFailure)
  | lost (decision : BrokerDecision) (failure : ApiFailure)
  | unreadable (decision : BrokerDecision) (message : String)
  | unexpected (decision : BrokerDecision)
  | answered (decision : BrokerDecision)
  deriving DecidableEq

/-- The broker has the order after this request. -/
def Delivery.reaches (accepted : Bool) : Delivery → Bool
  | .unsent _ => accepted
  | .lost decision _ | .unreadable decision _ | .unexpected decision | .answered decision =>
      accepted || decision.accepts

/-! ## The executor -/

def BrokerDecision.reply : BrokerDecision → BrokerReply
  | .accept brokerOrderId => .accepted (some brokerOrderId)
  | .refuse .badRequest message => .validationError ("Invalid order: " ++ message)
  | .refuse .forbidden message | .refuse .unprocessableEntity message =>
      .rejectionError ("Order rejected: " ++ message)

def ApiFailure.reply : ApiFailure → BrokerReply
  | .apiError message => .connectionError ("Alpaca API connection error: " ++ message)
  | .networkError message => .connectionError ("Network error: " ++ message)

/-- How one attempt of `AlpacaExecutor.submit_order` ends. -/
def Delivery.reply (accepted : Bool) : Delivery → BrokerReply
  | .unsent failure | .lost _ failure => failure.reply
  | .unreadable _ message => .validationError ("Data validation error: " ++ message)
  | .unexpected _ => .otherError
  | .answered decision => (decideOrder accepted decision).reply

/-- The broker's knowledge of the order, and the attempts that the call under way has made. -/
structure BrokerCall where
  accepted : Bool
  attempts : Nat
  deriving DecidableEq

def BrokerCall.idle : BrokerCall := ⟨false, 0⟩

/-- `stop_after_attempt(3)` on the executor. -/
def submitAttempts : Nat := 3

/-- One attempt; a reply ends the call, and without one it is tried again. -/
def BrokerCall.tryOnce (c : BrokerCall) (delivery : Delivery) :
    BrokerCall × Option BrokerReply :=
  let accepted := delivery.reaches c.accepted
  match delivery.reply c.accepted with
  | .connectionError e =>
      if c.attempts + 1 < submitAttempts then (⟨accepted, c.attempts + 1⟩, none)
      else (⟨accepted, 0⟩, some (.connectionError e))
  | reply => (⟨accepted, 0⟩, some reply)

theorem tryOnce_accepted (c : BrokerCall) (delivery : Delivery) :
    (c.tryOnce delivery).1.accepted = delivery.reaches c.accepted := by
  unfold BrokerCall.tryOnce
  dsimp only
  split
  · split <;> rfl
  · rfl

/-! ## Fill webhooks -/

/-- The update that a fill webhook makes on the order's row. -/
def isFill (u : CasUpdate) : Bool := u.status = .filled || u.status = .partiallyFilled

/-- A fill is reported for an order that the broker has. -/
def fillWebhook (c : BrokerCall) (db : Database) (clientOrderId : String) (u : CasUpdate)
    (now : Timestamp) : Database :=
  if c.accepted && isFill u then (updateOrderStatusCas db clientOrderId u now).1 else db

/-! ## The order route -/

/-- One submission with its broker; `released` records that its reservation was released. -/
structure OrderRun where
  keys : SymbolKeys
  db : Database
  sub : Submission
  call : BrokerCall
  released : Bool

inductive OrderRunEvent where
  | attempt (delivery : Delivery)
  | answer (answer : Answer)
  | fill (u : CasUpdate)

def Phase.releases : Phase → Answer → Bool
  | .releasing _, .release => true
  | _, _ => false

/-- The handler goes on with an answer. -/
def OrderRun.respond (cfg : SubmitConfig) (s : OrderRun) (answer : Answer) (now : Timestamp) :
    OrderRun :=
  let (keys, db, phase) := Gateway.respond cfg s.keys s.db s.sub answer now
  { s with
    keys, db
    sub := s.sub.enter phase
    released := s.released || s.sub.phase.releases answer }

/-- The broker answers through the executor alone. -/
def orderStep (cfg : SubmitConfig) (s : OrderRun) (e : OrderRunEvent × Timestamp) : OrderRun :=
  match e.1 with
  | .attempt delivery =>
      if s.sub.phase = .inserted then
        let (call, reply) := s.call.tryOnce delivery
        match reply with
        | none => { s with call }
        | some reply => { s with call }.respond cfg (.broker reply) e.2
      else s
  | .answer (.broker _) => s
  | .answer answer => s.respond cfg answer e.2
  | .fill u => { s with db := fillWebhook s.call s.db s.sub.clientOrderId u e.2 }

/-- A submission at its reservation gate, with an order the broker does not know. -/
def OrderRun.start (cfg : SubmitConfig) (keys : SymbolKeys) (db : Database)
    (order : OrderRequest) (clientOrderId token : String) : OrderRun :=
  let (keys, sub) := reserveForOrder cfg keys db order clientOrderId token
  ⟨keys, db, sub, .idle, false⟩

/-! ## The job of a slice -/

/-- The run of `_execute_slice_job_wrapper` for one job, with its broker; without a phase the
job is over. -/
structure SliceRun where
  db : Database
  phase : Option SlicePhase
  call : BrokerCall

inductive SliceRunEvent where
  | attempt (delivery : Delivery)
  | own (e : SliceEvent)
  | fill (u : CasUpdate)

/-- The scheduler as far as one running job sees it. -/
def jobAlone (db : Database) (job : SliceJob) (phase : SlicePhase) : SliceSystem where
  db
  jobs := .empty
  running := .ofList [⟨job, phase⟩]
  recovery := none
  canceling := []
  removals := []

def SliceRun.advance (cfg : SchedulerConfig) (job : SliceJob) (s : SliceRun)
    (phase : SlicePhase) (e : SliceEvent) : SliceRun :=
  let t := Gateway.advance cfg (jobAlone s.db job phase) job phase e
  { s with
    db := t.exec s.db
    phase := (t.next.running.find? job.jobId).map (·.phase) }

def sliceRunStep (cfg : SchedulerConfig) (job : SliceJob) (s : SliceRun)
    (e : SliceRunEvent × Timestamp) : SliceRun :=
  match e.1, s.phase with
  | .attempt delivery, some (.sent attempt) =>
      let (call, reply) := s.call.tryOnce delivery
      match reply with
      | none => { s with call }
      | some reply =>
          { s with call }.advance cfg job (.sent attempt) (.reply job.jobId reply e.2)
  | .own (.reply _ _ _), _ => s
  | .own e, some phase => s.advance cfg job phase e
  | .fill u, _ => { s with db := fillWebhook s.call s.db job.clientOrderId u e.2 }
  | _, _ => s

def SliceRun.start (db : Database) : SliceRun := ⟨db, some (.attempting 1), .idle⟩

end TradingPlatform.Gateway
