import TradingPlatform.Gateway.OrderSlicer

/-! # Submission of a TWAP order

The slicing endpoint: its gates, the cap that the average daily volume puts on a
slice, the plan, the search for a plan already stored and the transaction that
stores a new one. A context holds what one submission reads from the services
around it.
-/

namespace TradingPlatform.Gateway

open Base

/-! ## Requests and contexts -/

/-- A validated request; the last field is the model validator. -/
structure SlicingRequest extends OrderParams where
  durationMinutes : Nat
  intervalSeconds : Nat
  tradeDate : Option Date
  qty_pos : 0 < qty
  duration_pos : 0 < durationMinutes
  interval_pos : 0 < intervalSeconds
  base_le_qty : baseSlices durationMinutes intervalSeconds ≤ qty

theorem SlicingRequest.int_qty_pos (request : SlicingRequest) : 0 < (request.qty : Int) :=
  Int.natCast_pos.mpr request.qty_pos

structure SlicingConfig where
  dryRun : Bool
  liquidityCheckEnabled : Bool
  maxSlicePctOfAdv : ℚ

inductive QuarantineRead where
  | noRedis
  | failed (message : String)
  | values (strategyValue wildcardValue : Bool)
  deriving DecidableEq

structure ReconciliationGate where
  startupComplete : Bool
  overrideActive : Bool
  deriving DecidableEq

structure SliceContext where
  sliceScheduler : Bool
  /-- Missing when the switch is unavailable; the reading is missing when it raised. -/
  killSwitch : Option (Option Bool)
  quarantine : QuarantineRead
  reconciliation : Option ReconciliationGate
  /-- Missing when there is no liquidity service; the volume is missing when its lookup failed. -/
  liquidity : Option (Option Int)
  now : Timestamp
  today : Date

inductive SliceError where
  | http (status : Nat) (error : String) (message : Option String)
  /-- No handler of the endpoint catches the exception. -/
  | unhandled
  deriving DecidableEq, Repr

def serviceUnavailable (error : String) (message : Option String) : SliceError :=
  .http 503 error message

/-! ## Gates -/

def checkTwapPrerequisites (ctx : SliceContext) : Except SliceError Unit :=
  if ctx.sliceScheduler = false then
    .error (serviceUnavailable "TWAP order service unavailable (scheduler not initialized)" none)
  else match ctx.killSwitch with
    | none =>
        .error (serviceUnavailable "Kill-switch unavailable"
          (some "Kill-switch state unknown (fail-closed for safety)"))
    | some none => .error .unhandled
    | some (some true) =>
        .error (serviceUnavailable "Kill-switch engaged" (some "All trading halted by operator"))
    | some (some false) => .ok ()

def checkQuarantine (cfg : SlicingConfig) (ctx : SliceContext) (symbol : String) :
    Except SliceError Unit :=
  if cfg.dryRun then .ok ()
  else match ctx.quarantine with
    | .noRedis =>
        .error (serviceUnavailable "Quarantine check unavailable"
          (some "Redis unavailable for quarantine enforcement (fail-closed)."))
    | .failed message =>
        .error (serviceUnavailable "Quarantine check unavailable" (some message))
    | .values strategyValue wildcardValue =>
        if strategyValue || wildcardValue then
          .error (serviceUnavailable "Symbol quarantined"
            (some s!"Trading blocked for {symbol} due to orphan order quarantine"))
        else .ok ()

def isReconciliationReady (cfg : SlicingConfig) (ctx : SliceContext) : Bool :=
  cfg.dryRun || ctx.reconciliation.any (·.startupComplete)

def checkReconciliation (cfg : SlicingConfig) (ctx : SliceContext) : Except SliceError Unit :=
  if isReconciliationReady cfg ctx || ctx.reconciliation.any (·.overrideActive) then .ok ()
  else .error (serviceUnavailable "Reconciliation in progress - TWAP orders blocked" none)

/-! ## Liquidity -/

/-- `int(adv_20d * MAX_SLICE_PCT_OF_ADV)`, at least one share. -/
def sliceCap (maxSlicePctOfAdv : ℚ) (adv : Int) : Nat :=
  max 1 (truncate (toDouble (toDouble adv * maxSlicePctOfAdv))).toNat

def maxSliceQty (cfg : SlicingConfig) (ctx : SliceContext) : Except SliceError (Option Nat) :=
  if cfg.liquidityCheckEnabled = false then .ok none
  else match ctx.liquidity with
    | none =>
        .error (serviceUnavailable "Liquidity service unavailable; please retry" none)
    | some none =>
        .error (serviceUnavailable
          "Liquidity data unavailable (ADV lookup failed); please retry" none)
    | some (some adv) =>
        if overflows adv || overflows (toDouble adv * cfg.maxSlicePctOfAdv) then
          .error .unhandled
        else .ok (some (sliceCap cfg.maxSlicePctOfAdv adv))

/-- How the endpoint answers a failed plan. -/
def planFailure : PlanError → SliceError
  | .valueError message => .http 400 message none
  | .overflowError | .invalidOperation => .unhandled

def tradeDateOf (request : SlicingRequest) (ctx : SliceContext) : Date :=
  request.tradeDate.getD ctx.today

/-- The endpoint up to its plan. -/
def slicingPlan (cfg : SlicingConfig) (lib : Hashing) (ctx : SliceContext)
    (request : SlicingRequest) : Except SliceError SlicingPlan := do
  checkTwapPrerequisites ctx
  checkQuarantine cfg ctx request.symbol
  checkReconciliation cfg ctx
  let cap ← maxSliceQty cfg ctx
  (plan lib request.toOrderParams request.durationMinutes request.intervalSeconds cap
    (some (tradeDateOf request ctx)) ctx.now ctx.today).mapError planFailure

/-! ## Stored plans -/

def sliceDetail (r : OrderRow) : Except SliceError SliceDetail :=
  match r.sliceNum, r.scheduledTime with
  | some sliceNum, some scheduledTime =>
      .ok ⟨sliceNum, r.qty, scheduledTime, r.clientOrderId, r.strategyId, r.status, r.zero_lt_qty⟩
  | _, _ => .error (.http 500 "Corrupt slice data found in database" none)

def convertSlicesToDetails (slices : List OrderRow) : Except SliceError (List SliceDetail) :=
  slices.mapM sliceDetail

/-- The plan a stored parent stands for; a plan without slices is refused by its model. -/
def storedPlan (request : SlicingRequest) (intervalSeconds : Nat) (db : Database)
    (parent : OrderRow) : Except SliceError SlicingPlan := do
  let slices ← convertSlicesToDetails (getSlicesByParentId db parent.clientOrderId)
  if slices.length = 0 then
    throw (.http 400 "total_slices: Input should be greater than 0" none)
  return ⟨parent.clientOrderId, parent.strategyId, request.symbol, request.side, request.qty,
    slices.length, request.durationMinutes, intervalSeconds, slices⟩

def legacyTwapIntervalSeconds : Nat := 60

def fallbackStrategies (request : SlicingRequest) : List String :=
  [s!"twap_parent_{request.durationMinutes}m", "twap_parent"]

/-- The first stored parent under an older id that has as many slices as the new plan. -/
def legacyParent (lib : Hashing) (request : SlicingRequest) (slicingPlan : SlicingPlan)
    (tradeDate : Date) (db : Database) : List String → Except SliceError (Option OrderRow)
  | [] => .ok none
  | strategyId :: rest => do
      let legacyId ← (reconstructOrderParamsHash lib request.toOrderParams strategyId
        tradeDate).mapError planFailure
      match getOrderByClientId db legacyId with
      | some parent =>
          if parent.totalSlices = some slicingPlan.totalSlices then return some parent
          else legacyParent lib request slicingPlan tradeDate db rest
      | none => legacyParent lib request slicingPlan tradeDate db rest

def findExistingTwapPlan (lib : Hashing) (request : SlicingRequest) (slicingPlan : SlicingPlan)
    (tradeDate : Date) (db : Database) : Except SliceError (Option SlicingPlan) :=
  match getOrderByClientId db slicingPlan.parentOrderId with
  | some parent => (storedPlan request slicingPlan.intervalSeconds db parent).map some
  | none =>
      if request.intervalSeconds ≠ legacyTwapIntervalSeconds then .ok none
      else do
        match ← legacyParent lib request slicingPlan tradeDate db (fallbackStrategies request) with
        | none => return none
        | some parent => (storedPlan request slicingPlan.intervalSeconds db parent).map some

/-! ## Storing a plan -/

/-- The order a parent or a slice is stored as. -/
def orderOf (p : OrderParams) (qty : Int) (qty_pos : 0 < qty) : OrderRequest :=
  ⟨p.symbol, p.side, qty, p.orderType, p.limitPrice, p.stopPrice, p.timeInForce, qty_pos⟩

/-- The inserts of one transaction. -/
def insertTwap (request : SlicingRequest) (slicingPlan : SlicingPlan) (db : Database)
    (now : Timestamp) : Except WriteError Database := do
  let (db, _) ← createParentOrder db slicingPlan.parentOrderId slicingPlan.parentStrategyId
    (orderOf request.toOrderParams request.qty request.int_qty_pos)
    slicingPlan.totalSlices .pendingNew ⟨[], 0⟩ now
  slicingPlan.slices.foldlM (fun db s => do
    let (db, _) ← createChildSlice db s.clientOrderId slicingPlan.parentOrderId s.sliceNum
      s.strategyId (orderOf request.toOrderParams s.qty s.qty_pos) s.scheduledTime .pendingNew now
    return db) db

/-- A plan comes back when a concurrent submission stored one first. -/
def createTwapInDb (request : SlicingRequest) (slicingPlan : SlicingPlan) (db : Database)
    (now : Timestamp) : Except SliceError (Database × Option SlicingPlan) :=
  match insertTwap request slicingPlan db now with
  | .ok db' => .ok (db', none)
  | .error .uniqueViolation =>
      match getOrderByClientId db slicingPlan.parentOrderId with
      | some parent =>
          (storedPlan request slicingPlan.intervalSeconds db parent).map fun plan =>
            (db, some plan)
      | none =>
          .error (.http 500 "Database inconsistency: parent order not found after UniqueViolation"
            none)
  | .error _ => .error .unhandled

inductive Submitted where
  /-- A stored plan, nothing is written. -/
  | existing (plan : SlicingPlan)
  /-- A new plan, whose slices go to the scheduler. -/
  | created (plan : SlicingPlan)

def submitSlicedOrder (cfg : SlicingConfig) (lib : Hashing) (ctx : SliceContext)
    (request : SlicingRequest) (db : Database) : Except SliceError (Database × Submitted) := do
  let slicingPlan ← slicingPlan cfg lib ctx request
  match ← findExistingTwapPlan lib request slicingPlan (tradeDateOf request ctx) db with
  | some plan => return (db, .existing plan)
  | none =>
      let (db', concurrent) ← createTwapInDb request slicingPlan db ctx.now
      match concurrent with
      | some plan => return (db', .existing plan)
      | none => return (db', .created slicingPlan)

end TradingPlatform.Gateway
