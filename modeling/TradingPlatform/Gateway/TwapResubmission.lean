import TradingPlatform.Gateway.TwapSubmission

/-! # Resubmission of a TWAP order

The parent's id hashes the interval of the plan, and the interval depends on the
average daily volume of the moment. A second submission of one request finds the
stored plan exactly when both volumes lead to one interval.
-/

namespace TradingPlatform.Gateway

open Base

/-! ## The interval a volume leads to -/

/-- The volume that caps the slices of a submission. -/
def volumeSeen (cfg : SlicingConfig) (ctx : SliceContext) : Option Int :=
  if cfg.liquidityCheckEnabled then ctx.liquidity.join else none

/-- Slices that a volume asks for. -/
def slicesAt (cfg : SlicingConfig) (request : SlicingRequest) (volume : Option Int) : Nat :=
  liquiditySlices request.qty (volume.map (sliceCap cfg.maxSlicePctOfAdv))

def SlicingRequest.base (request : SlicingRequest) : Nat :=
  baseSlices request.durationMinutes request.intervalSeconds

/-- Whole seconds between slices that share out the duration. -/
def SlicingRequest.shared (request : SlicingRequest) (numSlices : Nat) : Nat :=
  request.durationMinutes * 60 / (numSlices - 1)

/-- Both volumes fit the requested slices, or both ask for more and share the duration out
alike, or one asks for more and still keeps the requested interval. -/
def OneInterval (cfg : SlicingConfig) (request : SlicingRequest) (v w : Option Int) : Prop :=
  let m := slicesAt cfg request v
  let n := slicesAt cfg request w
  (m ≤ request.base ∧ n ≤ request.base) ∨
  (request.base < m ∧ request.base < n ∧ request.shared m = request.shared n) ∨
  (m ≤ request.base ∧ request.base < n ∧ request.shared n = request.intervalSeconds) ∨
  (request.base < m ∧ n ≤ request.base ∧ request.shared m = request.intervalSeconds)

instance (cfg : SlicingConfig) (request : SlicingRequest) (v w : Option Int) :
    Decidable (OneInterval cfg request v w) :=
  inferInstanceAs (Decidable (_ ∨ _))

/-- A raised count keeps the interval only when it is one more than the requested count and
that count divides the duration evenly. -/
theorem shared_eq_interval_iff {request : SlicingRequest} {n : Nat}
    (covers : request.durationMinutes * 60 ≤ request.base * request.intervalSeconds)
    (raised : request.base < n) :
    request.shared n = request.intervalSeconds ↔
      n = request.base + 1 ∧
        request.durationMinutes * 60 = request.base * request.intervalSeconds := by
  have hbase : 0 < request.base := lt_of_lt_of_le Nat.zero_lt_one (le_max_left _ _)
  have hinterval := request.interval_pos
  unfold SlicingRequest.shared
  rw [Nat.div_eq_iff (by omega)]
  constructor
  · intro ⟨hle, hlt⟩
    have hcount : (n - 1) * request.intervalSeconds ≤ request.base * request.intervalSeconds := by
      rw [Nat.mul_comm]
      omega
    have hn : n - 1 ≤ request.base := Nat.le_of_mul_le_mul_right hcount hinterval
    have hn' : n - 1 = request.base := by omega
    rw [hn', Nat.mul_comm] at hle
    omega
  · rintro ⟨rfl, heven⟩
    rw [heven, Nat.add_sub_cancel, Nat.mul_comm request.base]
    omega

theorem maxSliceQty_ok {cfg : SlicingConfig} {ctx : SliceContext} {cap : Option Nat}
    (h : maxSliceQty cfg ctx = .ok cap) :
    cap = (volumeSeen cfg ctx).map (sliceCap cfg.maxSlicePctOfAdv) := by
  unfold maxSliceQty at h
  unfold volumeSeen
  cases henabled : cfg.liquidityCheckEnabled with
  | false =>
      rw [henabled] at h
      cases h
      rfl
  | true =>
      rw [henabled] at h
      match hvolume : ctx.liquidity with
      | none =>
          rw [hvolume] at h
          cases h
      | some none =>
          rw [hvolume] at h
          cases h
      | some (some adv) =>
          rw [hvolume] at h
          simp only [Bool.true_eq_false, if_false] at h
          split at h
          · cases h
          · cases h
            rfl

theorem mapError_ok {ε ε' α : Type} {x : Except ε α} {f : ε → ε'} {a : α}
    (h : x.mapError f = .ok a) : x = .ok a := by
  cases x with
  | error e => cases h
  | ok b =>
      cases h
      rfl

/-- What the id of an accepted plan hashes. -/
theorem slicingPlan_ok {cfg : SlicingConfig} {lib : Hashing} {ctx : SliceContext}
    {request : SlicingRequest} {r : SlicingPlan} (h : slicingPlan cfg lib ctx request = .ok r) :
    ∃ interval, reconstructOrderParamsHash lib request.toOrderParams
        (parentStrategyId request.durationMinutes interval) (tradeDateOf request ctx) =
          .ok r.parentOrderId ∧
      interval = if slicesAt cfg request (volumeSeen cfg ctx) ≤ request.base then
        request.intervalSeconds
      else request.shared (slicesAt cfg request (volumeSeen cfg ctx)) := by
  unfold slicingPlan at h
  obtain ⟨-, -, h⟩ := Except.bind_ok h
  obtain ⟨-, -, h⟩ := Except.bind_ok h
  obtain ⟨-, -, h⟩ := Except.bind_ok h
  obtain ⟨cap, hcap, h⟩ := Except.bind_ok h
  obtain ⟨s, hspacing, hparent⟩ := plan_ok (mapError_ok h)
  refine ⟨s.intervalSeconds, hparent, ?_⟩
  rw [(spacing_ok hspacing).2, maxSliceQty_ok hcap]
  rfl

/-- The ids of two accepted plans of one request agree when the intervals do. -/
theorem parentOrderId_eq_iff {cfg : SlicingConfig} {lib : Hashing}
    (injective : Function.Injective lib.orderId) {ctx₁ ctx₂ : SliceContext}
    {request : SlicingRequest} (dated : request.tradeDate.isSome) {plan₁ plan₂ : SlicingPlan}
    (accepted₁ : slicingPlan cfg lib ctx₁ request = .ok plan₁)
    (accepted₂ : slicingPlan cfg lib ctx₂ request = .ok plan₂) :
    plan₂.parentOrderId = plan₁.parentOrderId ↔
      OneInterval cfg request (volumeSeen cfg ctx₁) (volumeSeen cfg ctx₂) := by
  obtain ⟨i, hid₁, hi⟩ := slicingPlan_ok accepted₁
  obtain ⟨j, hid₂, hj⟩ := slicingPlan_ok accepted₂
  obtain ⟨date, hdate⟩ := Option.isSome_iff_exists.mp dated
  have hsame : tradeDateOf request ctx₂ = tradeDateOf request ctx₁ := by
    simp only [tradeDateOf, hdate, Option.getD_some]
  rw [hsame] at hid₂
  rw [hash_eq_iff injective hid₂ hid₁, parentStrategyId_inj, hi, hj, OneInterval]
  split
  · split
    · omega
    · omega
  · split
    · omega
    · omega

/-! ## Finding the stored plan -/

/-- The rows of a plan: its parent, and slices with their numbers and times. -/
structure Stored (db : Database) (plan : SlicingPlan) : Prop where
  parent : (getOrderByClientId db plan.parentOrderId).isSome
  sliced : ∃ r ∈ db.orders.rows, r.parentOrderId = some plan.parentOrderId
  complete : ∀ r ∈ db.orders.rows, r.parentOrderId = some plan.parentOrderId →
    r.sliceNum.isSome ∧ r.scheduledTime.isSome

/-- The answer names the plan's parent and its slices, and nothing is written. -/
def Returns (plan : SlicingPlan) (db : Database)
    (answer : Except SliceError (Database × Submitted)) : Prop :=
  ∃ found, answer = .ok (db, .existing found) ∧ found.parentOrderId = plan.parentOrderId ∧
    found.slices.map (·.clientOrderId) =
      (getSlicesByParentId db plan.parentOrderId).map (·.clientOrderId)

theorem mem_getSlicesByParentId {db : Database} {parentOrderId : String} {r : OrderRow} :
    r ∈ getSlicesByParentId db parentOrderId ↔
      r ∈ db.orders.rows ∧ r.parentOrderId = some parentOrderId := by
  rw [getSlicesByParentId, List.mem_insertionSort, Table.select, List.mem_filter,
    decide_eq_true_eq]

theorem convertSlicesToDetails_ok (slices : List OrderRow)
    (complete : ∀ r ∈ slices, r.sliceNum.isSome ∧ r.scheduledTime.isSome) :
    ∃ details, convertSlicesToDetails slices = .ok details ∧
      details.map (·.clientOrderId) = slices.map (·.clientOrderId) := by
  unfold convertSlicesToDetails
  induction slices with
  | nil => exact ⟨[], rfl, rfl⟩
  | cons r slices ih =>
      obtain ⟨details, hdetails, hids⟩ := ih fun x hx => complete x (List.mem_cons_of_mem r hx)
      have ⟨hnum, htime⟩ := complete r List.mem_cons_self
      obtain ⟨num, hnum⟩ := Option.isSome_iff_exists.mp hnum
      obtain ⟨time, htime⟩ := Option.isSome_iff_exists.mp htime
      rw [List.mapM_cons, hdetails, sliceDetail, hnum, htime]
      exact ⟨_, rfl, congrArg (r.clientOrderId :: ·) hids⟩

theorem storedPlan_ok (request : SlicingRequest) {db : Database} {plan : SlicingPlan}
    (stored : Stored db plan) (intervalSeconds : Nat) {parent : OrderRow}
    (hparent : parent.clientOrderId = plan.parentOrderId) :
    ∃ found, storedPlan request intervalSeconds db parent = .ok found ∧
      found.parentOrderId = plan.parentOrderId ∧ found.slices.map (·.clientOrderId) =
        (getSlicesByParentId db plan.parentOrderId).map (·.clientOrderId) := by
  obtain ⟨details, hdetails, hids⟩ :=
    convertSlicesToDetails_ok (getSlicesByParentId db plan.parentOrderId) fun r hr =>
      stored.complete r (mem_getSlicesByParentId.mp hr).1 (mem_getSlicesByParentId.mp hr).2
  have hsliced : details.length ≠ 0 := by
    obtain ⟨r, hr, hslice⟩ := stored.sliced
    have hmem := mem_getSlicesByParentId.mpr ⟨hr, hslice⟩
    have hlen := congrArg List.length hids
    rw [List.length_map, List.length_map] at hlen
    have hpos := List.length_pos_of_mem hmem
    omega
  unfold storedPlan
  rw [hparent, hdetails]
  simp only [bind, Except.bind, if_neg hsliced]
  exact ⟨_, rfl, rfl, hids⟩

/-- A plan whose parent is stored under its own id is found. -/
theorem findExistingTwapPlan_stored (lib : Hashing) (request : SlicingRequest)
    {db : Database} {plan new : SlicingPlan} (stored : Stored db plan)
    (same : new.parentOrderId = plan.parentOrderId) (date : Date) :
    ∃ found, findExistingTwapPlan lib request new date db = .ok (some found) ∧
      found.parentOrderId = plan.parentOrderId ∧ found.slices.map (·.clientOrderId) =
        (getSlicesByParentId db plan.parentOrderId).map (·.clientOrderId) := by
  obtain ⟨parent, hparent⟩ := Option.isSome_iff_exists.mp stored.parent
  obtain ⟨found, hfound, hid⟩ := storedPlan_ok request stored new.intervalSeconds
    (Table.find?_key hparent)
  refine ⟨found, ?_, hid⟩
  unfold findExistingTwapPlan
  rw [same, hparent]
  exact congrArg (Except.map some) hfound

theorem submitSlicedOrder_returns {cfg : SlicingConfig} {lib : Hashing} {ctx : SliceContext}
    {request : SlicingRequest} {db : Database} {plan new : SlicingPlan}
    (accepted : slicingPlan cfg lib ctx request = .ok new) (stored : Stored db plan)
    (same : new.parentOrderId = plan.parentOrderId) :
    Returns plan db (submitSlicedOrder cfg lib ctx request db) := by
  obtain ⟨found, hfound, hid⟩ := findExistingTwapPlan_stored lib request
    stored same (tradeDateOf request ctx)
  refine ⟨found, ?_, hid⟩
  unfold submitSlicedOrder
  rw [accepted]
  simp only [bind, Except.bind, hfound]
  rfl

/-! ## Storing a plan -/

/-- The parent insert is refused, so no plan is ever stored. -/
theorem insertTwap_refused (request : SlicingRequest) (plan : SlicingPlan) (db : Database)
    (now : Timestamp) : insertTwap request plan db now = .error .programmingError := rfl

theorem createTwapInDb_refused (request : SlicingRequest) (plan : SlicingPlan) (db : Database)
    (now : Timestamp) : createTwapInDb request plan db now = .error .unhandled := by
  rw [createTwapInDb, insertTwap_refused]

/-- A plan that is not stored yet ends the submission. -/
theorem submitSlicedOrder_refused {cfg : SlicingConfig} {lib : Hashing} {ctx : SliceContext}
    {request : SlicingRequest} {db : Database} {new : SlicingPlan}
    (accepted : slicingPlan cfg lib ctx request = .ok new)
    (unknown : findExistingTwapPlan lib request new (tradeDateOf request ctx) db = .ok none) :
    submitSlicedOrder cfg lib ctx request db = .error .unhandled := by
  unfold submitSlicedOrder
  rw [accepted]
  simp only [bind, Except.bind, unknown, createTwapInDb_refused]

/-- The default cap of one percent. -/
def onePercent : SlicingConfig := ⟨false, true, toDouble (1 / 100)⟩

/-- An admitted submission at a volume. -/
def atVolume (adv : Int) : SliceContext where
  sliceScheduler := true
  killSwitch := some (some false)
  quarantine := .values false false
  reconciliation := some ⟨true, false⟩
  liquidity := some (some adv)
  now := 0
  today := ⟨2025, 1, 2⟩

/-- Six hundred shares over five minutes, a slice each minute. -/
def sixHundred : SlicingRequest where
  symbol := "AAPL"
  side := .buy
  qty := 600
  limitPrice := none
  stopPrice := none
  orderType := .market
  timeInForce := .day
  durationMinutes := 5
  intervalSeconds := 60
  tradeDate := some ⟨2025, 1, 2⟩
  qty_pos := by decide
  duration_pos := by decide
  interval_pos := by decide
  base_le_qty := by decide +kernel

def planAt (adv : Int) : Except SliceError SlicingPlan :=
  slicingPlan onePercent plainHashing (atVolume adv) sixHundred

theorem eq_ok_get {ε α : Type} {x : Except ε α} (h : x.toOption.isSome) :
    x = .ok (x.toOption.get h) := by
  cases x with
  | error e => cases h
  | ok a => rfl

/-- The rows that the inserts of a plan describe. -/
def planRows (request : SlicingRequest) (plan : SlicingPlan) : List OrderRow :=
  { OrderRow.defaults (orderOf request.toOrderParams request.qty request.int_qty_pos)
      plan.parentOrderId plan.parentStrategyId .pendingNew 0 with
    totalSlices := some plan.totalSlices } ::
  plan.slices.map fun s =>
    { OrderRow.defaults (orderOf request.toOrderParams s.qty s.qty_pos) s.clientOrderId
        s.strategyId .pendingNew 0 with
      parentOrderId := some plan.parentOrderId
      sliceNum := some s.sliceNum
      scheduledTime := some s.scheduledTime }

/-- The plan of a busy day, five slices a minute apart. -/
def busyPlan : SlicingPlan := (planAt 1000000).toOption.get (by decide +kernel)

/-- The plan of a day thin enough to ask for ten slices. -/
def thinPlan : SlicingPlan := (planAt 6000).toOption.get (by decide +kernel)

def busyDay : Database := { Database.empty with orders := .ofList (planRows sixHundred busyPlan) }

theorem busyDay_stored : Stored busyDay busyPlan :=
  ⟨by decide +kernel, by decide +kernel, by decide +kernel⟩

end TradingPlatform.Gateway
