import TradingPlatform.Base.Fallible
import TradingPlatform.Base.Rounding
import TradingPlatform.Gateway.OrderWrites
import Mathlib.Algebra.BigOperators.Group.List.Basic
import Mathlib.Data.List.Nodup

/-! # TWAP order slicing

The deterministic order ids and the slicing plan. An order id hashes the order's
parameters; the parent's strategy, one of them, spells out the duration and the
spacing that the plan settled on. Quantities and durations are naturals, and
division of two of them goes through floating point as it does in the source.
-/

namespace TradingPlatform.Gateway

open Base

/-! ## Order ids -/

structure Date where
  year : Nat
  month : Nat
  day : Nat
  deriving DecidableEq

def padded (width n : Nat) : String :=
  String.ofList (List.replicate (width - (toString n).length) '0') ++ toString n

def Date.isoformat (d : Date) : String :=
  padded 4 d.year ++ "-" ++ padded 2 d.month ++ "-" ++ padded 2 d.day

def Side.text : Side → String
  | .buy => "buy"
  | .sell => "sell"

def OrderType.text : OrderType → String
  | .market => "market"
  | .limit => "limit"
  | .stop => "stop"
  | .stopLimit => "stop_limit"

def TimeInForce.text : TimeInForce → String
  | .day => "day"
  | .gtc => "gtc"
  | .ioc => "ioc"
  | .fok => "fok"

/-- What the slicer takes from the standard library: the first 24 hexadecimal digits of a
text's SHA-256 digest, its first four bytes as a number, and the seeded sampling of distinct
indices below a bound. -/
structure Hashing where
  orderId : String → String
  seed : String → Nat
  sample : (seed population k : Nat) → List Nat
  sample_length : ∀ seed population k, k ≤ population → (sample seed population k).length = k
  sample_nodup : ∀ seed population k, (sample seed population k).Nodup
  sample_lt : ∀ seed population k, ∀ i ∈ sample seed population k, i < population

/-- Texts stand for their own digests. -/
def plainHashing : Hashing where
  orderId := id
  seed _ := 0
  sample _ population k := List.range (min k population)
  sample_length _ population k h := by rw [List.length_range, Nat.min_eq_left h]
  sample_nodup _ _ _ := List.nodup_range
  sample_lt _ population k i hi := by
    rw [List.mem_range] at hi
    omega

inductive PlanError where
  /-- `ValueError`, and the validation errors derived from it -/
  | valueError (message : String)
  | overflowError
  /-- A price has more digits in cents than the decimal context holds. -/
  | invalidOperation
  deriving DecidableEq, Repr

/-- `price.quantize(Decimal("0.01"), ROUND_HALF_UP)`, refused beyond 28 digits. -/
def quantizeCents (price : Price) : Except PlanError Decimal :=
  let cents := ⌊price.val.toRat * 100 + 1 / 2⌋
  if cents < 10 ^ 28 then .ok ⟨cents, 2⟩ else .error .invalidOperation

def formatPriceForId : Option Price → Except PlanError String
  | none => .ok "None"
  | some price => (quantizeCents price).map Decimal.str

/-- The parameters of an order that its id is made of, its strategy apart. -/
structure OrderParams where
  symbol : String
  side : Side
  qty : Nat
  limitPrice : Option Price
  stopPrice : Option Price
  orderType : OrderType
  timeInForce : TimeInForce

/-- The hashed text up to the strategy. -/
def OrderParams.text (p : OrderParams) : Except PlanError String := do
  let limitPrice ← formatPriceForId p.limitPrice
  let stopPrice ← formatPriceForId p.stopPrice
  return p.symbol ++ "|" ++ p.side.text ++ "|" ++ toString p.qty ++ "|" ++ limitPrice ++ "|" ++
    stopPrice ++ "|" ++ p.orderType.text ++ "|" ++ p.timeInForce.text ++ "|"

def reconstructOrderParamsHash (lib : Hashing) (p : OrderParams) (strategyId : String)
    (orderDate : Date) : Except PlanError String := do
  let text ← p.text
  return lib.orderId (text ++ (strategyId ++ ("|" ++ orderDate.isoformat)))

/-- Under an injective digest two ids of one order agree when the strategies do. -/
theorem hash_eq_iff {lib : Hashing} (injective : Function.Injective lib.orderId)
    {p : OrderParams} {date : Date} {s t x y : String}
    (hx : reconstructOrderParamsHash lib p s date = .ok x)
    (hy : reconstructOrderParamsHash lib p t date = .ok y) : x = y ↔ s = t := by
  unfold reconstructOrderParamsHash at hx hy
  cases htext : p.text with
  | error e =>
      rw [htext] at hx
      cases hx
  | ok text =>
      rw [htext] at hx hy
      cases hx
      cases hy
      rw [injective.eq_iff, String.append_right_inj, String.append_left_inj]

/-! ## Spacing -/

structure Spacing where
  numSlices : Nat
  intervalSeconds : Nat
  deriving DecidableEq, Repr

/-- Slices that the requested spacing gives. -/
def baseSlices (durationMinutes intervalSeconds : Nat) : Nat :=
  max 1 (ceilQuotient (durationMinutes * 60) intervalSeconds)

/-- Slices that the cap on one slice's quantity asks for. -/
def liquiditySlices (qty : Nat) : Option Nat → Nat
  | none => 0
  | some maxSliceQty => max 1 (ceilQuotient qty maxSliceQty)

def checkMaxSliceQty (qty : Nat) : Option Nat → Except PlanError Unit
  | none => .ok ()
  | some maxSliceQty =>
      if maxSliceQty < 1 then
        .error (.valueError s!"max_slice_qty must be at least 1, got {maxSliceQty}")
      else if overflows (qty / maxSliceQty) then .error .overflowError
      else .ok ()

/-- The slice count, and the interval that keeps a raised count within the duration. A count
that was raised is at least two. -/
def spacing (qty durationMinutes intervalSeconds : Nat) (maxSliceQty : Option Nat) :
    Except PlanError Spacing :=
  let base := baseSlices durationMinutes intervalSeconds
  let numSlices := max base (liquiditySlices qty maxSliceQty)
  let maxInterval := durationMinutes * 60 / (numSlices - 1)
  if overflows ((durationMinutes * 60 : Nat) / intervalSeconds) then .error .overflowError
  else match checkMaxSliceQty qty maxSliceQty with
    | .error e => .error e
    | .ok () =>
        if numSlices ≤ base then .ok ⟨numSlices, intervalSeconds⟩
        else if maxInterval < 1 then
          .error (.valueError ("Liquidity constraint requires more slices than can fit within " ++
            "duration at 1s minimum interval"))
        else .ok ⟨numSlices, maxInterval⟩

/-- The interval of an accepted plan: the requested one unless the cap raised the count. -/
theorem spacing_ok {qty d i : Nat} {cap : Option Nat} {s : Spacing}
    (h : spacing qty d i cap = .ok s) :
    s.numSlices = max (baseSlices d i) (liquiditySlices qty cap) ∧
      s.intervalSeconds = if liquiditySlices qty cap ≤ baseSlices d i then i
        else d * 60 / (liquiditySlices qty cap - 1) := by
  unfold spacing at h
  generalize baseSlices d i = base at h ⊢
  generalize liquiditySlices qty cap = wanted at h ⊢
  split at h
  · cases h
  · split at h
    · cases h
    · by_cases hbase : wanted ≤ base
      · rw [if_pos (by omega)] at h
        cases h
        exact ⟨rfl, (if_pos hbase).symm⟩
      · rw [if_neg (by omega)] at h
        split at h
        · cases h
        · cases h
          refine ⟨rfl, ?_⟩
          rw [if_neg hbase, Nat.max_eq_right (by omega)]

/-! ## The plan -/

/-- Instants count microseconds. -/
def second : Timestamp := 1000000

@[ext]
structure SliceDetail where
  sliceNum : Nat
  qty : Int
  scheduledTime : Timestamp
  clientOrderId : String
  strategyId : String
  status : OrderStatus
  qty_pos : 0 < qty

instance : DecidableEq SliceDetail := fun _ _ => decidable_of_iff' _ SliceDetail.ext_iff

structure SlicingPlan where
  parentOrderId : String
  parentStrategyId : String
  symbol : String
  side : Side
  totalQty : Nat
  totalSlices : Nat
  durationMinutes : Nat
  intervalSeconds : Nat
  slices : List SliceDetail
  deriving DecidableEq

def parentStrategyId (durationMinutes intervalSeconds : Nat) : String :=
  "twap_parent_" ++ (toString durationMinutes ++ ("m_" ++ (toString intervalSeconds ++ "s")))

/-- The strategy spells the interval out. -/
theorem parentStrategyId_inj {d i j : Nat} :
    parentStrategyId d i = parentStrategyId d j ↔ i = j := by
  unfold parentStrategyId
  rw [String.append_right_inj, String.append_right_inj, String.append_right_inj,
    String.append_left_inj]
  constructor
  · intro h
    -- The decimal digits determine the number.
    have hdigits : i.repr.toList = j.repr.toList := congrArg String.toList h
    rw [Nat.toList_repr, Nat.toList_repr] at hdigits
    rw [← Nat.ofDigitChars_ten_toDigits (n := i), hdigits, Nat.ofDigitChars_ten_toDigits]
  · exact congrArg toString

/-- The text whose digest seeds the sampling. -/
def seedText (p : OrderParams) (durationMinutes intervalSeconds : Nat)
    (tradeDate : Option Date) : String :=
  p.symbol ++ "_" ++ p.side.text ++ "_" ++ toString p.qty ++ "_" ++ toString durationMinutes ++
    "_" ++ toString intervalSeconds ++ tradeDate.elim "" fun date => "_" ++ date.isoformat

/-- Equal quantities, and one share more at each of the sampled indices. -/
def sliceQtys (lib : Hashing) (p : OrderParams) (durationMinutes : Nat) (s : Spacing)
    (tradeDate : Option Date) : List Nat :=
  let remainder := p.qty % s.numSlices
  let seed := lib.seed (seedText p durationMinutes s.intervalSeconds tradeDate)
  let extra := if 0 < remainder then lib.sample seed s.numSlices remainder else []
  extra.foldl (fun qtys i => qtys.modify i (· + 1))
    (List.replicate s.numSlices (p.qty / s.numSlices))

def makeSlice (lib : Hashing) (p : OrderParams) (parentOrderId : String) (orderDate : Date)
    (intervalSeconds : Nat) (now : Timestamp) (i sliceQty : Nat) :
    Except PlanError SliceDetail := do
  let strategyId := "twap_slice_" ++ parentOrderId ++ "_" ++ toString i
  let clientOrderId ←
    reconstructOrderParamsHash lib { p with qty := sliceQty } strategyId orderDate
  if qty_pos : 0 < (sliceQty : Int) then
    return ⟨i, sliceQty, now + i * intervalSeconds * second, clientOrderId, strategyId,
      .pendingNew, qty_pos⟩
  else throw (.valueError "Input should be greater than 0")

def checkArguments (qty durationMinutes intervalSeconds : Nat) : Except PlanError Unit :=
  if qty < 1 then .error (.valueError s!"qty must be at least 1, got {qty}")
  else if durationMinutes < 1 then
    .error (.valueError s!"duration_minutes must be at least 1, got {durationMinutes}")
  else if intervalSeconds < 1 then
    .error (.valueError s!"interval_seconds must be at least 1, got {intervalSeconds}")
  else .ok ()

def checkQty (qty numSlices : Nat) : Except PlanError Unit :=
  if qty < numSlices then
    .error (.valueError (s!"qty ({qty}) must be >= number of slices ({numSlices}) derived from " ++
      "duration and interval to avoid zero-quantity slices"))
  else .ok ()

def checkPrices (p : OrderParams) : Except PlanError Unit :=
  if p.orderType ∈ [.limit, .stopLimit] ∧ p.limitPrice = none then
    .error (.valueError s!"{p.orderType.text} orders require limit_price")
  else if p.orderType ∈ [.stop, .stopLimit] ∧ p.stopPrice = none then
    .error (.valueError s!"{p.orderType.text} orders require stop_price")
  else .ok ()

/-- `today` is the UTC date of `now`, the date of the ids when none is given. -/
def plan (lib : Hashing) (p : OrderParams) (durationMinutes intervalSeconds : Nat)
    (maxSliceQty : Option Nat) (tradeDate : Option Date) (now : Timestamp) (today : Date) :
    Except PlanError SlicingPlan := do
  checkArguments p.qty durationMinutes intervalSeconds
  let s ← spacing p.qty durationMinutes intervalSeconds maxSliceQty
  checkQty p.qty s.numSlices
  checkPrices p
  let orderDate := tradeDate.getD today
  let strategyId := parentStrategyId durationMinutes s.intervalSeconds
  let parentOrderId ← reconstructOrderParamsHash lib p strategyId orderDate
  let slices ← (sliceQtys lib p durationMinutes s tradeDate).zipIdx.mapM fun (qty, i) =>
    makeSlice lib p parentOrderId orderDate s.intervalSeconds now i qty
  return ⟨parentOrderId, strategyId, p.symbol, p.side, p.qty, s.numSlices, durationMinutes,
    s.intervalSeconds, slices⟩

/-- The parent's id hashes the interval that the spacing settled on. -/
theorem plan_ok {lib : Hashing} {p : OrderParams} {d i : Nat} {cap : Option Nat}
    {tradeDate : Option Date} {now : Timestamp} {today : Date} {r : SlicingPlan}
    (h : plan lib p d i cap tradeDate now today = .ok r) :
    ∃ s, spacing p.qty d i cap = .ok s ∧
      reconstructOrderParamsHash lib p (parentStrategyId d s.intervalSeconds)
        (tradeDate.getD today) = .ok r.parentOrderId := by
  unfold plan at h
  obtain ⟨-, -, h⟩ := Except.bind_ok h
  obtain ⟨s, hspacing, h⟩ := Except.bind_ok h
  obtain ⟨-, -, h⟩ := Except.bind_ok h
  obtain ⟨-, -, h⟩ := Except.bind_ok h
  obtain ⟨parentOrderId, hparent, h⟩ := Except.bind_ok h
  obtain ⟨slices, hslices, h⟩ := Except.bind_ok h
  cases h
  exact ⟨s, hspacing, hparent⟩

end TradingPlatform.Gateway
