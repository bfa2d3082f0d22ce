import TradingPlatform.Gateway.Schema

/-! # Modifications under a kill switch

While the kill switch is engaged or the breaker has tripped, only modifications
that reduce risk go through. The check projects the position with the whole
quantity of the order, although the position already has what is filled.
-/

namespace TradingPlatform.Gateway

open Base

inductive ExecutionStyle where
  | instant | twap
  deriving DecidableEq, Repr

structure OrderDetail extends OrderRow where
  executionStyle : Option ExecutionStyle

/-- The fields of a request that are read here. -/
structure OrderModifyRequest where
  qty : Option { n : Int // 0 < n }
  limitPrice : Option Price
  stopPrice : Option Price
  timeInForce : Option TimeInForce

/-- A price is given and is not that of the order. -/
def pricesDiffer (given stored : Option Price) : Bool :=
  match given, stored with
  | none, _ => false
  | some _, none => true
  | some given, some stored => !given.val.sameValue stored.val

/-- Nothing but the quantity of an order of its own may change. -/
def quantityOnly (order : OrderDetail) (payload : OrderModifyRequest) : Bool :=
  !(order.executionStyle = some .twap || order.parentOrderId.isSome) &&
    !pricesDiffer payload.limitPrice order.limitPrice &&
    !pricesDiffer payload.stopPrice order.stopPrice &&
    !(payload.timeInForce.any (· ≠ order.timeInForce))

/-- `_is_strictly_risk_reducing`; there is no position when the query fails. -/
def isStrictlyRiskReducing (order : OrderDetail) (payload : OrderModifyRequest)
    (currentQty : Option Int) : Bool :=
  match payload.qty, currentQty with
  | some newQty, some currentQty =>
      quantityOnly order payload &&
        let oldPending := if order.side = .buy then order.qty else -order.qty
        let newPending := if order.side = .buy then newQty.val else -newQty.val
        |currentQty + newPending| < |currentQty + oldPending|
  | _, _ => false

/-- A state of a switch that can be read. -/
abbrev SwitchState := Option Bool

/-- `_check_modify_safety_gates`: the detail of the refusal. -/
def checkModifySafetyGates (killSwitch circuitBreaker : SwitchState) (order : OrderDetail)
    (payload : OrderModifyRequest) (currentQty : Option Int) : Except String Unit :=
  match killSwitch, circuitBreaker with
  | none, _ => .error "Kill-switch state unavailable (fail-closed)"
  | some _, none => .error "Circuit-breaker state unavailable (fail-closed)"
  | some engaged, some tripped =>
      if (engaged || tripped) && !isStrictlyRiskReducing order payload currentQty then
        .error ("Order modifications blocked: " ++
          (if engaged then "kill switch" else "circuit breaker") ++
          " engaged. Only strictly risk-reducing qty decreases allowed.")
      else .ok ()

/-- While a switch is on, the gates are the check. -/
theorem checkModifySafetyGates_ok {engaged tripped : Bool} (h : (engaged || tripped) = true)
    (order : OrderDetail) (payload : OrderModifyRequest) (currentQty : Option Int) :
    checkModifySafetyGates (some engaged) (some tripped) order payload currentQty = .ok () ↔
      isStrictlyRiskReducing order payload currentQty = true := by
  unfold checkModifySafetyGates
  cases isStrictlyRiskReducing order payload currentQty <;> simp [h]

/-- What `_validate_modify_position_limits` projects: what is open of `qty` executes. -/
def OrderDetail.projected (order : OrderDetail) (currentQty qty : Int) : ℚ :=
  let openQty := qty - order.filledQty.toRat
  currentQty + (if order.side = .buy then openQty else -openQty)

/-- The quantity falls, and with it the position that the order can lead to. -/
def ReducesRisk (order : OrderDetail) (newQty currentQty : Int) : Prop :=
  newQty < order.qty ∧
    |order.projected currentQty newQty| < |order.projected currentQty order.qty|

/-- The position in the direction of the order. -/
def OrderDetail.held (order : OrderDetail) (currentQty : Int) : Int := order.side.sign * currentQty

/-- A larger order against a position that stays larger than the order. -/
def RaisesAgainst (order : OrderDetail) (newQty currentQty : Int) : Prop :=
  order.qty < newQty ∧ 2 * order.held currentQty + order.qty + newQty < 0

/-- Without the filled quantity, what the order leads to is on the other side of zero. -/
def CountsFillsTwice (order : OrderDetail) (newQty currentQty : Int) : Prop :=
  newQty < order.qty ∧ 0 < 2 * order.held currentQty + order.qty + newQty ∧
    ((2 * order.held currentQty + order.qty + newQty : Int) : ℚ) ≤ 2 * order.filledQty.toRat

/-! ## Projections in the direction of the order -/

section Projections

variable {order : OrderDetail} {payload : OrderModifyRequest} {newQty currentQty : Int}

theorem abs_lt_abs_iff {a b : ℚ} :
    |a| < |b| ↔ (a < b ∧ 0 < a + b) ∨ (b < a ∧ a + b < 0) := by
  rw [← sq_lt_sq, ← sub_pos, show b ^ 2 - a ^ 2 = (b - a) * (a + b) by ring, mul_pos_iff, sub_pos,
    sub_neg]

theorem abs_pending (qty : ℚ) :
    |(currentQty : ℚ) + (if order.side = .buy then qty else -qty)| =
      |(order.held currentQty : ℚ) + qty| := by
  unfold OrderDetail.held
  cases order.side with
  | buy => simp [Side.sign]
  | sell =>
      rw [← abs_neg]
      congr 1
      simp [Side.sign]
      ring

theorem isStrictlyRiskReducing_iff {qty : { n : Int // 0 < n }} (hqty : payload.qty = some qty) :
    isStrictlyRiskReducing order payload (some currentQty) = true ↔
      quantityOnly order payload = true ∧
        |(order.held currentQty : ℚ) + qty.val| < |(order.held currentQty : ℚ) + order.qty| := by
  rw [← abs_pending, ← abs_pending]
  simp only [isStrictlyRiskReducing, hqty, Bool.and_eq_true, decide_eq_true_eq]
  refine and_congr_right fun _ => ?_
  rw [← Int.cast_lt (R := ℚ), Int.cast_abs, Int.cast_abs]
  cases order.side <;> simp

theorem reducesRisk_iff : ReducesRisk order newQty currentQty ↔
    newQty < order.qty ∧ |(order.held currentQty : ℚ) + (newQty - order.filledQty.toRat)| <
      |(order.held currentQty : ℚ) + (order.qty - order.filledQty.toRat)| := by
  rw [ReducesRisk, OrderDetail.projected, OrderDetail.projected, abs_pending, abs_pending]

/-- Where the check passes, it is wrong exactly in the two kinds of cases. -/
theorem reducesRisk_of_passed (h : |(order.held currentQty : ℚ) + newQty| <
      |(order.held currentQty : ℚ) + order.qty|) :
    ReducesRisk order newQty currentQty ↔
      ¬RaisesAgainst order newQty currentQty ∧ ¬CountsFillsTwice order newQty currentQty := by
  rw [reducesRisk_iff, abs_lt_abs_iff]
  rw [abs_lt_abs_iff] at h
  simp only [RaisesAgainst, CountsFillsTwice, ← Int.cast_lt (R := ℚ)]
  push_cast
  rcases h with ⟨hless, hsum⟩ | ⟨hmore, hsum⟩
  · have hqty : (newQty : ℚ) < order.qty := by linarith
    have hraise : ¬((order.qty : ℚ) < newQty) := not_lt.mpr hqty.le
    have hboth : 0 < 2 * (order.held currentQty : ℚ) + order.qty + newQty := by linarith
    simp only [hqty, hraise, hboth, true_and, false_and, not_false_eq_true, not_le]
    constructor
    · rintro (⟨-, hopen⟩ | ⟨habsurd, -⟩)
      · linarith
      · linarith
    · intro hopen
      exact Or.inl ⟨by linarith, by linarith⟩
  · have hqty : (order.qty : ℚ) < newQty := by linarith
    have hsum' : 2 * (order.held currentQty : ℚ) + order.qty + newQty < 0 := by linarith
    apply iff_of_false
    · intro h
      exact lt_asymm h.1 hqty
    · intro h
      exact h.1 ⟨hqty, hsum'⟩

/-- Both kinds of cases pass the check. -/
theorem not_raises_of_refused (h : ¬|(order.held currentQty : ℚ) + newQty| <
      |(order.held currentQty : ℚ) + order.qty|) :
    ¬RaisesAgainst order newQty currentQty ∧ ¬CountsFillsTwice order newQty currentQty := by
  rw [abs_lt_abs_iff, not_or] at h
  simp only [RaisesAgainst, CountsFillsTwice, ← Int.cast_lt (R := ℚ)]
  push_cast
  constructor
  · rintro ⟨hqty, hsum⟩
    exact h.2 ⟨by linarith, by linarith⟩
  · rintro ⟨hqty, hsum, -⟩
    exact h.1 ⟨by linarith, by linarith⟩

/-- What the check lets through reduces risk unless the order grows against a larger
position or the filled quantity is counted twice across zero. -/
theorem risk_reducing_is_reducing_iff (order : OrderDetail) (payload : OrderModifyRequest)
    (currentQty : Int) :
    (isStrictlyRiskReducing order payload (some currentQty) = true →
      ∀ newQty ∈ payload.qty, ReducesRisk order newQty.val currentQty) ↔
    (quantityOnly order payload = true → ∀ newQty ∈ payload.qty,
      ¬RaisesAgainst order newQty.val currentQty ∧
        ¬CountsFillsTwice order newQty.val currentQty) := by
  cases hqty : payload.qty with
  | none => simp
  | some newQty =>
      simp only [isStrictlyRiskReducing_iff hqty, Option.mem_def, Option.some.injEq,
        forall_eq']
      constructor
      · intro h honly
        by_cases hpassed : |(order.held currentQty : ℚ) + newQty.val| <
            |(order.held currentQty : ℚ) + order.qty|
        · exact (reducesRisk_of_passed hpassed).mp (h ⟨honly, hpassed⟩)
        · exact not_raises_of_refused hpassed
      · intro h hpassed
        exact (reducesRisk_of_passed hpassed.2).mpr (h hpassed.1)

end Projections

/-- An order to buy ten shares, five of them bought. -/
def halfFilled : OrderDetail where
  toOrderRow := { OrderRow.defaults tenShares "o-1" "alpha" .partiallyFilled 0 with filledQty := 5 }
  executionStyle := some .instant

def fewer : OrderModifyRequest := ⟨some ⟨7, by decide⟩, none, none, none⟩

/-- Six shares short, the order was to leave one share short and now leaves four. -/
theorem fewer_shares_raise_risk :
    ¬(isStrictlyRiskReducing halfFilled fewer (some (-6)) = true →
      ∀ newQty ∈ fewer.qty, ReducesRisk halfFilled newQty.val (-6)) := by
  intro h
  have hreduces := (h (by decide) ⟨7, by decide⟩ rfl).2
  have hfilled : halfFilled.filledQty.toRat = 5 := Decimal.toRat_ofInt 5
  rw [OrderDetail.projected, OrderDetail.projected, hfilled] at hreduces
  norm_num [halfFilled, OrderRow.defaults, tenShares, sampleRequest] at hreduces

end TradingPlatform.Gateway
