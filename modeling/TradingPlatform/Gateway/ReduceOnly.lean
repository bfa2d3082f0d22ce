import Mathlib.Algebra.BigOperators.Group.List.Basic
import Mathlib.Algebra.Order.BigOperators.Group.List
import TradingPlatform.Base.Run
import TradingPlatform.Gateway.Schema

/-! # Orders that only reduce

Until the startup reconciliation is complete, an order passes if it is against
the position and no larger than what the open orders of its side leave of it.
The run below has such orders, fills and orders that close.
-/

namespace TradingPlatform.Gateway

open Base

/-- An open order as the broker lists it. -/
structure OpenOrder where
  side : Side
  qty : ℚ
  filledQty : ℚ
  deriving DecidableEq, Repr

def OpenOrder.remaining (order : OpenOrder) : ℚ := order.qty - order.filledQty

/-- What the order adds to the total of the side. -/
def OpenOrder.pending (side : Side) (order : OpenOrder) : ℚ :=
  if order.side = side ∧ 0 < order.remaining then order.remaining else 0

/-- `_calculate_pending_order_qty` -/
def calculatePendingOrderQty (openOrders : List OpenOrder) (side : Side) : ℚ :=
  (openOrders.map (OpenOrder.pending side)).sum

/-- `_is_reduce_only_order` -/
def isReduceOnlyOrder (order : OrderRequest) (brokerPosition : Option ℚ)
    (openOrders : List OpenOrder) : Bool :=
  match brokerPosition with
  | none => false
  | some currentQty =>
      if currentQty = 0 then false
      else
        let pendingSells := calculatePendingOrderQty openOrders .sell
        let pendingBuys := calculatePendingOrderQty openOrders .buy
        if 0 < currentQty then order.side = .sell && order.qty ≤ currentQty - pendingSells
        else order.side = .buy && order.qty ≤ |currentQty| - pendingBuys

/-- What the gate has read; a read that failed is `none`. -/
structure GateReads where
  overrideActive : Bool
  reconciliationReady : Bool
  brokerAvailable : Bool
  brokerPosition : Option (Option ℚ)
  openOrders : Option (List OpenOrder)

inductive GateRefusal where
  | brokerUnavailable | reconciliationInProgress
  deriving DecidableEq, Repr

/-- `_require_reconciliation_ready_or_reduce_only` -/
def requireReconciliationReadyOrReduceOnly (reads : GateReads) (order : OrderRequest) :
    Except GateRefusal Unit :=
  if reads.overrideActive || reads.reconciliationReady then .ok ()
  else if !reads.brokerAvailable then .error .brokerUnavailable
  else
    match reads.brokerPosition with
    | none => .error .brokerUnavailable
    | some position =>
        -- the position alone decides when the open orders cannot be read
        if isReduceOnlyOrder order position (reads.openOrders.getD []) then .ok ()
        else .error .reconciliationInProgress

/-- A closed gate passes the orders that the broker's answers show to reduce only. -/
theorem requireReconciliationReadyOrReduceOnly_ok {reads : GateReads} {position : Option ℚ}
    (hclosed : (reads.overrideActive || reads.reconciliationReady) = false)
    (hbroker : reads.brokerAvailable = true) (hposition : reads.brokerPosition = some position)
    (order : OrderRequest) :
    requireReconciliationReadyOrReduceOnly reads order = .ok () ↔
      isReduceOnlyOrder order position (reads.openOrders.getD []) = true := by
  unfold requireReconciliationReadyOrReduceOnly
  rw [hclosed, hbroker, hposition]
  cases hreduces : isReduceOnlyOrder order position (reads.openOrders.getD []) <;> simp [hreduces]

/-! ## Runs -/

/-- The position and the open orders of a symbol at the broker. -/
structure BrokerBook where
  position : ℚ
  openOrders : List OpenOrder

/-- A flat position is not listed. -/
def BrokerBook.brokerPosition (book : BrokerBook) : Option ℚ :=
  if book.position = 0 then none else some book.position

/-- Filled, canceled and expired orders close. -/
inductive BookEvent where
  | submit (order : OrderRequest)
  | fill (index : ℕ) (amount : ℚ)
  | close (index : ℕ)

def OpenOrder.fill (order : OpenOrder) (amount : ℚ) : OpenOrder :=
  { order with filledQty := order.filledQty + amount }

def bookStep (book : BrokerBook) : BookEvent → BrokerBook
  | .submit order =>
      if isReduceOnlyOrder order book.brokerPosition book.openOrders then
        { book with openOrders := book.openOrders ++ [⟨order.side, order.qty, 0⟩] }
      else book
  | .fill index amount =>
      match book.openOrders[index]? with
      | none => book
      | some order =>
          if 0 < amount ∧ amount ≤ order.remaining then
            { position := book.position + order.side.sign * amount
              openOrders := book.openOrders.set index (order.fill amount) }
          else book
  | .close index => { book with openOrders := book.openOrders.eraseIdx index }

/-- The side that reduces a position. -/
def reducingSide (position : ℚ) : Side := if 0 < position then .sell else .buy

/-- No order on the other side fills. -/
def FillsOn (side : Side) (book : BrokerBook) : BookEvent → Prop
  | .fill index _ => ∀ order ∈ book.openOrders[index]?, order.side = side
  | _ => True

instance (side : Side) (book : BrokerBook) : ∀ event, Decidable (FillsOn side book event)
  | .submit _ => .isTrue trivial
  | .fill index _ =>
      inferInstanceAs (Decidable (∀ order ∈ book.openOrders[index]?, order.side = side))
  | .close _ => .isTrue trivial

/-- The position is on its side of zero, and has room for what is open against it. -/
structure Covered (side : Side) (book : BrokerBook) : Prop where
  sided : side.sign * book.position ≤ 0
  room : calculatePendingOrderQty book.openOrders side ≤ |book.position|

/-! ## Steps -/

section Steps

variable {book : BrokerBook} {side : Side} {order : OrderRequest}

theorem pending_nonneg (side : Side) (order : OpenOrder) : 0 ≤ order.pending side := by
  unfold OpenOrder.pending
  split
  · rename_i h
    exact h.2.le
  · exact le_rfl

theorem calculatePendingOrderQty_nonneg (openOrders : List OpenOrder) (side : Side) :
    0 ≤ calculatePendingOrderQty openOrders side := by
  apply List.sum_nonneg
  intro x hx
  obtain ⟨order, -, rfl⟩ := List.mem_map.mp hx
  exact pending_nonneg side order

theorem calculatePendingOrderQty_submit (openOrders : List OpenOrder) (h : order.side = side) :
    calculatePendingOrderQty (openOrders ++ [⟨order.side, order.qty, 0⟩]) side =
      calculatePendingOrderQty openOrders side + order.qty := by
  have hqty : (0 : ℚ) < order.qty := Int.cast_pos.mpr order.qty_pos
  simp [calculatePendingOrderQty, OpenOrder.pending, OpenOrder.remaining, h, hqty]

theorem pending_fill {openOrder : OpenOrder} {amount : ℚ} (hside : openOrder.side = side)
    (hpos : 0 < amount) (hle : amount ≤ openOrder.remaining) :
    (openOrder.fill amount).pending side = openOrder.pending side - amount := by
  have hrest : (openOrder.fill amount).remaining = openOrder.remaining - amount := by
    simp only [OpenOrder.remaining, OpenOrder.fill]
    ring
  have hopen : 0 < openOrder.remaining := hpos.trans_le hle
  have hsame : (openOrder.fill amount).side = side := hside
  have hbefore : openOrder.pending side = openOrder.remaining := if_pos ⟨hside, hopen⟩
  rw [hbefore, OpenOrder.pending, hrest]
  split
  · rfl
  · rename_i h
    have := not_lt.mp fun hlt => h ⟨hsame, hlt⟩
    linarith

theorem calculatePendingOrderQty_fill {openOrders : List OpenOrder} {index : ℕ}
    {openOrder : OpenOrder} {amount : ℚ} (hfound : openOrders[index]? = some openOrder)
    (hside : openOrder.side = side) (hpos : 0 < amount) (hle : amount ≤ openOrder.remaining) :
    calculatePendingOrderQty (openOrders.set index (openOrder.fill amount)) side =
      calculatePendingOrderQty openOrders side - amount := by
  obtain ⟨hlt, hget⟩ := List.getElem?_eq_some_iff.mp hfound
  have hlt' : index < (openOrders.map (OpenOrder.pending side)).length := by
    rwa [List.length_map]
  rw [calculatePendingOrderQty, List.map_set, List.sum_set', dif_pos hlt', List.getElem_map, hget,
    pending_fill hside hpos hle, calculatePendingOrderQty]
  ring

theorem calculatePendingOrderQty_close (openOrders : List OpenOrder) (index : ℕ) :
    calculatePendingOrderQty (openOrders.eraseIdx index) side ≤
      calculatePendingOrderQty openOrders side := by
  apply List.Sublist.sum_le_sum ((List.eraseIdx_sublist openOrders index).map _)
  intro x hx
  obtain ⟨order, -, rfl⟩ := List.mem_map.mp hx
  exact pending_nonneg side order

/-- An open order is part of what is open. -/
theorem remaining_le {openOrders : List OpenOrder} {openOrder : OpenOrder}
    (hmem : openOrder ∈ openOrders) (hside : openOrder.side = side) :
    openOrder.remaining ≤ calculatePendingOrderQty openOrders side := by
  have hle : openOrder.pending side ≤ calculatePendingOrderQty openOrders side := by
    apply List.single_le_sum _ _ (List.mem_map_of_mem hmem)
    intro x hx
    obtain ⟨order, -, rfl⟩ := List.mem_map.mp hx
    exact pending_nonneg side order
  apply le_trans _ hle
  unfold OpenOrder.pending
  split
  · exact le_rfl
  · rename_i h
    exact not_lt.mp fun hlt => h ⟨hside, hlt⟩

theorem abs_position (h : side.sign * book.position ≤ 0) :
    |book.position| = -(side.sign * book.position) := by
  cases side with
  | buy =>
      simp only [Side.sign, Int.cast_one, one_mul] at h ⊢
      exact abs_of_nonpos h
  | sell =>
      simp only [Side.sign, Int.cast_neg, Int.cast_one, neg_mul, one_mul, neg_neg] at h ⊢
      exact abs_of_nonneg (by linarith)

/-- What is accepted is on the reducing side and fits. -/
theorem accepted_spec (h : side.sign * book.position ≤ 0)
    (haccepted : isReduceOnlyOrder order book.brokerPosition book.openOrders = true) :
    order.side = side ∧
      order.qty + calculatePendingOrderQty book.openOrders side ≤ |book.position| := by
  unfold BrokerBook.brokerPosition at haccepted
  split at haccepted
  · cases haccepted
  · rename_i hopen
    simp only [isReduceOnlyOrder, if_neg hopen] at haccepted
    split at haccepted
    · rename_i hlong
      have hside : side = .sell := by
        cases side with
        | buy =>
            simp only [Side.sign, Int.cast_one, one_mul] at h
            exact absurd hlong (not_lt.mpr h)
        | sell => rfl
      simp only [Bool.and_eq_true, decide_eq_true_eq] at haccepted
      rw [hside, abs_of_pos hlong]
      exact ⟨haccepted.1, by linarith [haccepted.2]⟩
    · rename_i hshort
      have hside : side = .buy := by
        cases side with
        | buy => rfl
        | sell =>
            simp only [Side.sign, Int.cast_neg, Int.cast_one, neg_mul, one_mul] at h
            exact absurd (le_antisymm (not_lt.mp hshort) (by linarith)) hopen
      simp only [Bool.and_eq_true, decide_eq_true_eq] at haccepted
      rw [hside]
      exact ⟨haccepted.1, by linarith [haccepted.2]⟩

theorem sign_mul_sign (side : Side) : (side.sign : ℚ) * side.sign = 1 := by
  cases side <;> norm_num [Side.sign]

/-- Nothing but a fill moves the position, and a fill moves it towards zero. -/
theorem covered_step {event : BookEvent} (h : Covered side book)
    (hfills : FillsOn side book event) :
    Covered side (bookStep book event) ∧ |(bookStep book event).position| ≤ |book.position| := by
  cases event with
  | submit order =>
      simp only [bookStep]
      split
      · rename_i haccepted
        obtain ⟨hside, hfits⟩ := accepted_spec h.sided haccepted
        refine ⟨⟨h.sided, ?_⟩, le_rfl⟩
        rw [calculatePendingOrderQty_submit _ hside]
        linarith
      · exact ⟨h, le_rfl⟩
  | fill index amount =>
      cases hfound : book.openOrders[index]? with
      | none => simpa only [bookStep, hfound] using ⟨h, le_rfl⟩
      | some openOrder =>
          simp only [bookStep, hfound]
          split
          · rename_i hamount
            have hside : openOrder.side = side := hfills openOrder hfound
            have hopen := remaining_le (List.mem_of_getElem? hfound) hside
            have hroom := h.room
            have habs := abs_position h.sided
            have hmoved : (side.sign : ℚ) * (book.position + openOrder.side.sign * amount) =
                side.sign * book.position + amount := by
              rw [hside, mul_add, ← mul_assoc, sign_mul_sign, one_mul]
            have hsided : (side.sign : ℚ) * (book.position + openOrder.side.sign * amount) ≤ 0 := by
              rw [hmoved]
              linarith [hamount.2]
            have habs' : |book.position + openOrder.side.sign * amount| =
                |book.position| - amount := by
              let after : BrokerBook :=
                ⟨book.position + openOrder.side.sign * amount, book.openOrders⟩
              have hafter : |after.position| = -(side.sign * after.position) :=
                abs_position hsided
              simp only [after] at hafter
              rw [hafter, hmoved, habs]
              ring
            refine ⟨⟨hsided, ?_⟩, ?_⟩
            · simp only
              rw [calculatePendingOrderQty_fill hfound hside hamount.1 hamount.2, habs']
              linarith
            · simp only
              rw [habs']
              linarith [hamount.1]
          · exact ⟨h, le_rfl⟩
  | close index =>
      exact ⟨⟨h.sided, (calculatePendingOrderQty_close _ _).trans h.room⟩, le_rfl⟩

theorem reducingSide_sided (position : ℚ) : (reducingSide position).sign * position ≤ 0 := by
  unfold reducingSide
  split
  · rename_i hlong
    simp only [Side.sign, Int.cast_neg, Int.cast_one, neg_mul, one_mul]
    linarith
  · rename_i hshort
    simpa [Side.sign] using hshort

theorem same_sign {position : ℚ} (h : (reducingSide position).sign * book.position ≤ 0) :
    0 ≤ position * book.position := by
  unfold reducingSide at h
  split at h
  · rename_i hlong
    simp only [Side.sign, Int.cast_neg, Int.cast_one, neg_mul, one_mul] at h
    exact mul_nonneg hlong.le (by linarith)
  · rename_i hshort
    simp only [Side.sign, Int.cast_one, one_mul] at h
    exact mul_nonneg_of_nonpos_of_nonpos (not_lt.mp hshort) h

end Steps

/-- While only the reducing side fills, the position moves towards zero and not past it. -/
theorem reduce_only_never_flips (book : BrokerBook) (events : List BookEvent)
    (hfills : EachStep bookStep (FillsOn (reducingSide book.position)) book events)
    (hroom : calculatePendingOrderQty book.openOrders (reducingSide book.position) ≤
      |book.position|) :
    EveryState bookStep (fun later => 0 ≤ book.position * later.position ∧
      calculatePendingOrderQty later.openOrders (reducingSide book.position) ≤
        |later.position|) book events ∧
    Along bookStep (fun earlier later => |later.position| ≤ |earlier.position|) book events := by
  obtain ⟨hcovered, hsteps⟩ := everyState_and_eachStep (fun _ _ => covered_step)
    ⟨reducingSide_sided book.position, hroom⟩ hfills
  constructor
  · apply EveryState.mono _ hcovered
    intro later h
    exact ⟨same_sign h.sided, h.room⟩
  · exact (@along_iff_eachStep _ _ _
      (fun earlier later : BrokerBook => |later.position| ≤ |earlier.position|)
      (fun _ => le_rfl) (fun _ _ _ h h' => h'.trans h) _ _).mpr hsteps

/-- Ten shares long, and an order to sell six of them. -/
def longTen : BrokerBook := ⟨10, [⟨.sell, 6, 0⟩]⟩

/-- A second order to sell fits, both fill in part, and one closes. -/
def reducingEvents : List BookEvent :=
  [.submit (sampleRequest .sell 4 (by decide)), .fill 1 3, .fill 0 6, .close 0]

theorem reduce_only_never_flips_long :
    EveryState bookStep (fun later => 0 ≤ longTen.position * later.position ∧
      calculatePendingOrderQty later.openOrders (reducingSide longTen.position) ≤
        |later.position|) longTen reducingEvents ∧
    Along bookStep (fun earlier later => |later.position| ≤ |earlier.position|) longTen
      reducingEvents :=
  reduce_only_never_flips longTen reducingEvents (by decide +kernel) (by decide +kernel)

/-- Orders that were open before the gate may be larger than the position. -/
theorem open_sells_flip_position :
    ¬(EachStep bookStep (FillsOn (reducingSide 10)) ⟨10, [⟨.sell, 20, 0⟩]⟩ [.fill 0 20] →
      EveryState bookStep (fun later => 0 ≤ 10 * later.position) ⟨10, [⟨.sell, 20, 0⟩]⟩
        [.fill 0 20]) := by
  decide +kernel

end TradingPlatform.Gateway
