import TradingPlatform.Base.Run
import TradingPlatform.Gateway.Routes

/-! # Positions against filled quantities

Runs of webhooks and cancellations on one order. The position of its symbol
should follow the whole shares of `orders.filled_qty`. One step is described by
what it adds to the position and where it leaves the filled quantity; the run
results follow from when the two agree.
-/

namespace TradingPlatform.Gateway

open Base

inductive GatewayStep where
  | webhook (e : OrderEvent) (now : Timestamp)
  | cancel (brokerOk : Bool) (now : Timestamp)

/-- The step concerns the order. -/
def GatewayStep.Concerns (cid : String) : GatewayStep → Prop
  | .webhook e _ => e.order.clientOrderId = some cid
  | .cancel _ _ => True

def gatewayStep (cid : String) (db : Database) : GatewayStep → Database
  | .webhook e now => committed db (handleOrderWebhook db e now)
  | .cancel brokerOk now => (cancelOrder db cid brokerOk now).1

/-- `int(orders.filled_qty)`. -/
def Database.filledWhole (db : Database) (cid : String) : Int :=
  (db.orders.find? cid).elim 0 (·.filledQty.trunc)

/-- The position has moved by what the filled quantity has grown since `start`. -/
def Accounted (cid : String) (r : OrderRow) (start db : Database) : Prop :=
  db.positionQty r.symbol - start.positionQty r.symbol =
    r.side.sign * (db.filledWhole cid - start.filledWhole cid)

instance (cid : String) (r : OrderRow) (start db : Database) :
    Decidable (Accounted cid r start db) :=
  inferInstanceAs (Decidable (_ = _))

/-- An event that reports new whole shares of an order not replaced passes the guard when it
books them, and fails it when it only reports them. -/
def StepAccounted (cid : String) (db : Database) : GatewayStep → Prop
  | .cancel _ _ => True
  | .webhook e now => ∀ r, db.orders.find? cid = some r → r.status ≠ .replaced →
      r.filledQty.trunc < e.reportedQty.trunc →
        match e.fillInfo? with
        | some (qty, avgPrice) =>
            (positionAfterFill db r.symbol (qty.trunc - r.filledQty.trunc)
              (e.price.getD avgPrice).toRat r.side).isSome → casAccepts r (e.key now) = true
        | none => e.order.status.isSome → casAccepts r (e.key now) = false

/-! ## The effect of one step -/

/-- The step adds `moved` to the position and leaves `filled` whole shares on the row. -/
structure Effect (cid : String) (r : OrderRow) (db db' : Database) (moved filled : Int) :
    Prop where
  row : ∃ r', db'.orders.find? cid = some r' ∧ r'.symbol = r.symbol ∧ r'.side = r.side ∧
    r'.filledQty.trunc = filled
  position : db'.positionQty r.symbol = db.positionQty r.symbol + moved

section Effects

variable {cid : String} {r : OrderRow} {db db' : Database}

theorem Effect.refl (hr : db.orders.find? cid = some r) :
    Effect cid r db db 0 r.filledQty.trunc := by
  refine ⟨⟨r, hr, rfl, rfl, rfl⟩, ?_⟩
  omega

theorem Effect.filledWhole {moved filled : Int} (h : Effect cid r db db' moved filled) :
    db'.filledWhole cid = filled := by
  obtain ⟨r', hr', -, -, hfilled⟩ := h.row
  rw [Database.filledWhole, hr']
  exact hfilled

/-- Whole shares after a conflict-resolving update. -/
def filledAfter (r : OrderRow) (accepts : Bool) (reported : Decimal) : Int :=
  if accepts then max r.filledQty.trunc reported.trunc else r.filledQty.trunc

theorem le_filledAfter (r : OrderRow) (accepts : Bool) (reported : Decimal) :
    r.filledQty.trunc ≤ filledAfter r accepts reported := by
  unfold filledAfter
  split
  · exact le_max_left _ _
  · exact le_refl _

/-- A report of no more whole shares leaves them as they are. -/
theorem filledAfter_of_le {reported : Decimal} (accepts : Bool)
    (h : reported.trunc ≤ r.filledQty.trunc) :
    filledAfter r accepts reported = r.filledQty.trunc := by
  unfold filledAfter
  split
  · exact max_eq_left h
  · rfl

theorem effect_cas (hr : db.orders.find? cid = some r) (u : CasUpdate) (now : Timestamp) :
    Effect cid r db (updateOrderStatusCas db cid u now).1 0
      (filledAfter r (casAccepts r u.key) u.newFilledQty) := by
  have hrow := updateOrderStatusCas_find? db cid u now
  have hframe := updateOrderStatusCas_frame db cid u now
  rw [hr, Option.map_some] at hrow
  refine ⟨⟨_, hrow, ?_⟩, ?_⟩
  · unfold filledAfter
    by_cases haccepts : casAccepts r u.key = true
    · rw [casUpdate_of_accepts haccepts, if_pos haccepts]
      exact ⟨rfl, rfl, Decimal.trunc_greatest _ _⟩
    · rw [casUpdate_of_not_accepts haccepts, if_neg haccepts]
      exact ⟨rfl, rfl, rfl⟩
  · simp only [Database.positionQty, hframe.2.1]
    omega

/-- The columns that the guard reads and the ones the accounting reads survive a booking. -/
theorem bookFill_effect {e : OrderEvent} {qty price : Decimal} {now : Timestamp}
    {booked : Database} (hr : db.orders.find? r.clientOrderId = some r)
    (h : bookFill db r e qty price now = .ok booked) :
    (∃ r', booked.orders.find? r.clientOrderId = some r' ∧
      r' = { r with metadata := r'.metadata, updatedAt := r'.updatedAt }) ∧
    booked.positionQty r.symbol = db.positionQty r.symbol +
      r.side.sign * max 0 (qty.trunc - r.filledQty.trunc) := by
  rcases bookFill_cases db r e qty price now with ⟨hle, hok⟩ | ⟨-, -, herror⟩ |
    ⟨moved, position, delta, hlt, hmoved, hok⟩
  · obtain rfl := Except.ok.inj (h.symm.trans hok)
    have hmax : max 0 (qty.trunc - r.filledQty.trunc) = 0 := by omega
    rw [hmax, mul_zero, add_zero]
    exact ⟨⟨r, hr, rfl⟩, rfl⟩
  · rw [herror] at h
    cases h
  · obtain rfl := Except.ok.inj (h.symm.trans hok)
    obtain ⟨horders, -, hqty, -⟩ := updatePositionOnFillWithConn_spec hmoved
    have hmax : max 0 (qty.trunc - r.filledQty.trunc) = qty.trunc - r.filledQty.trunc := by
      omega
    constructor
    · rw [appendFill_find?, horders, hr, Option.map_some]
      refine ⟨_, rfl, ?_⟩
      split <;> rfl
    · have hframe := (appendFill_frame moved r.clientOrderId
        (webhookFill r.clientOrderId qty (qty.trunc - r.filledQty.trunc) price delta
          (e.fillTimestamp now)) now).2.1
      rw [hmax, ← hqty]
      simp only [Database.positionQty, hframe]

theorem effect_statusEvent {e : OrderEvent} (now : Timestamp)
    (hr : db.orders.find? cid = some r) (hinfo : e.fillInfo? = none) :
    Effect cid r db (committed db (handleStatusEvent db cid e now)) 0
      (filledAfter r (r.status ≠ .replaced && e.order.status.isSome && casAccepts r (e.key now))
        e.reportedQty) := by
  rw [committed_statusEvent hr]
  by_cases hreplaced : r.status = .replaced
  · rw [if_pos hreplaced]
    simpa [filledAfter, hreplaced] using Effect.refl hr
  · rw [if_neg hreplaced]
    cases hstatus : e.order.status with
    | none => simpa [filledAfter] using Effect.refl hr
    | some status =>
        have heffect := effect_cas hr (statusUpdate e now status) now
        have hqty : (statusUpdate e now status).newFilledQty = e.reportedQty := rfl
        rw [statusUpdate_key hinfo hstatus, hqty] at heffect
        simpa [hreplaced] using heffect

/-- There is nothing to book, or the checks on the table admit the position after it. -/
def Bookable (db : Database) (r : OrderRow) (qty price : Decimal) : Prop :=
  qty.trunc ≤ r.filledQty.trunc ∨
    (positionAfterFill db r.symbol (qty.trunc - r.filledQty.trunc) price.toRat r.side).isSome

theorem bookable_of_ok {e : OrderEvent} {qty price : Decimal} {now : Timestamp}
    {booked : Database} (h : bookFill db r e qty price now = .ok booked) :
    Bookable db r qty price := by
  rcases bookFill_cases db r e qty price now with ⟨hle, -⟩ | ⟨-, -, herror⟩ |
    ⟨moved, position, delta, -, hmoved, -⟩
  · exact Or.inl hle
  · rw [herror] at h
    cases h
  · right
    rw [updatePositionOnFillWithConn, Option.map_eq_some_iff] at hmoved
    obtain ⟨p, hp, -⟩ := hmoved
    rw [hp]
    rfl

theorem not_bookable_of_error {e : OrderEvent} {qty price : Decimal} {now : Timestamp}
    {err : WriteError} (h : bookFill db r e qty price now = .error err) :
    ¬ Bookable db r qty price := by
  rcases bookFill_cases db r e qty price now with ⟨-, hok⟩ | ⟨hlt, hnone, -⟩ |
    ⟨_, _, _, -, -, hok⟩
  · rw [hok] at h
    cases h
  · simp [Bookable, hnone, hlt]
  · rw [hok] at h
    cases h

section Booked

variable {e : OrderEvent} {qty : Decimal} {avgPrice : Price} {now : Timestamp}
  {booked : Database}

/-- The guard reads no column that a booking writes. -/
theorem booked_guard (hr : db.orders.find? r.clientOrderId = some r)
    (hbook : bookFill db r e qty (e.price.getD avgPrice) now = .ok booked) :
    (booked.orders.find? r.clientOrderId).any (casAccepts · (e.key now)) =
      casAccepts r (e.key now) := by
  obtain ⟨⟨r', hr', heq⟩, -⟩ := bookFill_effect hr hbook
  rw [hr', Option.any_some, heq]
  rfl

/-- A booking by itself leaves the filled quantity as it is. -/
theorem effect_booked (hr : db.orders.find? r.clientOrderId = some r)
    (hbook : bookFill db r e qty (e.price.getD avgPrice) now = .ok booked) :
    Effect r.clientOrderId r db booked (r.side.sign * max 0 (qty.trunc - r.filledQty.trunc))
      r.filledQty.trunc := by
  obtain ⟨⟨r', hr', heq⟩, hposition⟩ := bookFill_effect hr hbook
  refine ⟨⟨r', hr', ?_⟩, hposition⟩
  rw [heq]
  exact ⟨rfl, rfl, rfl⟩

/-- A booking followed by the update of the row. -/
theorem effect_booked_cas {status : OrderStatus} (hr : db.orders.find? r.clientOrderId = some r)
    (hinfo : e.fillInfo? = some (qty, avgPrice)) (hstatus : e.order.status = some status)
    (hbook : bookFill db r e qty (e.price.getD avgPrice) now = .ok booked) :
    Effect r.clientOrderId r db
      (updateOrderStatusCas booked r.clientOrderId (fillCas e qty avgPrice now status) now).1
      (r.side.sign * max 0 (qty.trunc - r.filledQty.trunc))
      (filledAfter r (casAccepts r (e.key now)) qty) := by
  obtain ⟨⟨r', hr', heq⟩, hposition⟩ := bookFill_effect hr hbook
  have heffect := effect_cas hr' (fillCas e qty avgPrice now status) now
  have hkey := fillCas_key hinfo hstatus now
  have hguard : casAccepts r' (e.key now) = casAccepts r (e.key now) := by rw [heq]; rfl
  have hafter : filledAfter r' (casAccepts r (e.key now)) qty =
      filledAfter r (casAccepts r (e.key now)) qty := by rw [heq]; rfl
  have hfields : r'.symbol = r.symbol ∧ r'.side = r.side := by rw [heq]; exact ⟨rfl, rfl⟩
  rw [hkey, hguard] at heffect
  obtain ⟨⟨r'', hr'', hsymbol, hside, hfilled⟩, hpos⟩ := heffect
  refine ⟨⟨r'', hr'', hsymbol.trans hfields.1, hside.trans hfields.2, hfilled.trans hafter⟩, ?_⟩
  rw [hfields.1] at hpos
  rw [hpos, hposition, add_zero]

end Booked

/-- Whether a fill event gets as far as booking, and then as updating the row. -/
theorem effect_fillEvent {e : OrderEvent} {qty : Decimal} {avgPrice : Price} (now : Timestamp)
    (hr : db.orders.find? cid = some r) (hinfo : e.fillInfo? = some (qty, avgPrice)) :
    ∃ moved filled,
      Effect cid r db (committed db (handleFillEvent db cid e qty avgPrice now)) moved filled ∧
      ((moved = 0 ∧ filled = r.filledQty.trunc ∧
          (r.status = .replaced ∨ ¬ Bookable db r qty (e.price.getD avgPrice) ∨
            casAccepts r (e.key now) = true)) ∨
        (r.status ≠ .replaced ∧ Bookable db r qty (e.price.getD avgPrice) ∧
          moved = r.side.sign * max 0 (qty.trunc - r.filledQty.trunc) ∧
          filled = filledAfter r (casAccepts r (e.key now)) qty)) := by
  obtain rfl := Table.find?_key hr
  rw [committed_fillEvent hr]
  by_cases hreplaced : r.status = .replaced
  · rw [if_pos hreplaced]
    exact ⟨_, _, Effect.refl hr, Or.inl ⟨rfl, rfl, Or.inl hreplaced⟩⟩
  · rw [if_neg hreplaced]
    cases hbook : bookFill db r e qty (e.price.getD avgPrice) now with
    | error err =>
        refine ⟨_, _, Effect.refl hr, Or.inl ⟨rfl, rfl, Or.inr (Or.inl ?_)⟩⟩
        exact not_bookable_of_error hbook
    | ok booked =>
        have hcheck := bookable_of_ok hbook
        cases hstatus : e.order.status with
        | none =>
            simp only [booked_guard hr hbook]
            by_cases haccepts : casAccepts r (e.key now) = true
            · rw [if_pos haccepts]
              exact ⟨_, _, Effect.refl hr, Or.inl ⟨rfl, rfl, Or.inr (Or.inr haccepts)⟩⟩
            · rw [if_neg haccepts, filledAfter, if_neg haccepts]
              exact ⟨_, _, effect_booked hr hbook, Or.inr ⟨hreplaced, hcheck, rfl, rfl⟩⟩
        | some status =>
            have heffect := effect_booked_cas hr hinfo hstatus hbook
            exact ⟨_, _, heffect, Or.inr ⟨hreplaced, hcheck, rfl, rfl⟩⟩

theorem handleOrderWebhook_concerns {e : OrderEvent} (now : Timestamp)
    (hcid : e.order.clientOrderId = some cid) : handleOrderWebhook db e now =
      match e.fillInfo? with
      | none => handleStatusEvent db cid e now
      | some (qty, avgPrice) => handleFillEvent db cid e qty avgPrice now := by
  unfold handleOrderWebhook
  cases e.fillInfo? with
  | none => simp only [hcid]
  | some info => simp only [hcid]

theorem stepAccounted_webhook (hr : db.orders.find? cid = some r) (e : OrderEvent)
    (now : Timestamp) : StepAccounted cid db (.webhook e now) ↔
      (r.status ≠ .replaced → r.filledQty.trunc < e.reportedQty.trunc →
        match e.fillInfo? with
        | some (qty, avgPrice) =>
            (positionAfterFill db r.symbol (qty.trunc - r.filledQty.trunc)
              (e.price.getD avgPrice).toRat r.side).isSome → casAccepts r (e.key now) = true
        | none => e.order.status.isSome → casAccepts r (e.key now) = false) := by
  simp only [StepAccounted, hr, Option.some.injEq, forall_eq']

/-- What a webhook does to the books of its order. -/
structure WebhookEffect (cid : String) (r : OrderRow) (db : Database) (e : OrderEvent)
    (now : Timestamp) (moved filled : Int) : Prop where
  effect : Effect cid r db (gatewayStep cid db (.webhook e now)) moved filled
  grows : r.filledQty.trunc ≤ filled
  still : e.reportedQty.trunc ≤ r.filledQty.trunc → moved = 0
  recorded : moved ≠ 0 → StepAccounted cid db (.webhook e now) → e.reportedQty.trunc ≤ filled
  balanced : moved = r.side.sign * (filled - r.filledQty.trunc) ↔
    StepAccounted cid db (.webhook e now)

theorem sign_mul_ne_zero (side : Side) {n : Int} (h : 0 < n) : side.sign * n ≠ 0 := by
  have hsign : side.sign ≠ 0 := by cases side <;> decide
  exact mul_ne_zero hsign (by omega)

theorem webhookEffect_statusEvent (hr : db.orders.find? cid = some r) {e : OrderEvent}
    (now : Timestamp) (hcid : e.order.clientOrderId = some cid) (hinfo : e.fillInfo? = none) :
    WebhookEffect cid r db e now 0
      (filledAfter r (r.status ≠ .replaced && e.order.status.isSome && casAccepts r (e.key now))
        e.reportedQty) := by
  have heffect := effect_statusEvent now hr hinfo
  refine ⟨?_, le_filledAfter _ _ _, fun _ => rfl, fun h => absurd rfl h, ?_⟩
  · simpa only [gatewayStep, handleOrderWebhook_concerns now hcid, hinfo] using heffect
  · simp only [stepAccounted_webhook hr, hinfo]
    by_cases hlt : r.filledQty.trunc < e.reportedQty.trunc
    · by_cases hwrites : (r.status ≠ .replaced && e.order.status.isSome &&
          casAccepts r (e.key now)) = true
      · rw [filledAfter, if_pos hwrites, max_eq_right hlt.le]
        simp only [Bool.and_eq_true, decide_eq_true_eq] at hwrites
        obtain ⟨⟨hreplaced, hstatus⟩, haccepts⟩ := hwrites
        refine iff_of_false ?_ ?_
        · exact fun hzero => sign_mul_ne_zero r.side (by omega) hzero.symm
        · intro h
          rw [h hreplaced hlt hstatus] at haccepts
          cases haccepts
      · rw [filledAfter, if_neg hwrites, sub_self, mul_zero]
        refine iff_of_true rfl fun hreplaced _ hstatus => ?_
        simpa [hreplaced, hstatus] using hwrites
    · rw [filledAfter_of_le _ (by omega), sub_self, mul_zero]
      exact iff_of_true rfl fun _ h => absurd h hlt

/-- A fill event that books moves the position by the new whole shares; the row follows when
the guard accepts the event. -/
theorem balanced_booked {qty : Decimal} (accepts : Bool)
    (hlt : r.filledQty.trunc < qty.trunc) :
    r.side.sign * max 0 (qty.trunc - r.filledQty.trunc) =
        r.side.sign * (filledAfter r accepts qty - r.filledQty.trunc) ↔
      accepts = true := by
  rw [max_eq_right (by omega), filledAfter]
  by_cases haccepts : accepts = true
  · rw [if_pos haccepts, max_eq_right hlt.le]
    exact iff_of_true rfl haccepts
  · rw [if_neg haccepts, sub_self, mul_zero]
    exact iff_of_false (sign_mul_ne_zero r.side (by omega)) haccepts

theorem webhookEffect_fillEvent (hr : db.orders.find? cid = some r) {e : OrderEvent}
    (now : Timestamp) (hcid : e.order.clientOrderId = some cid) {qty : Decimal}
    {avgPrice : Price} (hinfo : e.fillInfo? = some (qty, avgPrice)) :
    ∃ moved filled, WebhookEffect cid r db e now moved filled := by
  obtain ⟨moved, filled, heffect, hcases⟩ := effect_fillEvent now hr hinfo
  have hstep : gatewayStep cid db (.webhook e now) =
      committed db (handleFillEvent db cid e qty avgPrice now) := by
    simp only [gatewayStep, handleOrderWebhook_concerns now hcid, hinfo]
  have hreported := fillInfo?_reportedQty hinfo
  have hiff : StepAccounted cid db (.webhook e now) ↔
      (r.status ≠ .replaced → r.filledQty.trunc < qty.trunc →
        Bookable db r qty (e.price.getD avgPrice) → casAccepts r (e.key now) = true) := by
    simp only [stepAccounted_webhook hr, hinfo, hreported]
    refine forall_congr' fun _ => forall_congr' fun hlt => ?_
    rw [Bookable, or_iff_right (by omega)]
  rw [← hstep] at heffect
  rcases hcases with ⟨rfl, rfl, hwhy⟩ | ⟨hreplaced, hcheck, rfl, rfl⟩
  · refine ⟨_, _, heffect, le_refl _, fun _ => rfl, fun h => absurd rfl h, ?_⟩
    rw [hiff, sub_self, mul_zero]
    refine iff_of_true rfl fun hreplaced _ hcheck => ?_
    rcases hwhy with h | h | h
    · exact absurd h hreplaced
    · exact absurd hcheck h
    · exact h
  · by_cases hlt : r.filledQty.trunc < qty.trunc
    · have hbalanced := balanced_booked (casAccepts r (e.key now)) hlt
      refine ⟨_, _, heffect, le_filledAfter _ _ _, ?_, ?_, ?_⟩
      · rw [hreported]
        omega
      · intro _ hacc
        rw [hreported, filledAfter, if_pos (hiff.mp hacc hreplaced hlt hcheck)]
        exact le_max_right _ _
      · rw [hbalanced, hiff]
        exact ⟨fun h _ _ _ => h, fun h => h hreplaced hlt hcheck⟩
    · -- A report of no new whole shares changes nothing, whatever the guard says.
      have hnothing : max 0 (qty.trunc - r.filledQty.trunc) = 0 := by omega
      rw [hnothing, mul_zero, filledAfter_of_le _ (by omega)] at heffect
      refine ⟨_, _, heffect, le_refl _, fun _ => rfl, fun h => absurd rfl h, ?_⟩
      rw [hiff, sub_self, mul_zero]
      exact iff_of_true rfl fun _ h => absurd h hlt

theorem effect_webhook (hr : db.orders.find? cid = some r) (e : OrderEvent) (now : Timestamp)
    (hcid : e.order.clientOrderId = some cid) :
    ∃ moved filled, WebhookEffect cid r db e now moved filled := by
  cases hinfo : e.fillInfo? with
  | none => exact ⟨_, _, webhookEffect_statusEvent hr now hcid hinfo⟩
  | some info => exact webhookEffect_fillEvent hr now hcid hinfo

theorem effect_cancel (hr : db.orders.find? cid = some r) (brokerOk : Bool) (now : Timestamp) :
    Effect cid r db (gatewayStep cid db (.cancel brokerOk now)) 0 r.filledQty.trunc := by
  simp only [gatewayStep, cancelOrder, getOrderByClientId, hr]
  split
  · exact Effect.refl hr
  · split
    · exact Effect.refl hr
    · have heffect := effect_cas hr (cancelUpdate r now) now
      have hfilled : filledAfter r (casAccepts r (cancelUpdate r now).key)
          (cancelUpdate r now).newFilledQty = r.filledQty.trunc := filledAfter_of_le _ le_rfl
      rwa [hfilled] at heffect

/-- One step of either kind. -/
theorem effect_step (hr : db.orders.find? cid = some r) {a : GatewayStep}
    (ha : a.Concerns cid) :
    ∃ moved filled, Effect cid r db (gatewayStep cid db a) moved filled ∧
      r.filledQty.trunc ≤ filled ∧
      (moved = r.side.sign * (filled - r.filledQty.trunc) ↔ StepAccounted cid db a) := by
  cases a with
  | webhook e now =>
      obtain ⟨moved, filled, h⟩ := effect_webhook hr e now ha
      exact ⟨moved, filled, h.effect, h.grows, h.balanced⟩
  | cancel brokerOk now =>
      refine ⟨0, _, effect_cancel hr brokerOk now, le_refl _, ?_⟩
      exact iff_of_true (by rw [sub_self, mul_zero]) trivial

end Effects

/-! ## Runs -/

/-- The order is there, with the symbol and the side it had. -/
def SameOrder (cid : String) (r : OrderRow) (db : Database) : Prop :=
  ∃ r', db.orders.find? cid = some r' ∧ r'.symbol = r.symbol ∧ r'.side = r.side

section Runs

variable {cid : String} {r : OrderRow} {start db : Database} {a : GatewayStep}

theorem sameOrder_step (h : SameOrder cid r db) (ha : a.Concerns cid) :
    SameOrder cid r (gatewayStep cid db a) := by
  obtain ⟨r', hr', hsymbol, hside⟩ := h
  obtain ⟨moved, filled, heffect, -, -⟩ := effect_step hr' ha
  obtain ⟨r'', hr'', hsymbol', hside', -⟩ := heffect.row
  exact ⟨r'', hr'', hsymbol'.trans hsymbol, hside'.trans hside⟩

theorem filledWhole_step (h : SameOrder cid r db) (ha : a.Concerns cid) :
    db.filledWhole cid ≤ (gatewayStep cid db a).filledWhole cid := by
  obtain ⟨r', hr', -, -⟩ := h
  obtain ⟨moved, filled, heffect, hle, -⟩ := effect_step hr' ha
  rw [heffect.filledWhole, Database.filledWhole, hr']
  exact hle

theorem accounted_step (h : SameOrder cid r db) (ha : a.Concerns cid)
    (hacc : Accounted cid r start db) :
    Accounted cid r start (gatewayStep cid db a) ↔ StepAccounted cid db a := by
  obtain ⟨r', hr', hsymbol, hside⟩ := h
  obtain ⟨moved, filled, heffect, -, hiff⟩ := effect_step hr' ha
  have hfilled : db.filledWhole cid = r'.filledQty.trunc := by
    rw [Database.filledWhole, hr']
    rfl
  have hposition := heffect.position
  rw [hsymbol] at hposition
  rw [← hiff, Accounted, heffect.filledWhole, hposition, hside]
  rw [Accounted, hfilled] at hacc
  have hsplit : r.side.sign * (filled - start.filledWhole cid) =
      r.side.sign * (filled - r'.filledQty.trunc) +
        r.side.sign * (r'.filledQty.trunc - start.filledWhole cid) := by ring
  rw [hsplit]
  constructor
  · intro h
    omega
  · intro h
    omega

theorem run_sameOrder {steps : List GatewayStep} (h : SameOrder cid r db)
    (hsteps : ∀ a ∈ steps, a.Concerns cid) : SameOrder cid r (run (gatewayStep cid) db steps) := by
  have hkept : EveryState (gatewayStep cid) (SameOrder cid r) db steps := by
    apply everyState_of_eachStep (C := fun _ a => a.Concerns cid)
    · exact fun _ _ h ha => sameOrder_step h ha
    · exact h
    · exact eachStep_of_forall hsteps db
  exact hkept.last

theorem run_filledWhole {steps : List GatewayStep} (h : SameOrder cid r db)
    (hsteps : ∀ a ∈ steps, a.Concerns cid) :
    db.filledWhole cid ≤ (run (gatewayStep cid) db steps).filledWhole cid := by
  induction steps generalizing db with
  | nil => exact le_refl _
  | cons a steps ih =>
      have hfirst := filledWhole_step h (hsteps a (by simp))
      have hrest := ih (sameOrder_step h (hsteps a (by simp))) fun b hb => hsteps b (by simp [hb])
      rw [run_cons]
      omega

/-- The step moves the position of the order's symbol. -/
def Moves (cid : String) (r : OrderRow) (db : Database) (a : GatewayStep) : Prop :=
  (gatewayStep cid db a).positionQty r.symbol ≠ db.positionQty r.symbol

/-- A webhook that moved the position and kept the books does not move it again. -/
theorem redelivery_does_not_move {e : OrderEvent} {now now' : Timestamp}
    {between : List GatewayStep} (h : SameOrder cid r db)
    (hcid : e.order.clientOrderId = some cid) (hbetween : ∀ a ∈ between, a.Concerns cid)
    (hacc : StepAccounted cid db (.webhook e now)) (hmoves : Moves cid r db (.webhook e now)) :
    ¬ Moves cid r (run (gatewayStep cid) db (.webhook e now :: between)) (.webhook e now') := by
  have hnext : SameOrder cid r (gatewayStep cid db (.webhook e now)) := sameOrder_step h hcid
  obtain ⟨r', hr', hsymbol, -⟩ := h
  obtain ⟨moved, filled, hfirst⟩ := effect_webhook hr' e now hcid
  have hposition := hfirst.effect.position
  rw [hsymbol] at hposition
  have hmoved : moved ≠ 0 := by
    rintro rfl
    exact hmoves (by rw [hposition, add_zero])
  have hle : e.reportedQty.trunc ≤
      (run (gatewayStep cid) db (.webhook e now :: between)).filledWhole cid := by
    have hgrown := run_filledWhole hnext hbetween
    rw [hfirst.effect.filledWhole] at hgrown
    exact le_trans (hfirst.recorded hmoved hacc) hgrown
  obtain ⟨r'', hr'', hsymbol', -⟩ := run_sameOrder hnext hbetween
  rw [run_cons, Database.filledWhole, hr''] at hle
  obtain ⟨moved', filled', hsecond⟩ := effect_webhook hr'' e now' hcid
  have hposition' := hsecond.effect.position
  rw [hsecond.still hle, add_zero, hsymbol'] at hposition'
  exact not_not.mpr hposition'

/-- In a run of steps on one order, the position has moved by the signed growth of the whole
filled quantity in every state exactly when every step meets the condition; and then no
webhook that moved the position moves it again, at whatever time it is delivered again. -/
theorem fills_accounted_iff (start : Database) (cid : String) (r : OrderRow)
    (steps : List GatewayStep) (hr : start.orders.find? cid = some r)
    (hsteps : ∀ a ∈ steps, a.Concerns cid) :
    (EveryState (gatewayStep cid) (Accounted cid r start) start steps ↔
        EachStep (gatewayStep cid) (StepAccounted cid) start steps) ∧
      (EachStep (gatewayStep cid) (StepAccounted cid) start steps →
        ∀ before between after e now now',
          steps = before ++ .webhook e now :: (between ++ .webhook e now' :: after) →
          Moves cid r (run (gatewayStep cid) start before) (.webhook e now) →
          ¬ Moves cid r (run (gatewayStep cid) start (before ++ .webhook e now :: between))
            (.webhook e now')) := by
  have hstart : SameOrder cid r start := ⟨r, hr, rfl, rfl⟩
  constructor
  · apply everyState_iff_eachStep (G := SameOrder cid r) (W := fun _ a => a.Concerns cid)
    · exact fun _ _ h ha _ => sameOrder_step h ha
    · exact fun _ _ h ha hacc => accounted_step h ha hacc
    · exact hstart
    · exact eachStep_of_forall hsteps start
    · simp [Accounted]
  · rintro hacc before between after e now now' rfl hmoves
    rw [eachStep_append, eachStep_cons] at hacc
    rw [run_append]
    apply redelivery_does_not_move
    · exact run_sameOrder hstart fun a ha => hsteps a (by simp [ha])
    · exact hsteps (.webhook e now) (by simp)
    · exact fun a ha => hsteps a (by simp [ha])
    · exact hacc.2.1
    · exact hmoves

/-- An event of the order at a broker instant, with four shares filled at 100. -/
def fourFilledEvent (event : EventType) (status : OrderStatus) (updatedAt : Timestamp) :
    OrderEvent where
  event := event
  order :=
    ⟨some "o-1", none, some status, some 4, some samplePrice, some updatedAt, none, none⟩
  price := none
  timestamp := none
  filledAt := none
  executionId := none

/-- A delivered twice fill event, booked once. -/
theorem fills_accounted_iff_duplicate :
    EveryState (gatewayStep "o-1") (Accounted "o-1" (acceptedRow "o-1") (acceptedOrder "o-1"))
        (acceptedOrder "o-1")
        [.webhook (fourFilledEvent .partialFill .partiallyFilled 5) 6,
          .webhook (fourFilledEvent .partialFill .partiallyFilled 5) 7] ↔
      EachStep (gatewayStep "o-1") (StepAccounted "o-1") (acceptedOrder "o-1")
        [.webhook (fourFilledEvent .partialFill .partiallyFilled 5) 6,
          .webhook (fourFilledEvent .partialFill .partiallyFilled 5) 7] :=
  (fills_accounted_iff (acceptedOrder "o-1") "o-1" (acceptedRow "o-1") _ (by decide)
    (by simp [GatewayStep.Concerns, fourFilledEvent])).1

/-- A canceled order rejects the update of a late fill, and every delivery of it moves the
position; a status event that overtakes the fill counts its shares, and the fill never moves
the position. -/
theorem late_fill_moves_twice_or_never :
    let late := [.cancel true 5, .webhook (fourFilledEvent .partialFill .partiallyFilled 6) 7,
      .webhook (fourFilledEvent .partialFill .partiallyFilled 6) 8]
    let overtaken := [.webhook (fourFilledEvent .other .pendingCancel 6) 7,
      .webhook (fourFilledEvent .partialFill .partiallyFilled 5) 8]
    ((run (gatewayStep "o-1") (acceptedOrder "o-1") late).positionQty "AAPL" = 8 ∧
        (run (gatewayStep "o-1") (acceptedOrder "o-1") late).filledWhole "o-1" = 0 ∧
        ¬ EveryState (gatewayStep "o-1") (Accounted "o-1" (acceptedRow "o-1") (acceptedOrder "o-1"))
          (acceptedOrder "o-1") late) ∧
      (run (gatewayStep "o-1") (acceptedOrder "o-1") overtaken).positionQty "AAPL" = 0 ∧
        (run (gatewayStep "o-1") (acceptedOrder "o-1") overtaken).filledWhole "o-1" = 4 ∧
        ¬ EveryState (gatewayStep "o-1") (Accounted "o-1" (acceptedRow "o-1") (acceptedOrder "o-1"))
          (acceptedOrder "o-1") overtaken := by
  decide +kernel

end Runs

end TradingPlatform.Gateway
