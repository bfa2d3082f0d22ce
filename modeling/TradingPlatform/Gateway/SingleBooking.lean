import TradingPlatform.Base.Fallible
import TradingPlatform.Base.Lots
import TradingPlatform.Base.Run
import TradingPlatform.Gateway.AlpacaFills
import TradingPlatform.Gateway.Routes

/-! # Two ways in for one execution

Webhooks and the activity backfill append the same executions under ids that
have nothing in common. The broker's executions cut the shares of an order into
lots; a fill stands for the shares between two webhook totals or for one lot.
As long as a step only appends fills for shares that no listed fill stands for,
neither total exceeds what was executed.
-/

namespace TradingPlatform.Gateway

open Base

/-- One execution at the broker. -/
structure Execution where
  id : String
  qty : Int
  qty_pos : 0 < qty
  id_nonblank : strip id ≠ ""

def executedQty (xs : List Execution) : Int := (xs.map Execution.qty).sum

/-- The gateway's database and what the broker has executed of the order, in order. -/
structure Exchange where
  db : Database
  executed : List Execution

inductive BookingStep where
  | execute (x : Execution)
  | webhook (e : OrderEvent) (now : Timestamp)
  | backfill (api : ActivityApi) (config : BackfillConfig) (now : Timestamp)

section Booking

variable (generateFillId : Activity → String) (cid : String)

def bookingStep (s : Exchange) : BookingStep → Exchange
  | .execute x => { s with executed := s.executed ++ [x] }
  | .webhook e now => { s with db := committed s.db (handleOrderWebhook s.db e now) }
  | .backfill api config now =>
      { s with db := (backfillAlpacaFills generateFillId s.db api config now).1 }

def Activity.Reports (a : Activity) (x : Execution) : Prop :=
  a.id = some x.id ∧ a.qty.toRat = x.qty

/-- Webhooks report the running total of executions that have happened, and activities of the
order are executions that have happened. -/
def FromBroker (s : Exchange) : BookingStep → Prop
  | .execute _ => True
  | .webhook e _ => e.order.clientOrderId = some cid ∧ ∃ done later qty avgPrice,
      s.executed = done ++ later ∧ e.fillInfo? = some (qty, avgPrice) ∧
        qty.toRat = executedQty done
  | .backfill api config now => ∀ a ∈ fetched s.db api config now, ∀ order,
      activityOrder s.db a = some order → order.clientOrderId = cid →
        ∃ x ∈ s.executed, a.Reports x

/-! ## The shares a fill stands for -/

/-- The fill of a webhook stands for the shares below its total, one from an activity for the
lot of its execution. -/
structure StandsFor (executed : List Execution) (f : FillRecord) (shares : Finset ℤ) : Prop where
  real : f.synthetic = false
  active : f.superseded = false
  qty : f.fillQty.toRat = shares.card
  origin : (f.source = none ∧ ∃ n : Int, f.fillId = cid ++ "_" ++ toString n ∧
      shares = Finset.Ioc (n - f.fillQty.trunc) n) ∨
    (f.source = some "alpaca_activity" ∧ ∃ pre x post, executed = pre ++ x :: post ∧
      f.fillId = strip x.id ∧ shares = lot Execution.qty pre x)

/-- No listed fill stands for any of the shares. -/
def Unbooked (s : Exchange) (shares : Finset ℤ) : Prop :=
  ∀ r, s.db.orders.find? cid = some r → ∀ f ∈ r.metadata.fills, ∀ booked,
    StandsFor cid s.executed f booked → Disjoint booked shares

/-- Every fill that the step would append, its id not being listed yet, stands for unbooked
shares. -/
def BooksOnce (s : Exchange) : BookingStep → Prop
  | .execute _ => True
  | .webhook e _ => ∀ r, s.db.orders.find? cid = some r → r.status ≠ .replaced →
      r.filledQty.trunc < e.reportedQty.trunc →
      r.metadata.hasFill (cid ++ "_" ++ toString e.reportedQty.trunc) = false →
        Unbooked cid s (Finset.Ioc r.filledQty.trunc e.reportedQty.trunc)
  | .backfill api config now => ∀ a ∈ fetched s.db api config now, ∀ order,
      activityOrder s.db a = some order → order.clientOrderId = cid →
      order.metadata.hasFill (activityFillId generateFillId a) = false →
        ∀ pre x post, s.executed = pre ++ x :: post → a.Reports x →
          Unbooked cid s (lot Execution.qty pre x)

/-- The property: neither total exceeds the executed quantity. -/
def NotOverbooked (s : Exchange) : Prop :=
  ∀ r, s.db.orders.find? cid = some r → activeQty r.metadata.fills ≤ executedQty s.executed ∧
    s.db.activeTradeQty cid ≤ executedQty s.executed

/-! ## The invariant -/

/-- The listed fills stand for disjoint sets of executed shares, and the trades of the order
count no more than they do. -/
structure BookedOnce (s : Exchange) : Prop where
  books : ∃ r parts, s.db.orders.find? cid = some r ∧ 0 ≤ r.filledQty.trunc ∧
    List.Forall₂ (StandsFor cid s.executed) r.metadata.fills parts ∧
    parts.Pairwise Disjoint ∧ (∀ p ∈ parts, p ⊆ Finset.Ioc 0 (executedQty s.executed)) ∧
    s.db.activeTradeQty cid ≤ activeQty r.metadata.fills

variable {generateFillId cid}

theorem forall₂_activeQty {executed : List Execution} {fills : List FillRecord}
    {parts : List (Finset ℤ)} (h : List.Forall₂ (StandsFor cid executed) fills parts) :
    activeQty fills = ((parts.map Finset.card).sum : ℕ) := by
  induction h with
  | nil => simp
  | cons hhead _ ih =>
      rw [activeQty_cons, hhead.active, ih, hhead.qty]
      simp

theorem BookedOnce.notOverbooked {s : Exchange} (h : BookedOnce cid s) : NotOverbooked cid s := by
  obtain ⟨r, parts, hr, -, hstand, hdisjoint, hsub, htrades⟩ := h.books
  have hcard := sum_card_le_card hdisjoint hsub
  have hpos := sum_nonneg_of_pos Execution.qty_pos s.executed
  have htotal : activeQty r.metadata.fills ≤ executedQty s.executed := by
    rw [forall₂_activeQty hstand]
    rw [Int.card_Ioc, sub_zero] at hcard
    have hint : (((parts.map Finset.card).sum : ℕ) : ℤ) ≤ executedQty s.executed := by
      unfold executedQty at hcard ⊢
      omega
    rw [← Int.cast_natCast]
    exact Int.cast_le.mpr hint
  intro r' hr'
  rw [hr, Option.some.injEq] at hr'
  rw [← hr']
  exact ⟨htotal, le_trans htrades htotal⟩

theorem StandsFor.mono {executed : List Execution} {f : FillRecord} {shares : Finset ℤ}
    (h : StandsFor cid executed f shares) (x : Execution) :
    StandsFor cid (executed ++ [x]) f shares := by
  refine ⟨h.real, h.active, h.qty, ?_⟩
  rcases h.origin with hwebhook | ⟨hsource, pre, y, post, hexec, hid, hshares⟩
  · exact Or.inl hwebhook
  · refine Or.inr ⟨hsource, pre, y, post ++ [x], ?_, hid, hshares⟩
    rw [hexec]
    simp

theorem bookedOnce_execute {s : Exchange} (h : BookedOnce cid s) (x : Execution) :
    BookedOnce cid { s with executed := s.executed ++ [x] } := by
  obtain ⟨r, parts, hr, hfilled, hstand, hdisjoint, hsub, htrades⟩ := h.books
  refine ⟨r, parts, hr, hfilled, ?_, hdisjoint, ?_, htrades⟩
  · exact hstand.imp fun f p hf => hf.mono x
  · intro p hp
    apply (hsub p hp).trans
    apply Finset.Ioc_subset_Ioc_right
    have hx := x.qty_pos
    simp only [executedQty, List.map_append, List.sum_append, List.map_cons, List.map_nil,
      List.sum_cons, List.sum_nil]
    omega

/-- Nothing but the order's row and its trades matters. -/
theorem BookedOnce.congr {db db' : Database} {executed : List Execution} {r r' : OrderRow}
    (h : BookedOnce cid ⟨db, executed⟩) (hr : db.orders.find? cid = some r)
    (hr' : db'.orders.find? cid = some r') (hfills : r'.metadata.fills = r.metadata.fills)
    (hfilled : r.filledQty.trunc ≤ r'.filledQty.trunc)
    (htrades : db'.activeTradeQty cid ≤ db.activeTradeQty cid) :
    BookedOnce cid ⟨db', executed⟩ := by
  obtain ⟨r₀, parts, hr₀, hnonneg, hstand, hdisjoint, hsub, hle⟩ := h.books
  have heq : r₀ = r := Option.some.inj (hr₀.symm.trans hr)
  rw [heq] at hnonneg hstand hle
  refine ⟨r', parts, hr', by omega, ?_, hdisjoint, hsub, ?_⟩
  · rw [hfills]
    exact hstand
  · rw [hfills]
    exact le_trans htrades hle

/-- Real fills supersede nothing among real fills. -/
theorem appendFill_fills_of_real {m : Metadata} {fill : FillRecord}
    (hold : ∀ f ∈ m.fills, f.synthetic = false) (hnew : fill.synthetic = false) :
    (m.appendFill fill).fills = m.fills ++ [fill] := by
  have hkeep : ∀ f ∈ m.fills ++ [fill], f.supersedeSynthetic = f := by
    intro f hf
    have hreal : f.synthetic = false := by
      rcases List.mem_append.mp hf with h | h
      · exact hold f h
      · rw [List.mem_singleton.mp h, hnew]
    rw [FillRecord.supersedeSynthetic, hreal]
    rfl
  simp only [Metadata.appendFill, hnew, Bool.false_eq_true, if_false]
  rw [List.map_congr_left hkeep, List.map_id']

theorem BookedOnce.appendFill_fills {s : Exchange} (h : BookedOnce cid s) {r : OrderRow}
    (hr : s.db.orders.find? cid = some r) (fill : FillRecord) (hreal : fill.synthetic = false) :
    (r.metadata.appendFill fill).fills = r.metadata.fills ++ [fill] := by
  obtain ⟨r', parts, hr', -, hstand, -⟩ := h.books
  have heq : r' = r := Option.some.inj (hr'.symm.trans hr)
  rw [heq] at hstand
  apply appendFill_fills_of_real _ hreal
  intro f hf
  obtain ⟨p, -, hp⟩ := exists_right_of_forall₂ hstand hf
  exact hp.real

/-- Appending a fill that stands for unbooked shares. -/
theorem bookedOnce_append {db : Database} {executed : List Execution} {r : OrderRow}
    {fill : FillRecord} {shares : Finset ℤ} (now : Timestamp)
    (h : BookedOnce cid ⟨db, executed⟩) (hr : db.orders.find? cid = some r)
    (hstands : StandsFor cid executed fill shares)
    (hshares : shares ⊆ Finset.Ioc 0 (executedQty executed))
    (hunbooked : acceptsFill r fill = true → Unbooked cid ⟨db, executed⟩ shares) :
    BookedOnce cid ⟨(appendFillToOrderMetadata db cid fill now).1, executed⟩ := by
  have hqty : 0 ≤ fill.fillQty.toRat := by
    rw [hstands.qty]
    positivity
  have hle := activeTradeQty_append_le db cid cid fill now fun _ => hqty
  have hrow := appendFill_find? db cid fill now
  rw [hr, Option.map_some] at hrow
  by_cases haccepts : acceptsFill r fill = true
  · obtain ⟨r', parts, hr', hfilled, hstand, hdisjoint, hsub, htrades⟩ := h.books
    have heq : r' = r := Option.some.inj (hr'.symm.trans hr)
    rw [heq] at hstand hfilled htrades
    rw [if_pos haccepts] at hrow
    have hfills : (r.withFill fill now).metadata.fills = r.metadata.fills ++ [fill] :=
      h.appendFill_fills hr fill hstands.real
    refine ⟨_, parts ++ [shares], hrow, hfilled, ?_, ?_, ?_, ?_⟩
    · rw [hfills]
      exact List.rel_append hstand (.cons hstands .nil)
    · rw [List.pairwise_append]
      refine ⟨hdisjoint, List.pairwise_singleton _ _, ?_⟩
      intro p hp q hq
      rw [List.mem_singleton.mp hq]
      obtain ⟨f, hf, hfp⟩ := exists_left_of_forall₂ hstand hp
      exact hunbooked haccepts r hr f hf p hfp
    · intro p hp
      rcases List.mem_append.mp hp with hold | hnew
      · exact hsub p hold
      · rw [List.mem_singleton.mp hnew]
        exact hshares
    · rw [hfills, activeQty_append, activeQty_cons, activeQty_nil, hstands.active]
      rw [if_pos rfl] at hle
      simp only [Bool.false_eq_true, if_false, add_zero]
      linarith
  · rw [if_neg haccepts] at hrow
    rw [appendFill_of_not_accepts hr haccepts]
    exact h

theorem bookedOnce_append_other {db : Database} {executed : List Execution} {cid' : String}
    (fill : FillRecord) (now : Timestamp) (h : BookedOnce cid ⟨db, executed⟩) (hne : cid ≠ cid') :
    BookedOnce cid ⟨(appendFillToOrderMetadata db cid' fill now).1, executed⟩ := by
  obtain ⟨r, _, hr, -⟩ := h.books
  have hrow := (appendFill_frame db cid' fill now).1 cid hne
  have hne' : ¬ cid' = cid := fun heq => hne heq.symm
  have hle := activeTradeQty_append_le db cid cid' fill now fun heq => absurd heq hne'
  rw [if_neg hne', add_zero] at hle
  exact h.congr hr (hrow.trans hr) rfl (le_refl _) hle

theorem bookedOnce_cas {db : Database} {executed : List Execution} (u : CasUpdate)
    (now : Timestamp) (h : BookedOnce cid ⟨db, executed⟩) :
    BookedOnce cid ⟨(updateOrderStatusCas db cid u now).1, executed⟩ := by
  obtain ⟨r, _, hr, -⟩ := h.books
  have hrow := updateOrderStatusCas_find? db cid u now
  rw [hr, Option.map_some] at hrow
  have htrades := (updateOrderStatusCas_frame db cid u now).2.2
  apply h.congr hr hrow
  · unfold casUpdate
    split <;> rfl
  · exact Decimal.trunc_mono (casUpdate_filledQty_mono r u now)
  · rw [activeTradeQty_eq, activeTradeQty_eq, htrades]

/-! ## Webhooks -/

theorem webhookFill_standsFor {executed : List Execution} {q from_ : Int} {qty price : Decimal}
    (delta : ℚ) (t : Timestamp) (hqty : qty.trunc = q) (hlt : from_ < q) :
    StandsFor cid executed (webhookFill cid qty (q - from_) price delta t)
      (Finset.Ioc from_ q) := by
  refine ⟨rfl, rfl, ?_, Or.inl ⟨rfl, q, ?_, ?_⟩⟩
  · rw [webhookFill, Decimal.toRat_ofInt, Int.card_Ioc]
    have hnat : ((q - from_).toNat : ℤ) = q - from_ := Int.toNat_of_nonneg (by omega)
    exact_mod_cast hnat.symm
  · rw [webhookFill, hqty]
  · rw [webhookFill, Decimal.trunc_ofInt]
    congr 1
    omega

/-- A booking appends the fill for the shares between the row's total and the reported one. -/
theorem bookedOnce_bookFill {db booked : Database} {executed : List Execution} {r : OrderRow}
    {e : OrderEvent} {qty price : Decimal} {now : Timestamp} (h : BookedOnce cid ⟨db, executed⟩)
    (hr : db.orders.find? cid = some r) (hfilled : 0 ≤ r.filledQty.trunc)
    (hdone : qty.trunc ≤ executedQty executed)
    (honce : r.filledQty.trunc < qty.trunc →
      r.metadata.hasFill (cid ++ "_" ++ toString qty.trunc) = false →
        Unbooked cid ⟨db, executed⟩ (Finset.Ioc r.filledQty.trunc qty.trunc))
    (hbook : bookFill db r e qty price now = .ok booked) : BookedOnce cid ⟨booked, executed⟩ := by
  rcases bookFill_cases db r e qty price now with ⟨-, hok⟩ | ⟨-, -, herror⟩ |
    ⟨moved, position, delta, hlt, hmoved, hok⟩
  · rw [hbook, Except.ok.injEq] at hok
    rw [hok]
    exact h
  · rw [hbook] at herror
    cases herror
  · rw [hbook, Except.ok.injEq] at hok
    obtain ⟨horders, htrades, -, -⟩ := updatePositionOnFillWithConn_spec hmoved
    have hrow : moved.orders.find? cid = some r := by rw [horders, hr]
    have hmovedOnce : BookedOnce cid ⟨moved, executed⟩ := by
      apply h.congr hr hrow rfl (le_refl _)
      rw [activeTradeQty_eq, activeTradeQty_eq, htrades]
    rw [hok, Table.find?_key hr]
    apply bookedOnce_append now hmovedOnce hrow
      (webhookFill_standsFor delta (e.fillTimestamp now) rfl hlt)
    · exact Finset.Ioc_subset_Ioc hfilled hdone
    · intro haccepts r' hr' f hf shares hstand
      simp only [acceptsFill, Bool.and_eq_true, Bool.not_eq_true'] at haccepts
      rw [hrow, Option.some.injEq] at hr'
      rw [← hr'] at hf
      exact honce hlt haccepts.2 r hr f hf shares hstand

/-- What the broker has reported so far does not exceed what it has executed. -/
theorem executedQty_prefix_le (done later : List Execution) :
    executedQty done ≤ executedQty (done ++ later) := by
  have hlater := sum_nonneg_of_pos Execution.qty_pos later
  simp only [executedQty, List.map_append, List.sum_append]
  omega

theorem bookedOnce_webhook {s : Exchange} {e : OrderEvent} {now : Timestamp}
    (h : BookedOnce cid s) (hbroker : FromBroker cid s (.webhook e now))
    (honce : BooksOnce generateFillId cid s (.webhook e now)) :
    BookedOnce cid (bookingStep generateFillId s (.webhook e now)) := by
  obtain ⟨db, executed⟩ := s
  obtain ⟨hcid, done, later, qty, avgPrice, hexec, hinfo, hqty⟩ := hbroker
  obtain ⟨r, parts, hr, hfilled, -⟩ := h.books
  have hhandler : handleOrderWebhook db e now = handleFillEvent db cid e qty avgPrice now := by
    rw [handleOrderWebhook, hcid]
    simp only [hinfo]
  have hexec : executed = done ++ later := hexec
  have hdone : qty.trunc ≤ executedQty executed := by
    rw [Decimal.trunc_of_toRat hqty, hexec]
    exact executedQty_prefix_le done later
  simp only [bookingStep, hhandler, committed_fillEvent hr]
  by_cases hreplaced : r.status = .replaced
  · rw [if_pos hreplaced]
    exact h
  · rw [if_neg hreplaced]
    cases hbook : bookFill db r e qty (e.price.getD avgPrice) now with
    | error err => exact h
    | ok booked =>
        have hreported := fillInfo?_reportedQty hinfo
        have hafter : BookedOnce cid ⟨booked, executed⟩ := by
          apply bookedOnce_bookFill h hr hfilled hdone _ hbook
          rw [← hreported]
          exact honce r hr hreplaced
        cases e.order.status with
        | none =>
            simp only []
            split
            · exact h
            · exact hafter
        | some status => exact bookedOnce_cas _ now hafter

/-! ## The backfill -/

theorem activityOrder_eq {db : Database} {a : Activity} {order r : OrderRow}
    (horder : activityOrder db a = some order) (hcid : order.clientOrderId = cid)
    (hr : db.orders.find? cid = some r) : order = r := by
  unfold activityOrder at horder
  rw [Option.bind_eq_some_iff] at horder
  obtain ⟨brokerId, -, hlast⟩ := horder
  have hmem : order ∈ db.orders.rows :=
    List.mem_of_mem_filter (List.mem_of_getLast? hlast)
  have hfind := Table.find?_of_mem hmem
  rw [hcid, hr] at hfind
  exact (Option.some.inj hfind).symm

theorem activityFill_id {a : Activity} {x : Execution} (h : a.Reports x) :
    (activityFill generateFillId a).fillId = strip x.id := by
  simp only [activityFill, activityFillId, h.1, Option.getD_some]
  rw [if_neg x.id_nonblank]

theorem activityFill_standsFor (generateFillId : Activity → String) (cid : String)
    {executed pre post : List Execution} {a : Activity}
    {x : Execution} (h : a.Reports x) (hexec : executed = pre ++ x :: post) :
    StandsFor cid executed (activityFill generateFillId a) (lot Execution.qty pre x) := by
  refine ⟨rfl, rfl, ?_, Or.inr ⟨rfl, pre, x, post, hexec, activityFill_id h, rfl⟩⟩
  have hcard := card_lot x.qty_pos.le pre
  have hqty : (activityFill generateFillId a).fillQty = a.qty := rfl
  rw [hqty, h.2, ← hcard]
  simp

/-- A run of the backfill so far: it keeps the fills listed at its start and adds fills from
activities only. -/
structure Progress (cid : String) (executed : List Execution) (r : OrderRow) (db : Database) :
    Prop where
  once : BookedOnce cid ⟨db, executed⟩
  row : ∃ r', db.orders.find? cid = some r' ∧
    (∀ f ∈ r.metadata.fills, f ∈ r'.metadata.fills) ∧
    ∀ f ∈ r'.metadata.fills, f ∈ r.metadata.fills ∨ f.source = some "alpaca_activity"

/-- The fill of an activity of the order, unless the order lists its id, stands for shares
that the fills listed at the start leave free. -/
def FreshActivity (generateFillId : Activity → String) (cid : String) (s : Exchange)
    (r : OrderRow) (fill : FillRecord) : Prop :=
  ∃ a x pre post, fill = activityFill generateFillId a ∧ a.Reports x ∧
    s.executed = pre ++ x :: post ∧
    (r.metadata.hasFill fill.fillId = false → Unbooked cid s (lot Execution.qty pre x))

/-- An activity of the order that is accepted in the middle of a run stands for shares that
no fill listed by then stands for. -/
theorem unbooked_of_progress {s : Exchange} {r r' : OrderRow} {db : Database} {a : Activity}
    {x : Execution} {pre post : List Execution} (hr : s.db.orders.find? cid = some r)
    (hr' : db.orders.find? cid = some r')
    (hkeeps : ∀ f ∈ r.metadata.fills, f ∈ r'.metadata.fills)
    (hsource : ∀ f ∈ r'.metadata.fills, f ∈ r.metadata.fills ∨ f.source = some "alpaca_activity")
    (hreports : a.Reports x) (hexec : s.executed = pre ++ x :: post)
    (hfree : r.metadata.hasFill (activityFill generateFillId a).fillId = false →
      Unbooked cid s (lot Execution.qty pre x))
    (haccepts : acceptsFill r' (activityFill generateFillId a) = true) :
    Unbooked cid ⟨db, s.executed⟩ (lot Execution.qty pre x) := by
  intro r'' hr'' f hf booked hbooked
  have heq : r'' = r' := Option.some.inj (hr''.symm.trans hr')
  rw [heq] at hf
  simp only [acceptsFill, Bool.and_eq_true, Bool.not_eq_true', Metadata.hasFill,
    List.any_eq_false, decide_eq_true_eq] at haccepts
  rcases hsource f hf with hold | hactivity
  · apply hfree _ r hr f hold booked hbooked
    rw [Metadata.hasFill, List.any_eq_false]
    intro g hg
    rw [decide_eq_true_eq]
    exact haccepts.2 g (hkeeps g hg)
  · -- Two activities under different ids are different executions, with disjoint lots.
    rcases hbooked.origin with ⟨hwebhook, -⟩ | ⟨-, pre', y, post', hexec', hid, hshares⟩
    · rw [hactivity] at hwebhook
      cases hwebhook
    · rw [hshares]
      apply lot_disjoint Execution.qty_pos (hexec'.symm.trans hexec)
      intro hxy
      apply haccepts.2 f hf
      rw [activityFill_id hreports, hid, hxy]

theorem progress_insertFill {s : Exchange} {r : OrderRow}
    (hr : s.db.orders.find? cid = some r) {acc : Database × Nat} {item : String × FillRecord}
    (now : Timestamp) (h : Progress cid s.executed r acc.1)
    (hitem : item.1 = cid →
      FreshActivity generateFillId cid s r item.2) :
    Progress cid s.executed r (insertFill now acc item).1 := by
  obtain ⟨client, fill⟩ := item
  have hdb : (insertFill now acc (client, fill)).1 =
      (appendFillToOrderMetadata acc.1 client fill now).1 := rfl
  rw [hdb]
  obtain ⟨r', hr', hkeeps, hsource⟩ := h.row
  by_cases hclient : client = cid
  · subst hclient
    obtain ⟨a, x, pre, post, rfl, hreports, hexec, hfree⟩ := hitem rfl
    have hstands := activityFill_standsFor generateFillId client hreports hexec
    have hlist : (r'.withFill (activityFill generateFillId a) now).metadata.fills =
        r'.metadata.fills ++ [activityFill generateFillId a] :=
      h.once.appendFill_fills hr' (activityFill generateFillId a) rfl
    have hrow := appendFill_find? acc.1 client (activityFill generateFillId a) now
    rw [hr', Option.map_some] at hrow
    constructor
    · apply bookedOnce_append now h.once hr' hstands
      · rw [hexec]
        exact lot_subset Execution.qty_pos pre post x
      · exact unbooked_of_progress hr hr' hkeeps hsource hreports hexec hfree
    · refine ⟨_, hrow, ?_, ?_⟩
      · intro f hf
        split
        · rw [hlist]
          exact List.mem_append_left _ (hkeeps f hf)
        · exact hkeeps f hf
      · intro f hf
        split at hf
        · rw [hlist] at hf
          rcases List.mem_append.mp hf with hold | hnew
          · exact hsource f hold
          · rw [List.mem_singleton.mp hnew]
            exact Or.inr rfl
        · exact hsource f hf
  · have hne : cid ≠ client := fun heq => hclient heq.symm
    refine ⟨bookedOnce_append_other fill now h.once hne, r', ?_, hkeeps, hsource⟩
    rw [(appendFill_frame acc.1 client fill now).1 cid hne, hr']

theorem progress_foldl {s : Exchange} {r : OrderRow} (hr : s.db.orders.find? cid = some r)
    (now : Timestamp) (items : List (String × FillRecord)) (acc : Database × Nat)
    (h : Progress cid s.executed r acc.1)
    (hitems : ∀ item ∈ items, item.1 = cid →
      FreshActivity generateFillId cid s r item.2) :
    Progress cid s.executed r (items.foldl (insertFill now) acc).1 := by
  induction items generalizing acc with
  | nil => exact h
  | cons item items ih =>
      have hnext := progress_insertFill hr now h (hitems item (by simp))
      exact ih _ hnext fun other hother => hitems other (by simp [hother])

theorem tradeQty_map_of_keeps {g : Trade → Trade} (hg : ∀ t, (g t).clientOrderId = t.clientOrderId ∧
    (g t).superseded = t.superseded ∧ (g t).qty = t.qty) (trades : List Trade) :
    tradeQty cid (trades.map g) = tradeQty cid trades := by
  induction trades with
  | nil => rfl
  | cons t trades ih =>
      obtain ⟨hclient, hsup, hqty⟩ := hg t
      rw [List.map_cons, tradeQty_cons, tradeQty_cons, ih, hclient, hsup, hqty]

/-- Rebuilding profits changes no quantity. -/
theorem bookedOnce_recalculate {executed : List Execution} (updateAll : Bool)
    (pairs : List (String × String)) {acc : Database × Nat}
    (h : BookedOnce cid ⟨acc.1, executed⟩) :
    BookedOnce cid ⟨(pairs.foldl (recalculateAll updateAll) acc).1, executed⟩ := by
  induction pairs generalizing acc with
  | nil => exact h
  | cons pair pairs ih =>
      apply ih
      obtain ⟨r, _, hr, -⟩ := h.books
      have hrow : (recalculateAll updateAll acc pair).1.orders.find? cid = some r := hr
      apply h.congr hr hrow rfl (le_refl _)
      apply le_of_eq
      apply tradeQty_map_of_keeps
      intro t
      exact ⟨rfl, rfl, rfl⟩

theorem bookedOnce_highWaterMark {db : Database} {executed : List Execution}
    (h : BookedOnce cid ⟨db, executed⟩) (now : Timestamp) (name : String) :
    BookedOnce cid ⟨setReconciliationHighWaterMark db now name, executed⟩ := by
  obtain ⟨r, _, hr, -⟩ := h.books
  have hrow : (setReconciliationHighWaterMark db now name).orders.find? cid = some r := hr
  exact h.congr hr hrow rfl (le_refl _) (le_refl _)

/-- The fills that a backfill matches to the order are fresh. -/
theorem freshActivity_of_matched {s : Exchange} {r : OrderRow} {activities : List Activity}
    (hr : s.db.orders.find? cid = some r)
    (hreported : ∀ a ∈ activities, ∀ order, activityOrder s.db a = some order →
      order.clientOrderId = cid → ∃ x ∈ s.executed, a.Reports x)
    (honce : ∀ a ∈ activities, ∀ order, activityOrder s.db a = some order →
      order.clientOrderId = cid → order.metadata.hasFill (activityFillId generateFillId a) = false →
        ∀ pre x post, s.executed = pre ++ x :: post → a.Reports x →
          Unbooked cid s (lot Execution.qty pre x)) :
    ∀ item ∈ groupByClient (matchedFills generateFillId s.db activities), item.1 = cid →
      FreshActivity generateFillId cid s r item.2 := by
  intro item hitem hclient
  have hmatched := mem_groupByClient.mp hitem
  rw [matchedFills, List.mem_filterMap] at hmatched
  obtain ⟨a, ha, hsome⟩ := hmatched
  rw [Option.map_eq_some_iff] at hsome
  obtain ⟨order, horder, hpair⟩ := hsome
  rw [← hpair] at hclient ⊢
  obtain ⟨x, hx, hreports⟩ := hreported a ha order horder hclient
  obtain ⟨pre, post, hexec⟩ := List.append_of_mem hx
  refine ⟨a, x, pre, post, rfl, hreports, hexec, ?_⟩
  intro hunlisted
  have heq := activityOrder_eq horder hclient hr
  rw [← heq] at hunlisted
  exact honce a ha order horder hclient hunlisted pre x post hexec hreports

theorem bookedOnce_backfill {s : Exchange} {api : ActivityApi} {config : BackfillConfig}
    {now : Timestamp} (h : BookedOnce cid s)
    (hbroker : FromBroker cid s (.backfill api config now))
    (honce : BooksOnce generateFillId cid s (.backfill api config now)) :
    BookedOnce cid (bookingStep generateFillId s (.backfill api config now)) := by
  obtain ⟨db, executed⟩ := s
  obtain ⟨r, _, hr, -⟩ := h.books
  simp only [bookingStep, backfillAlpacaFills]
  simp only [FromBroker, BooksOnce, fetched] at hbroker honce
  split
  · exact h
  · cases hfetch : fetchActivities api
        (some (backfillAfter config (db.highWaterMark "alpaca_fills") now)) now config.pageSize
        config.maxPages none with
    | none => exact h
    | some fills =>
        rw [hfetch, Option.getD_some] at hbroker honce
        cases fills with
        | nil => exact bookedOnce_highWaterMark h now _
        | cons first rest =>
            apply bookedOnce_highWaterMark
            apply bookedOnce_recalculate
            have hstart : Progress cid executed r db :=
              ⟨h, r, hr, fun _ hf => hf, fun _ hf => Or.inl hf⟩
            have hitems := freshActivity_of_matched hr hbroker honce
            exact (progress_foldl (s := ⟨db, executed⟩) hr now _ (db, 0) hstart hitems).once

theorem bookedOnce_step {s : Exchange} {a : BookingStep} (h : BookedOnce cid s)
    (hbroker : FromBroker cid s a) (honce : BooksOnce generateFillId cid s a) :
    BookedOnce cid (bookingStep generateFillId s a) := by
  cases a with
  | execute x => exact bookedOnce_execute h x
  | webhook e now => exact bookedOnce_webhook h hbroker honce
  | backfill api config now => exact bookedOnce_backfill h hbroker honce

/-! ## Runs -/

/-- From an order without fills and trades: whatever the broker executes, and however webhooks
and backfills interleave, neither total exceeds the executed quantity as long as every step
only books shares that no fill stands for yet. -/
theorem not_overbooked (generateFillId : Activity → String) (cid : String) (start : Exchange)
    (r : OrderRow) (steps : List BookingStep) (hr : start.db.orders.find? cid = some r)
    (hfilled : 0 ≤ r.filledQty) (hfills : r.metadata.fills = [])
    (htrades : start.db.activeTrades cid = [])
    (hbroker : EachStep (bookingStep generateFillId) (FromBroker cid) start steps)
    (honce : EachStep (bookingStep generateFillId) (BooksOnce generateFillId cid) start steps) :
    EveryState (bookingStep generateFillId) (NotOverbooked cid) start steps := by
  have hstart : BookedOnce cid start := by
    refine ⟨r, [], hr, ?_, ?_, List.Pairwise.nil, by simp, ?_⟩
    · exact Decimal.trunc_mono hfilled
    · rw [hfills]
      exact .nil
    · rw [hfills, Database.activeTradeQty, htrades]
      simp
  have hboth := eachStep_and.mpr ⟨hbroker, honce⟩
  have hinvariant : EveryState (bookingStep generateFillId) (BookedOnce cid) start steps :=
    everyState_of_eachStep (fun _ _ h hc => bookedOnce_step h hc.1 hc.2) hstart hboth
  exact hinvariant.mono fun _ h => h.notOverbooked

/-- An execution of five shares, as the broker lists it and as a webhook reports it. -/
def fiveShares : Execution := ⟨"act-1", 5, by decide, by decide⟩

def fiveSharesActivity : Activity :=
  ⟨some "act-1", some "b-1", "AAPL", "buy", 5, 100, some 2, none⟩

def fiveSharesEvent : OrderEvent where
  event := .partialFill
  order := ⟨some "o-1", some "b-1", some .partiallyFilled, some 5, some samplePrice,
    some 2, none, none⟩
  price := none
  timestamp := some 2
  filledAt := none
  executionId := none

def fiveSharesApi : ActivityApi := fun _ _ _ _ => some [fiveSharesActivity]

def dailyBackfill : BackfillConfig := ⟨none, false, true, 86400, 100, 5, 60⟩

theorem not_overbooked_backfill : EveryState (bookingStep fun _ => "") (NotOverbooked "o-1")
    ⟨acceptedOrder "o-1", []⟩ [.execute fiveShares, .backfill fiveSharesApi dailyBackfill 3] := by
  have hrow : (acceptedOrder "o-1").orders.find? "o-1" = some (acceptedRow "o-1") := by decide
  apply not_overbooked (fun _ => "") "o-1" ⟨acceptedOrder "o-1", []⟩ (acceptedRow "o-1") _ hrow
    (by decide) rfl (by decide)
  · refine ⟨trivial, ?_, trivial⟩
    intro a ha _ _ _
    have hfetched : a ∈ [fiveSharesActivity] := ha
    rw [List.mem_singleton.mp hfetched]
    exact ⟨fiveShares, List.mem_singleton_self _, rfl, Decimal.toRat_ofInt 5⟩
  · refine ⟨trivial, ?_, trivial⟩
    intro a _ order _ _ _ pre x post _ _ r hr f hf
    have heq : r = acceptedRow "o-1" := Option.some.inj (hr.symm.trans hrow)
    rw [heq] at hf
    cases hf

/-- One execution of five shares, delivered by webhook and then listed to the backfill: both
totals are ten. -/
theorem execution_booked_twice :
    let steps := [.execute fiveShares, .webhook fiveSharesEvent 2,
      .backfill fiveSharesApi dailyBackfill 3]
    let last := run (bookingStep fun _ => "") ⟨acceptedOrder "o-1", []⟩ steps
    executedQty last.executed = 5 ∧
      (last.db.orders.rows.map fun r => r.metadata.fills.map fun f => (f.fillId, f.fillQty)) =
        [[("o-1_5", 5), ("act-1", 5)]] ∧
      last.db.activeTradeQty "o-1" = 10 ∧
      ¬ EveryState (bookingStep fun _ => "") (NotOverbooked "o-1") ⟨acceptedOrder "o-1", []⟩
        steps := by
  have htrades : (run (bookingStep fun _ => "") ⟨acceptedOrder "o-1", []⟩
      [.execute fiveShares, .webhook fiveSharesEvent 2,
        .backfill fiveSharesApi dailyBackfill 3]).db.activeTradeQty "o-1" = 10 := by
    decide +kernel
  refine ⟨by decide +kernel, by decide +kernel, htrades, ?_⟩
  intro hevery
  have hlast := hevery.last
  have hsome : ((run (bookingStep fun _ => "") ⟨acceptedOrder "o-1", []⟩
      [.execute fiveShares, .webhook fiveSharesEvent 2,
        .backfill fiveSharesApi dailyBackfill 3]).db.orders.find? "o-1").isSome = true := by
    decide +kernel
  obtain ⟨r, hr⟩ := Option.isSome_iff_exists.mp hsome
  have hle := (hlast r hr).2
  rw [htrades] at hle
  exact absurd hle (by decide +kernel)

end Booking

end TradingPlatform.Gateway
