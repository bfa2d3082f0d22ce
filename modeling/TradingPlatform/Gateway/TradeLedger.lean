import TradingPlatform.Base.Run
import TradingPlatform.Gateway.OrderWrites
import TradingPlatform.Gateway.Fills

/-! # One ledger behind metadata and trades

Fills are recorded twice, under two rules for what a real fill supersedes. The
ledger is what both should say: the appended fills in order, a synthetic one
superseded when a real fill of its order comes later. The metadata lists always
are its lines by order; the trades table is the ledger exactly as long as no
appended fill id has outer white space and no real one looks synthetic.
-/

namespace TradingPlatform.Gateway

open Base

structure AppendCall where
  clientOrderId : String
  fill : FillRecord
  now : Timestamp

def appendStep (db : Database) (c : AppendCall) : Database :=
  (appendFillToOrderMetadata db c.clientOrderId c.fill c.now).1

/-- A fill as the callers build it. -/
structure AppendCall.Valid (c : AppendCall) : Prop where
  qty_pos : 0 < c.fill.fillQty
  price_pos : 0 < c.fill.fillPrice
  active : c.fill.superseded = false

/-! ## The ledger -/

/-- What both tables record of a fill. -/
structure LedgerLine where
  clientOrderId : String
  fillId : String
  qty : Decimal
  price : Decimal
  realizedPl : ℚ
  synthetic : Bool
  superseded : Bool
  deriving DecidableEq

def FillRecord.line (clientOrderId : String) (f : FillRecord) : LedgerLine :=
  ⟨clientOrderId, f.fillId, f.fillQty, f.fillPrice, f.realizedPl, f.synthetic, f.superseded⟩

def Trade.line (t : Trade) : LedgerLine :=
  ⟨t.clientOrderId, t.tradeId, t.qty, t.price, t.realizedPnl, t.synthetic, t.superseded⟩

/-- The order exists and the fill has an id. -/
def AppendCall.lands (start : Database) (c : AppendCall) : Bool :=
  (start.orders.find? c.clientOrderId).isSome && c.fill.fillId ≠ ""

/-- A real fill of the order. -/
def AppendCall.realFor (start : Database) (clientOrderId : String) (c : AppendCall) : Bool :=
  c.lands start && c.clientOrderId = clientOrderId && !c.fill.synthetic

/-- One line for each call that lands, in order. -/
def ledger (start : Database) : List AppendCall → List LedgerLine
  | [] => []
  | c :: later =>
      if c.lands start then
        { c.fill.line c.clientOrderId with
          superseded := c.fill.synthetic && later.any (·.realFor start c.clientOrderId) } ::
            ledger start later
      else ledger start later

/-- Both tables say what the ledger says, and the totals are sums. -/
structure Agrees (start : Database) (calls : List AppendCall) (db : Database) : Prop where
  trades : db.trades.rows.map Trade.line = ledger start calls
  metadata : ∀ cid r, db.orders.find? cid = some r →
    r.metadata.fills.map (·.line cid) = (ledger start calls).filter (·.clientOrderId = cid)
  distinct : ∀ cid r, db.orders.find? cid = some r → (r.metadata.fills.map (·.fillId)).Nodup
  total : ∀ cid r, db.orders.find? cid = some r →
    r.metadata.totalRealizedPl = (r.metadata.fills.map (·.realizedPl)).sum

/-- The fill id is stored as it is, and that of a real fill has no `recon` strictly inside. -/
def AppendCall.CleanId (c : AppendCall) : Prop :=
  strip c.fill.fillId = c.fill.fillId ∧
    (c.fill.synthetic = false → ¬ ∃ pre before after post,
      c.fill.fillId.toList = pre ++ before :: ("recon".toList ++ after :: post))

/-! ## The ledger grows at its end -/

/-- What a call does to the lines before it. -/
def LedgerLine.after (start : Database) (c : AppendCall) (l : LedgerLine) : LedgerLine :=
  if c.realFor start l.clientOrderId && l.synthetic then { l with superseded := true } else l

@[simp] theorem LedgerLine.after_fillId (start : Database) (c : AppendCall) (l : LedgerLine) :
    (l.after start c).fillId = l.fillId := by
  unfold LedgerLine.after
  split <;> rfl

@[simp] theorem LedgerLine.after_clientOrderId (start : Database) (c : AppendCall)
    (l : LedgerLine) : (l.after start c).clientOrderId = l.clientOrderId := by
  unfold LedgerLine.after
  split <;> rfl

theorem ledger_snoc (start : Database) (calls : List AppendCall) (c : AppendCall) :
    ledger start (calls ++ [c]) = (ledger start calls).map (·.after start c) ++
      if c.lands start then [{ c.fill.line c.clientOrderId with superseded := false }] else [] := by
  induction calls with
  | nil =>
      cases hlands : c.lands start <;> simp [ledger, hlands]
  | cons d calls ih =>
      rw [List.cons_append, ledger, ledger, ih]
      cases hlands : d.lands start with
      | false => simp
      | true =>
          simp only [if_true, List.map_cons, List.cons_append, List.any_append, List.any_cons,
            List.any_nil, Bool.or_false]
          congr 1
          unfold LedgerLine.after
          cases hsynthetic : d.fill.synthetic <;>
            cases hreal : c.realFor start d.clientOrderId <;>
            simp [FillRecord.line, hsynthetic, hreal]

theorem ledger_ids (start : Database) (calls : List AppendCall) :
    ((ledger start calls).map (·.fillId)).Sublist (calls.map (·.fill.fillId)) := by
  induction calls with
  | nil => exact List.Sublist.refl _
  | cons c calls ih =>
      rw [ledger, List.map_cons]
      split
      · exact ih.cons_cons _
      · exact ih.cons _

/-! ## The invariant -/

/-- What every run of distinct valid fills keeps, whatever the ids look like. -/
structure Booked (start : Database) (calls : List AppendCall) (db : Database) : Prop where
  orders : ∀ cid, (db.orders.find? cid).isSome = (start.orders.find? cid).isSome
  metadata : ∀ cid r, db.orders.find? cid = some r →
    r.metadata.fills.map (·.line cid) = (ledger start calls).filter (·.clientOrderId = cid)
  total : ∀ cid r, db.orders.find? cid = some r →
    r.metadata.totalRealizedPl = (r.metadata.fills.map (·.realizedPl)).sum
  superseded : ∀ t ∈ db.trades.rows, t.synthetic = false → looksSynthetic t.tradeId = true →
    t.superseded = true
  ids : (calls.map (·.fill.fillId)).Nodup

section Steps

variable {start db : Database} {calls : List AppendCall} {c : AppendCall} {r : OrderRow}

theorem Booked.fillIds (h : Booked start calls db) {cid : String}
    (hr : db.orders.find? cid = some r) :
    (r.metadata.fills.map (·.fillId)).Sublist (calls.map (·.fill.fillId)) := by
  have hlines : r.metadata.fills.map (·.fillId) =
      (r.metadata.fills.map (·.line cid)).map (·.fillId) := by
    rw [List.map_map]
    rfl
  rw [hlines, h.metadata cid r hr]
  exact (List.filter_sublist.map _).trans (ledger_ids start calls)

/-- Booked tables agree as soon as the trades are the ledger. -/
theorem Booked.agrees_iff (h : Booked start calls db) :
    Agrees start calls db ↔ db.trades.rows.map Trade.line = ledger start calls := by
  constructor
  · exact fun hagrees => hagrees.trades
  · intro htrades
    refine ⟨htrades, h.metadata, ?_, h.total⟩
    intro cid r hr
    exact h.ids.sublist (h.fillIds hr)

theorem Booked.accepts (h : Booked start calls db)
    (hnew : c.fill.fillId ∉ calls.map (·.fill.fillId))
    (hr : db.orders.find? c.clientOrderId = some r) :
    acceptsFill r c.fill = c.lands start := by
  have hfresh : r.metadata.hasFill c.fill.fillId = false := by
    rw [Metadata.hasFill, List.any_eq_false]
    intro f hf
    rw [decide_eq_true_eq]
    intro heq
    apply hnew
    rw [← heq]
    exact (h.fillIds hr).subset (List.mem_map_of_mem hf)
  have hexists := h.orders c.clientOrderId
  rw [hr] at hexists
  simp [acceptsFill, AppendCall.lands, hfresh, ← hexists]

/-- A call that lands appends to the row of its order and to the trades. -/
theorem Booked.step (h : Booked start calls db) (hnew : c.fill.fillId ∉ calls.map (·.fill.fillId)) :
    (c.lands start = true ∧ ∃ r, db.orders.find? c.clientOrderId = some r ∧
      appendStep db c =
        { db.updateOrder c.clientOrderId (·.withFill c.fill c.now) with
          trades := insertTradeFromFill db.trades (r.withFill c.fill c.now) c.fill }) ∨
      (c.lands start = false ∧ appendStep db c = db) := by
  rcases appendFill_cases db c.clientOrderId c.fill c.now with ⟨r, hr, haccepts, heq⟩ |
    ⟨hrejects, heq⟩
  · left
    rw [h.accepts hnew hr] at haccepts
    refine ⟨haccepts, r, hr, ?_⟩
    rw [appendStep, heq]
  · right
    refine ⟨?_, by rw [appendStep, heq]⟩
    cases hr : db.orders.find? c.clientOrderId with
    | none =>
        have hmissing := h.orders c.clientOrderId
        rw [hr] at hmissing
        simp [AppendCall.lands, ← hmissing]
    | some r => rw [← h.accepts hnew hr, hrejects r hr]

theorem ledger_of_not_lands (calls : List AppendCall) (hlands : c.lands start = false) :
    ledger start (calls ++ [c]) = ledger start calls := by
  rw [ledger_snoc, hlands, if_neg (by simp), List.append_nil]
  have hsame : ∀ l : LedgerLine, l.after start c = l := by
    intro l
    simp [LedgerLine.after, AppendCall.realFor, hlands]
  rw [List.map_congr_left fun l _ => hsame l, List.map_id']

/-- The lines of a metadata list after an append. -/
theorem appendFill_lines (hvalid : c.Valid) (m : Metadata) (cid : String)
    (hlands : c.lands start = true) (hcid : c.clientOrderId = cid) :
    (m.appendFill c.fill).fills.map (·.line cid) =
      (m.fills.map (·.line cid)).map (·.after start c) ++
        [{ c.fill.line cid with superseded := false }] := by
  have hnewLine : { c.fill.line cid with superseded := false } = c.fill.line cid := by
    simp [FillRecord.line, hvalid.active]
  have hreal : c.realFor start cid = !c.fill.synthetic := by
    simp [AppendCall.realFor, hlands, hcid]
  have hafter : ∀ f : FillRecord, (f.line cid).after start c =
      if c.fill.synthetic then f.line cid else f.supersedeSynthetic.line cid := by
    intro f
    have hf : (f.line cid).clientOrderId = cid := rfl
    rw [LedgerLine.after, hf, hreal]
    cases hs : f.synthetic <;> cases hc : c.fill.synthetic <;>
      simp [FillRecord.line, FillRecord.supersedeSynthetic, hs]
  rw [hnewLine, List.map_map]
  simp only [Metadata.appendFill]
  cases hc : c.fill.synthetic with
  | true =>
      simp only [if_true, List.map_append, List.map_singleton]
      congr 1
      apply List.map_congr_left
      intro f _
      rw [Function.comp_apply, hafter, hc, if_pos rfl]
  | false =>
      simp only [Bool.false_eq_true, if_false, List.map_append, List.map_singleton, List.map_map]
      congr 1
      · apply List.map_congr_left
        intro f _
        rw [Function.comp_apply, Function.comp_apply, hafter, hc, if_neg (by simp)]
      · simp [FillRecord.supersedeSynthetic, hc]

theorem appendFill_total (m : Metadata) (fill : FillRecord)
    (htotal : m.totalRealizedPl = (m.fills.map (·.realizedPl)).sum) :
    (m.appendFill fill).totalRealizedPl =
      ((m.appendFill fill).fills.map (·.realizedPl)).sum := by
  have hkeeps : ∀ f : FillRecord, f.supersedeSynthetic.realizedPl = f.realizedPl := by
    intro f
    unfold FillRecord.supersedeSynthetic
    split <;> rfl
  simp only [Metadata.appendFill, htotal]
  split
  · simp
  · have hfun : (fun f : FillRecord => f.realizedPl) ∘ FillRecord.supersedeSynthetic =
        fun f => f.realizedPl := funext hkeeps
    rw [List.map_map, hfun]
    simp

theorem insertTradeFromFill_superseded {trades : Table String Trade (·.tradeId)}
    {order : OrderRow} {fill : FillRecord}
    (h : ∀ t ∈ trades.rows, t.synthetic = false → looksSynthetic t.tradeId = true →
      t.superseded = true) :
    ∀ t ∈ (insertTradeFromFill trades order fill).rows, t.synthetic = false →
      looksSynthetic t.tradeId = true → t.superseded = true := by
  intro t ht hreal hlooks
  rcases insertTradeFromFill_cases trades order fill with hsame | ⟨hbooked, -, hrows⟩
  · rw [hsame] at ht
    exact h t ht hreal hlooks
  · rw [hrows] at ht
    split at ht
    · rename_i hsynthetic
      rcases Table.mem_insert_getD ht with hold | hnew
      · exact h t hold hreal hlooks
      · rw [hnew, tradeFromFill, hsynthetic] at hreal
        cases hreal
    · obtain ⟨x, hx, heq⟩ := List.mem_map.mp ht
      unfold supersedeTrade at heq
      split at heq
      · rw [← heq]
      · rename_i hkept
        rw [heq] at hkept hx
        rcases Table.mem_insert_getD hx with hold | hnew
        · exact h t hold hreal hlooks
        · have hcid : t.clientOrderId = order.clientOrderId := by rw [hnew]; rfl
          simpa [supersededByReal, hcid, hlooks] using hkept

/-- A real fill marks the old rows of a booked database as the ledger does. -/
theorem supersedeTrade_line {t : Trade} (hlands : c.lands start = true)
    (hreal : c.fill.synthetic = false)
    (hsup : t.synthetic = false → looksSynthetic t.tradeId = true → t.superseded = true) :
    (supersedeTrade c.clientOrderId t).line = t.line.after start c := by
  have hfor : c.realFor start t.clientOrderId = decide (t.clientOrderId = c.clientOrderId) := by
    simp [AppendCall.realFor, hlands, hreal, eq_comm]
  have hline : t.line.clientOrderId = t.clientOrderId := rfl
  rw [LedgerLine.after, hline, hfor, supersedeTrade, supersededByReal]
  cases hsyn : t.synthetic <;> cases hs : t.superseded <;> cases hl : looksSynthetic t.tradeId <;>
    simp_all [Trade.line]
  all_goals split <;> simp_all

/-- The rows after a fill was recorded: the order's own one, and the others as before. -/
theorem withFill_find? {cid : String} {r' : OrderRow}
    (hr : db.orders.find? c.clientOrderId = some r)
    (hr' : (db.updateOrder c.clientOrderId (·.withFill c.fill c.now)).orders.find? cid =
      some r') :
    (cid = c.clientOrderId ∧ r' = r.withFill c.fill c.now) ∨
      (cid ≠ c.clientOrderId ∧ db.orders.find? cid = some r') := by
  by_cases hcid : cid = c.clientOrderId
  · left
    subst hcid
    rw [updateOrder_find?, hr, Option.map_some, Option.some.injEq] at hr'
    exact ⟨rfl, hr'.symm⟩
  · right
    rw [updateOrder_find?_ne _ _ _ hcid] at hr'
    exact ⟨hcid, hr'⟩

theorem withFill_isSome (hr : db.orders.find? c.clientOrderId = some r) (cid : String) :
    ((db.updateOrder c.clientOrderId (·.withFill c.fill c.now)).orders.find? cid).isSome =
      (db.orders.find? cid).isSome := by
  by_cases hcid : cid = c.clientOrderId
  · subst hcid
    rw [updateOrder_find?, hr, Option.map_some, Option.isSome_some, Option.isSome_some]
  · rw [updateOrder_find?_ne _ _ _ hcid]

/-- The ledger lines of one order after a call that lands. -/
theorem ledger_filter_snoc (calls : List AppendCall) (hlands : c.lands start = true)
    (cid : String) :
    (ledger start (calls ++ [c])).filter (·.clientOrderId = cid) =
      ((ledger start calls).filter (·.clientOrderId = cid)).map (·.after start c) ++
        if c.clientOrderId = cid
        then [{ c.fill.line c.clientOrderId with superseded := false }] else [] := by
  have hkeep : (fun l : LedgerLine => decide (l.clientOrderId = cid)) ∘
      (LedgerLine.after start c) = fun l : LedgerLine => decide (l.clientOrderId = cid) := by
    funext l
    rw [Function.comp_apply, LedgerLine.after_clientOrderId]
  rw [ledger_snoc, if_pos hlands, List.filter_append, List.filter_map, hkeep]
  congr 1
  by_cases hcid : c.clientOrderId = cid <;> simp [FillRecord.line, hcid]

/-- A call leaves the lines of every other order as they are. -/
theorem after_filter_ne {cid : String} (hcid : cid ≠ c.clientOrderId) (lines : List LedgerLine) :
    (lines.filter (·.clientOrderId = cid)).map (·.after start c) =
      lines.filter (·.clientOrderId = cid) := by
  have hother : ∀ l ∈ lines.filter (·.clientOrderId = cid), l.after start c = l := by
    intro l hl
    have hl := (List.mem_filter.mp hl).2
    rw [decide_eq_true_eq] at hl
    have hne : c.clientOrderId ≠ l.clientOrderId := by
      rw [hl]
      exact hcid.symm
    simp [LedgerLine.after, AppendCall.realFor, hne]
  rw [List.map_congr_left hother, List.map_id']

theorem nodup_snoc (hids : (calls.map (·.fill.fillId)).Nodup)
    (hnew : c.fill.fillId ∉ calls.map (·.fill.fillId)) :
    ((calls ++ [c]).map (·.fill.fillId)).Nodup := by
  rw [List.map_append, List.map_singleton, List.nodup_append]
  refine ⟨hids, List.nodup_singleton _, ?_⟩
  intro a ha b hb heq
  rw [List.mem_singleton] at hb
  exact hnew (hb ▸ heq ▸ ha)

theorem booked_step (h : Booked start calls db) (hvalid : c.Valid)
    (hnew : c.fill.fillId ∉ calls.map (·.fill.fillId)) :
    Booked start (calls ++ [c]) (appendStep db c) := by
  have hids := nodup_snoc h.ids hnew
  rcases h.step hnew with ⟨hlands, r, hr, hstep⟩ | ⟨hlands, hstep⟩
  · rw [hstep]
    refine ⟨?_, ?_, ?_, insertTradeFromFill_superseded h.superseded, hids⟩
    · intro cid
      rw [← h.orders cid]
      exact withFill_isSome hr cid
    · intro cid r' hr'
      rw [ledger_filter_snoc calls hlands]
      rcases withFill_find? hr hr' with ⟨hcid, heq⟩ | ⟨hcid, hold⟩
      · have hlines := appendFill_lines hvalid r.metadata cid hlands hcid.symm
        have hmeta : r'.metadata = r.metadata.appendFill c.fill := by rw [heq]; rfl
        rw [hmeta, hlines, h.metadata cid r (hcid ▸ hr), if_pos hcid.symm, hcid]
      · rw [if_neg hcid.symm, List.append_nil, after_filter_ne hcid, h.metadata cid r' hold]
    · intro cid r' hr'
      rcases withFill_find? hr hr' with ⟨hcid, heq⟩ | ⟨hcid, hold⟩
      · rw [heq]
        exact appendFill_total r.metadata c.fill (h.total cid r (hcid ▸ hr))
      · exact h.total cid r' hold
  · rw [hstep]
    have hsame := ledger_of_not_lands calls hlands
    refine ⟨h.orders, ?_, h.total, h.superseded, hids⟩
    rw [hsame]
    exact h.metadata

theorem lands_fillId_ne (hlands : c.lands start = true) : c.fill.fillId ≠ "" := by
  simpa using (Bool.and_eq_true_iff.mp hlands).2

theorem trade_ids_of_ledger (htrades : db.trades.rows.map Trade.line = ledger start calls) :
    db.trades.rows.map (·.tradeId) = (ledger start calls).map (·.fillId) := by
  rw [← htrades, List.map_map]
  rfl

/-- A new fill whose id needs no stripping becomes a new trade. -/
theorem fresh_tradeId (htrades : db.trades.rows.map Trade.line = ledger start calls)
    (hnew : c.fill.fillId ∉ calls.map (·.fill.fillId)) :
    c.fill.fillId ∉ db.trades.rows.map (·.tradeId) := by
  rw [trade_ids_of_ledger htrades]
  exact fun hmem => hnew ((ledger_ids start calls).subset hmem)

/-- The trade written for a synthetic fill is its ledger line. -/
theorem insertTrade_synthetic (hvalid : c.Valid)
    (hnew : c.fill.fillId ∉ calls.map (·.fill.fillId))
    (htrades : db.trades.rows.map Trade.line = ledger start calls)
    (hlands : c.lands start = true) (hclient : r.clientOrderId = c.clientOrderId)
    (hstrip : strip c.fill.fillId = c.fill.fillId) (hsynthetic : c.fill.synthetic = true) :
    (insertTradeFromFill db.trades (r.withFill c.fill c.now) c.fill).rows.map Trade.line =
      ledger start (calls ++ [c]) := by
  have hrows := insertTradeFromFill_rows_of_fresh (r.withFill c.fill c.now)
    (by rw [hstrip]; exact lands_fillId_ne hlands) ⟨hvalid.qty_pos, hvalid.price_pos⟩
    (by rw [hstrip]; exact fresh_tradeId htrades hnew)
  have hnewLine : (tradeFromFill (r.withFill c.fill c.now) c.fill
      ⟨hvalid.qty_pos, hvalid.price_pos⟩).line =
      { c.fill.line c.clientOrderId with superseded := false } := by
    simp [tradeFromFill, Trade.line, FillRecord.line, OrderRow.withFill, hclient, hstrip,
      hvalid.active]
  have hsame : ∀ l : LedgerLine, l.after start c = l := by
    intro l
    simp [LedgerLine.after, AppendCall.realFor, hsynthetic]
  rw [hrows, if_pos hsynthetic, ledger_snoc, if_pos hlands, List.map_append, htrades,
    List.map_congr_left fun l _ => hsame l, List.map_id', List.map_singleton, hnewLine]

/-- A real fill is written as its ledger line, superseded at once when its id looks
synthetic; the older trades are marked as the ledger marks its lines. -/
theorem insertTrade_real (h : Booked start calls db) (hvalid : c.Valid)
    (hnew : c.fill.fillId ∉ calls.map (·.fill.fillId))
    (htrades : db.trades.rows.map Trade.line = ledger start calls)
    (hlands : c.lands start = true) (hclient : r.clientOrderId = c.clientOrderId)
    (hstrip : strip c.fill.fillId = c.fill.fillId) (hreal : c.fill.synthetic = false) :
    (insertTradeFromFill db.trades (r.withFill c.fill c.now) c.fill).rows.map Trade.line =
      (ledger start calls).map (·.after start c) ++
        [{ c.fill.line c.clientOrderId with superseded := looksSynthetic c.fill.fillId }] := by
  have hrows := insertTradeFromFill_rows_of_fresh (r.withFill c.fill c.now)
    (by rw [hstrip]; exact lands_fillId_ne hlands) ⟨hvalid.qty_pos, hvalid.price_pos⟩
    (by rw [hstrip]; exact fresh_tradeId htrades hnew)
  have horder : (r.withFill c.fill c.now).clientOrderId = c.clientOrderId := hclient
  have hold : (db.trades.rows.map (supersedeTrade c.clientOrderId)).map Trade.line =
      (ledger start calls).map (·.after start c) := by
    rw [← htrades, List.map_map, List.map_map]
    apply List.map_congr_left
    intro t ht
    exact supersedeTrade_line hlands hreal (h.superseded t ht)
  have hlooks : (supersedeTrade c.clientOrderId
      (tradeFromFill (r.withFill c.fill c.now) c.fill
        ⟨hvalid.qty_pos, hvalid.price_pos⟩)).line =
      { c.fill.line c.clientOrderId with superseded := looksSynthetic c.fill.fillId } := by
    simp only [supersedeTrade, supersededByReal, tradeFromFill, horder, hstrip, hreal,
      hvalid.active]
    cases hl : looksSynthetic c.fill.fillId <;> simp [Trade.line, FillRecord.line, hreal]
  rw [hrows, if_neg (by simp [hreal]), List.map_append, List.map_append, horder, hold,
    List.map_singleton, List.map_singleton, hlooks]

/-- An id that needs stripping never reaches the trades as it stands in the ledger. -/
theorem insertTrade_ne_of_strip (htrades : db.trades.rows.map Trade.line = ledger start calls)
    (hlands : c.lands start = true) (hstrip : strip c.fill.fillId ≠ c.fill.fillId) :
    (insertTradeFromFill db.trades (r.withFill c.fill c.now) c.fill).rows.map Trade.line ≠
      ledger start (calls ++ [c]) := by
  intro hlines
  have hids := congrArg (List.map (·.fillId)) hlines
  rw [ledger_snoc, if_pos hlands, List.map_append, List.map_map, List.map_map] at hids
  have hafter : (fun l : LedgerLine => l.fillId) ∘ LedgerLine.after start c =
      fun l => l.fillId := by
    funext l
    exact LedgerLine.after_fillId start c l
  rw [hafter, ← trade_ids_of_ledger htrades] at hids
  have hids : (insertTradeFromFill db.trades (r.withFill c.fill c.now) c.fill).rows.map
      (·.tradeId) = db.trades.rows.map (·.tradeId) ++ [c.fill.fillId] := hids
  rcases insertTradeFromFill_ids db.trades (r.withFill c.fill c.now) c.fill with hsame | hadd
  · rw [hsame] at hids
    have hlength := congrArg List.length hids
    simp at hlength
  · rw [hadd, List.append_right_inj, List.singleton_inj] at hids
    exact hstrip hids

/-- After a call that lands, the trades are the ledger exactly when the id is clean. -/
theorem trades_step (h : Booked start calls db) (hvalid : c.Valid)
    (hnew : c.fill.fillId ∉ calls.map (·.fill.fillId))
    (htrades : db.trades.rows.map Trade.line = ledger start calls) :
    (appendStep db c).trades.rows.map Trade.line = ledger start (calls ++ [c]) ↔
      (c.lands start = true → c.CleanId) := by
  rcases h.step hnew with ⟨hlands, r, hr, hstep⟩ | ⟨hlands, hstep⟩
  · have hclient : r.clientOrderId = c.clientOrderId := Table.find?_key hr
    rw [hstep]
    by_cases hstrip : strip c.fill.fillId = c.fill.fillId
    · cases hsynthetic : c.fill.synthetic with
      | true =>
          refine iff_of_true ?_ fun _ => ⟨hstrip, by simp [hsynthetic]⟩
          exact insertTrade_synthetic hvalid hnew htrades hlands hclient hstrip hsynthetic
      | false =>
          have hlines := insertTrade_real h hvalid hnew htrades hlands hclient hstrip hsynthetic
          rw [hlines, ledger_snoc, if_pos hlands, List.append_right_inj, AppendCall.CleanId,
            ← looksSynthetic_iff]
          simp [FillRecord.line, hstrip, hsynthetic, hlands]
    · refine iff_of_false ?_ fun hclean => hstrip (hclean hlands).1
      exact insertTrade_ne_of_strip htrades hlands hstrip
  · rw [hstep, ledger_of_not_lands calls hlands]
    exact iff_of_true htrades fun hcontra => by simp [hlands] at hcontra

end Steps

/-! ## Runs of appends -/

/-- From orders without fills and without trades, valid fills with distinct ids keep both
tables on the ledger after every call exactly when every id that lands is clean. -/
theorem metadata_trades_agree_iff (start : Database) (calls : List AppendCall)
    (hfills : ∀ r ∈ start.orders.rows, r.metadata = ⟨[], 0⟩) (htrades : start.trades.rows = [])
    (hvalid : ∀ c ∈ calls, c.Valid) (hids : (calls.map (·.fill.fillId)).Nodup) :
    (∀ n, Agrees start (calls.take n) (run appendStep start (calls.take n))) ↔
      ∀ c ∈ calls, c.lands start = true → c.CleanId := by
  have hstart : Booked start [] start := by
    refine ⟨fun _ => rfl, ?_, ?_, by simp [htrades], List.nodup_nil⟩
    · intro cid r hr
      simp [hfills r (Table.find?_mem hr), ledger]
    · intro cid r hr
      simp [hfills r (Table.find?_mem hr)]
  have hfresh : EachStep (recorded appendStep)
      (fun s c => c.Valid ∧ c.fill.fillId ∉ s.2.map (·.fill.fillId)) (start, []) calls := by
    rw [eachStep_and]
    exact ⟨eachStep_of_forall hvalid _, eachStep_recorded_fresh (by simpa using hids) start⟩
  have hexact :
      EveryState (recorded appendStep) (fun s => Agrees start s.2 s.1) (start, []) calls ↔
        EachStep (recorded appendStep) (fun _ c => c.lands start = true → c.CleanId)
          (start, []) calls := by
    apply everyState_iff_eachStep (G := fun s => Booked start s.2 s.1)
      (W := fun s c => c.Valid ∧ c.fill.fillId ∉ s.2.map (·.fill.fillId))
    · intro s c h hc _
      exact booked_step h hc.1 hc.2
    · intro s c h hc hagrees
      rw [recorded, (booked_step h hc.1 hc.2).agrees_iff]
      exact trades_step h hc.1 hc.2 hagrees.trades
    · exact hstart
    · exact hfresh
    · exact hstart.agrees_iff.mpr (by simp [htrades, ledger])
  rw [eachStep_const_iff, everyState_iff_prefix] at hexact
  rw [← hexact]
  simp only [run_recorded, List.nil_append]

/-- A fill of four shares at 100. -/
def fourShareFill (fillId : String) (synthetic : Bool) : FillRecord :=
  ⟨fillId, 4, 100, 0, none, synthetic, false, none, "USD"⟩

theorem metadata_trades_agree_iff_superseding :
    (∀ n, Agrees (acceptedOrder "o-1")
        ([⟨"o-1", fourShareFill "o-1_recon_4_4" true, 1⟩,
          ⟨"o-1", fourShareFill "o-1_4" false, 2⟩].take n)
        (run appendStep (acceptedOrder "o-1")
          ([⟨"o-1", fourShareFill "o-1_recon_4_4" true, 1⟩,
            ⟨"o-1", fourShareFill "o-1_4" false, 2⟩].take n))) ↔
      ∀ c ∈ [⟨"o-1", fourShareFill "o-1_recon_4_4" true, 1⟩,
        ⟨"o-1", fourShareFill "o-1_4" false, 2⟩],
        AppendCall.lands (acceptedOrder "o-1") c = true → c.CleanId :=
  metadata_trades_agree_iff (acceptedOrder "o-1") _ (by decide +kernel) (by decide)
    (by
      intro c hc
      simp only [List.mem_cons, List.not_mem_nil, or_false] at hc
      rcases hc with rfl | rfl
      · exact ⟨by decide, by decide, rfl⟩
      · exact ⟨by decide, by decide, rfl⟩)
    (by decide)

/-- An order may be called `my-recon-1`. Its first real fill is superseded in the trades as
soon as it is booked, and not in the metadata. -/
theorem real_fill_taken_for_synthetic :
    let calls : List AppendCall := [⟨"my-recon-1", fourShareFill "my-recon-1_4" false, 1⟩]
    let db := run appendStep (acceptedOrder "my-recon-1") calls
    clientOrderIdPattern "my-recon-1" = true ∧
      db.trades.rows.map (fun t => (t.tradeId, t.superseded)) = [("my-recon-1_4", true)] ∧
      (db.orders.rows.map fun r => r.metadata.fills.map fun f => (f.fillId, f.superseded)) =
        [[("my-recon-1_4", false)]] ∧
      ¬ Agrees (acceptedOrder "my-recon-1") calls db := by
  refine ⟨by decide, by decide, by decide, ?_⟩
  intro h
  exact absurd h.trades (by decide +kernel)

end TradingPlatform.Gateway
