import TradingPlatform.Base.Run
import TradingPlatform.Gateway.Backfill
import TradingPlatform.Gateway.OrderWrites

/-! # Closing the gap

Histories of real fills and backfills on one order, and what one more backfill
makes of them. Quantities stay positive along a history, so real fills never
exceed the active total. A backfill then closes the gap unless the id it builds
is taken, which a superseded synthetic fill can bring about.
-/

namespace TradingPlatform.Gateway

open Base

/-- A fill that an execution stands for. -/
structure RealFill where
  record : FillRecord
  real : record.synthetic = false
  active : record.superseded = false
  qty_pos : 0 < record.fillQty

inductive FillStep where
  | realFill (fill : RealFill)
  | backfill (brokerOrder : BrokerFills) (updatedAt : Option Timestamp)
  | backfillFromOrder (order : OrderRow)

def fillStep (cid : String) (db : Database) (a : FillStep × Timestamp) : Database :=
  match a.1 with
  | .realFill fill => (appendFillToOrderMetadata db cid fill.record a.2).1
  | .backfill brokerOrder updatedAt =>
      (backfillFillMetadata db cid brokerOrder updatedAt none a.2).1
  | .backfillFromOrder order => (backfillFillMetadataFromOrder db order a.2).1

def Database.fillsOf (db : Database) (cid : String) : List FillRecord :=
  (db.orders.find? cid).elim [] (·.metadata.fills)

/-- After a run of the backfill the active total covers the reported quantity, it is exactly
that unless it was above it before, and a second run changes nothing. -/
def GapClosed (db : Database) (cid : String) (brokerOrder : BrokerFills)
    (updatedAt : Option Timestamp) (now now' : Timestamp) : Prop :=
  let reported := (brokerOrder.filledQty.getD 0).toRat
  let after := (backfillFillMetadata db cid brokerOrder updatedAt none now).1
  reported ≤ activeQty (after.fillsOf cid) ∧
    (realQty (db.fillsOf cid) ≤ reported → activeQty (db.fillsOf cid) ≤ reported →
      activeQty (after.fillsOf cid) = reported) ∧
    (backfillFillMetadata after cid brokerOrder updatedAt none now').1 = after

/-- The broker reports a price, and no fill of the order, superseded or not, has the id that
the gap leads to. -/
def GapFillable (db : Database) (cid : String) (brokerOrder : BrokerFills) : Prop :=
  brokerOrder.filledAvgPrice.isSome ∧
    ∀ f ∈ db.fillsOf cid, f.fillId ≠ syntheticFillId cid "recon"
      (brokerOrder.filledQty.getD 0)
      (missingQty (brokerOrder.filledQty.getD 0) (db.fillsOf cid))

/-! ## Positive quantities -/

def PositiveFills (fills : List FillRecord) : Prop := ∀ f ∈ fills, 0 < f.fillQty.toRat

theorem realQty_le_activeQty {fills : List FillRecord} (h : PositiveFills fills) :
    realQty fills ≤ activeQty fills := by
  have hsynthetic : 0 ≤ syntheticQty fills := by
    apply List.sum_nonneg
    intro q hq
    obtain ⟨f, hf, rfl⟩ := List.mem_map.mp hq
    exact (h f (List.mem_of_mem_filter hf)).le
  rw [activeQty_split]
  linarith

theorem positiveFills_appendFill {m : Metadata} {fill : FillRecord}
    (h : PositiveFills m.fills) (hfill : 0 < fill.fillQty.toRat) :
    PositiveFills (m.appendFill fill).fills := by
  have happended : PositiveFills (m.fills ++ [fill]) := by
    intro f hf
    rcases List.mem_append.mp hf with hold | hnew
    · exact h f hold
    · rw [List.mem_singleton.mp hnew]
      exact hfill
  simp only [Metadata.appendFill]
  split
  · exact happended
  · intro f hf
    obtain ⟨g, hg, rfl⟩ := List.mem_map.mp hf
    have hqty : g.supersedeSynthetic.fillQty = g.fillQty := by
      unfold FillRecord.supersedeSynthetic
      split <;> rfl
    rw [hqty]
    exact happended g hg

section History

variable {db : Database} {cid : String}

theorem fillsOf_append (fill : FillRecord) (now : Timestamp) {r : OrderRow}
    (hr : db.orders.find? cid = some r) :
    (appendFillToOrderMetadata db cid fill now).1.fillsOf cid =
      if acceptsFill r fill then (r.metadata.appendFill fill).fills else r.metadata.fills := by
  rw [Database.fillsOf, appendFill_find?, hr, Option.map_some]
  split <;> rfl

theorem fillsOf_append_ne {cid' : String} (fill : FillRecord) (now : Timestamp)
    (hne : cid ≠ cid') :
    (appendFillToOrderMetadata db cid' fill now).1.fillsOf cid = db.fillsOf cid := by
  rw [Database.fillsOf, (appendFill_frame db cid' fill now).1 cid hne]
  rfl

theorem positiveFills_append {cid' : String} {fill : FillRecord} (now : Timestamp)
    (h : PositiveFills (db.fillsOf cid)) (hfill : 0 < fill.fillQty.toRat) :
    PositiveFills ((appendFillToOrderMetadata db cid' fill now).1.fillsOf cid) := by
  by_cases hcid : cid = cid'
  · subst hcid
    cases hr : db.orders.find? cid with
    | none =>
        rw [Database.fillsOf, appendFill_find?, hr]
        intro f hf
        cases hf
    | some r =>
        rw [Database.fillsOf, hr] at h
        rw [fillsOf_append fill now hr]
        split
        · exact positiveFills_appendFill h hfill
        · exact h
  · rw [fillsOf_append_ne fill now hcid]
    exact h

theorem positiveFills_inject {cid' source storedSource : String} {filledQty price : Decimal}
    {timestamp : Timestamp} {fills : List FillRecord} (now : Timestamp)
    (h : PositiveFills (db.fillsOf cid)) :
    PositiveFills ((injectSyntheticFill db cid' filledQty price timestamp fills source
      storedSource now).1.fillsOf cid) := by
  unfold injectSyntheticFill
  split
  · exact h
  · rename_i fill hfill
    obtain ⟨hgap, -, -, hqty, -⟩ := calculateSyntheticFill_eq_some hfill
    apply positiveFills_append now h
    rw [hqty]
    linarith

/-- A step of a history keeps all quantities positive. -/
theorem positiveFills_step (a : FillStep × Timestamp) (h : PositiveFills (db.fillsOf cid)) :
    PositiveFills ((fillStep cid db a).fillsOf cid) := by
  obtain ⟨action, now⟩ := a
  cases action with
  | realFill fill =>
      have hqty := (Decimal.lt_iff _ _).mp fill.qty_pos
      rw [Decimal.toRat_zero] at hqty
      exact positiveFills_append now h hqty
  | backfill brokerOrder updatedAt =>
      simp only [fillStep, backfillFillMetadata]
      split
      · exact h
      · split
        · exact h
        · exact positiveFills_inject now h
  | backfillFromOrder order =>
      simp only [fillStep, backfillFillMetadataFromOrder]
      split
      · exact h
      · split
        · exact h
        · exact positiveFills_inject now h

theorem exists_order_step (a : FillStep × Timestamp) (h : (db.orders.find? cid).isSome) :
    ((fillStep cid db a).orders.find? cid).isSome := by
  have happend : ∀ (cid' : String) (fill : FillRecord) (now : Timestamp),
      ((appendFillToOrderMetadata db cid' fill now).1.orders.find? cid).isSome := by
    intro cid' fill now
    by_cases hcid : cid = cid'
    · subst hcid
      rw [appendFill_find?, Option.isSome_map]
      exact h
    · rw [(appendFill_frame db cid' fill now).1 cid hcid]
      exact h
  obtain ⟨action, now⟩ := a
  cases action with
  | realFill fill => exact happend cid fill.record now
  | backfill brokerOrder updatedAt =>
      simp only [fillStep, backfillFillMetadata, injectSyntheticFill]
      repeat' split
      all_goals first | exact h | exact happend _ _ now
  | backfillFromOrder order =>
      simp only [fillStep, backfillFillMetadataFromOrder, injectSyntheticFill]
      repeat' split
      all_goals first | exact h | exact happend _ _ now

/-! ## One more backfill -/

theorem syntheticFillId_ne_empty (cid source : String) (filledQty missing : Decimal) :
    syntheticFillId cid source filledQty missing ≠ "" := by
  intro h
  have hlength := congrArg String.length h
  simp [syntheticFillId, String.length_append] at hlength

theorem backfill_of_row {r : OrderRow} (hr : db.orders.find? cid = some r)
    {brokerOrder : BrokerFills} {price : Decimal} (hprice : brokerOrder.filledAvgPrice = some price)
    (updatedAt : Option Timestamp) (now : Timestamp) :
    backfillFillMetadata db cid brokerOrder updatedAt none now =
      injectSyntheticFill db cid (brokerOrder.filledQty.getD 0) price
        ((updatedAt <|> brokerOrder.updatedAt <|> brokerOrder.createdAt).getD now)
        r.metadata.fills "recon" "reconciliation_backfill" now := by
  simp only [backfillFillMetadata, hprice, hr]
  rfl

/-- A backfill that finds nothing to inject leaves the database as it is. -/
theorem backfill_of_covered {r : OrderRow} (hr : db.orders.find? cid = some r)
    {brokerOrder : BrokerFills} (updatedAt : Option Timestamp) (now : Timestamp)
    (hcovered : (brokerOrder.filledQty.getD 0).toRat ≤ activeQty (db.fillsOf cid)) :
    (backfillFillMetadata db cid brokerOrder updatedAt none now).1 = db := by
  have hfills : db.fillsOf cid = r.metadata.fills := by rw [Database.fillsOf, hr]; rfl
  rw [hfills] at hcovered
  cases hprice : brokerOrder.filledAvgPrice with
  | none => simp only [backfillFillMetadata, hprice]
  | some price =>
      rw [backfill_of_row hr hprice, injectSyntheticFill,
        (calculateSyntheticFill_eq_none _ _ _ _ _ _).mpr (Or.inr hcovered)]

theorem gapClosed_of_covered {brokerOrder : BrokerFills} {updatedAt : Option Timestamp}
    {now now' : Timestamp}
    (hsame : ∀ now, (backfillFillMetadata db cid brokerOrder updatedAt none now).1 = db) :
    GapClosed db cid brokerOrder updatedAt now now' ↔
      (brokerOrder.filledQty.getD 0).toRat ≤ activeQty (db.fillsOf cid) := by
  simp only [GapClosed, hsame]
  constructor
  · exact fun h => h.1
  · exact fun h => ⟨h, fun _ hle => le_antisymm hle h, trivial⟩

/-- Positive fills that do not cover the reported quantity leave a gap for a synthetic fill. -/
theorem exists_syntheticFill {fills : List FillRecord} (hpos : PositiveFills fills)
    {filledQty : Decimal} (hopen : ¬ filledQty.toRat ≤ activeQty fills) (cid : String)
    (price : Decimal) (timestamp : Timestamp) (source : String) :
    ∃ fill, calculateSyntheticFill cid filledQty price timestamp fills source = some fill := by
  apply Option.ne_none_iff_exists'.mp
  rw [Ne, calculateSyntheticFill_eq_none, not_or]
  refine ⟨?_, hopen⟩
  intro hle
  exact hopen (le_trans hle (realQty_le_activeQty hpos))

/-- A backfill of an open gap appends the synthetic fill of the gap. -/
theorem backfill_of_open {r : OrderRow} (hr : db.orders.find? cid = some r)
    (hpos : PositiveFills (db.fillsOf cid)) {brokerOrder : BrokerFills} {price : Decimal}
    (hprice : brokerOrder.filledAvgPrice = some price)
    (hopen : ¬ (brokerOrder.filledQty.getD 0).toRat ≤ activeQty (db.fillsOf cid))
    (updatedAt : Option Timestamp) (now : Timestamp) :
    ∃ fill : FillRecord, fill.synthetic = true ∧ fill.superseded = false ∧
      fill.fillQty.toRat = (brokerOrder.filledQty.getD 0).toRat - activeQty (db.fillsOf cid) ∧
      (acceptsFill r fill = true ↔ GapFillable db cid brokerOrder) ∧
      (backfillFillMetadata db cid brokerOrder updatedAt none now).1 =
        (appendFillToOrderMetadata db cid fill now).1 := by
  have hfills : db.fillsOf cid = r.metadata.fills := by rw [Database.fillsOf, hr]; rfl
  obtain ⟨fill, hfill⟩ := exists_syntheticFill hpos hopen cid price
    ((updatedAt <|> brokerOrder.updatedAt <|> brokerOrder.createdAt).getD now) "recon"
  rw [hfills] at hfill
  obtain ⟨-, hsynthetic, hactive, hqty, hid⟩ := calculateSyntheticFill_eq_some hfill
  refine ⟨{ fill with source := some "reconciliation_backfill" }, hsynthetic, hactive, ?_, ?_, ?_⟩
  · rw [hfills]
    exact hqty
  · have hne := syntheticFillId_ne_empty cid "recon" (brokerOrder.filledQty.getD 0)
      (missingQty (brokerOrder.filledQty.getD 0) r.metadata.fills)
    simp [acceptsFill, Metadata.hasFill, GapFillable, hprice, hfills, hne, hid]
  · simp only [backfill_of_row hr hprice, injectSyntheticFill, hfill]

/-- A synthetic fill of the gap that is appended makes the active total the reported one. -/
theorem activeQty_of_gap {r : OrderRow} (hr : db.orders.find? cid = some r)
    {fill : FillRecord} {reported : ℚ} (hsynthetic : fill.synthetic = true)
    (hactive : fill.superseded = false)
    (hqty : fill.fillQty.toRat = reported - activeQty (db.fillsOf cid))
    (haccepts : acceptsFill r fill = true) (now : Timestamp) :
    activeQty ((appendFillToOrderMetadata db cid fill now).1.fillsOf cid) = reported := by
  have hfills : db.fillsOf cid = r.metadata.fills := by rw [Database.fillsOf, hr]; rfl
  rw [hfills] at hqty
  rw [fillsOf_append _ _ hr, if_pos haccepts]
  simp only [Metadata.appendFill, hsynthetic, if_true]
  rw [activeQty_append, activeQty_cons, activeQty_nil]
  simp [hactive, hqty]

/-- One backfill from a list of positive quantities. -/
theorem gapClosed_iff_of_positive {r : OrderRow} (hr : db.orders.find? cid = some r)
    (hpos : PositiveFills (db.fillsOf cid)) (brokerOrder : BrokerFills)
    (updatedAt : Option Timestamp) (now now' : Timestamp) :
    GapClosed db cid brokerOrder updatedAt now now' ↔
      (brokerOrder.filledQty.getD 0).toRat ≤ activeQty (db.fillsOf cid) ∨
        GapFillable db cid brokerOrder := by
  by_cases hcovered : (brokerOrder.filledQty.getD 0).toRat ≤ activeQty (db.fillsOf cid)
  · rw [gapClosed_of_covered fun now => backfill_of_covered hr updatedAt now hcovered]
    exact iff_of_true hcovered (Or.inl hcovered)
  · rw [or_iff_right hcovered]
    cases hprice : brokerOrder.filledAvgPrice with
    | none =>
        have hsame : ∀ now, (backfillFillMetadata db cid brokerOrder updatedAt none now).1 =
            db := by
          intro now
          rw [backfillFillMetadata, hprice]
        rw [gapClosed_of_covered hsame]
        refine iff_of_false hcovered ?_
        simp [GapFillable, hprice]
    | some price =>
        obtain ⟨fill, hsynthetic, hactive, hqty, hfree, hafter⟩ :=
          backfill_of_open hr hpos hprice hcovered updatedAt now
        rw [← hfree]
        by_cases haccepts : acceptsFill r fill = true
        · refine iff_of_true ?_ haccepts
          have htotal := activeQty_of_gap hr hsynthetic hactive hqty haccepts now
          have hrow := appendFill_find? db cid fill now
          rw [hr, Option.map_some] at hrow
          simp only [GapClosed, hafter]
          exact ⟨htotal.ge, fun _ _ => htotal,
            backfill_of_covered hrow updatedAt now' htotal.ge⟩
        · refine iff_of_false ?_ haccepts
          intro hclosed
          have hfirst := hclosed.1
          rw [hafter, appendFill_of_not_accepts hr haccepts] at hfirst
          exact hcovered hfirst

/-- A backfill after any history of real fills and backfills closes the gap exactly when the
active fills cover the reported quantity already, or there is a price and the id of the
synthetic fill is free. -/
theorem gap_closed_iff (start : Database) (cid : String) (r : OrderRow)
    (history : List (FillStep × Timestamp)) (brokerOrder : BrokerFills)
    (updatedAt : Option Timestamp) (now now' : Timestamp)
    (hr : start.orders.find? cid = some r) (hempty : r.metadata.fills = []) :
    GapClosed (run (fillStep cid) start history) cid brokerOrder updatedAt now now' ↔
      (brokerOrder.filledQty.getD 0).toRat ≤
          activeQty ((run (fillStep cid) start history).fillsOf cid) ∨
        GapFillable (run (fillStep cid) start history) cid brokerOrder := by
  have hstart : PositiveFills (start.fillsOf cid) := by
    rw [Database.fillsOf, hr]
    intro f hf
    simp [hempty] at hf
  have hpos : EveryState (fillStep cid) (fun db => PositiveFills (db.fillsOf cid)) start
      history := by
    apply everyState_of_step
    · intro db a h
      exact positiveFills_step a h
    · exact hstart
  have hexists : EveryState (fillStep cid) (fun db => (db.orders.find? cid).isSome) start
      history := by
    apply everyState_of_step
    · intro db a h
      exact exists_order_step a h
    · rw [hr]
      rfl
  obtain ⟨r', hr'⟩ := Option.isSome_iff_exists.mp hexists.last
  exact gapClosed_iff_of_positive hr' hpos.last brokerOrder updatedAt now now'

/-- Four shares, then ten, are reported before the execution of the first four arrives. -/
def supersededGapHistory : List (FillStep × Timestamp) :=
  [(.backfill ⟨some 4, some 100, none, none⟩ none, 1),
    (.backfill ⟨some 10, some 100, none, none⟩ none, 2),
    (.realFill ⟨⟨"o-1_4", 4, 100, 0, none, false, false, none, "USD"⟩, rfl, rfl, by decide⟩, 3)]

theorem gap_closed_iff_superseded :
    GapClosed (run (fillStep "o-1") (acceptedOrder "o-1") supersededGapHistory) "o-1"
        ⟨some 10, some 100, none, none⟩ none 4 5 ↔
      (10 : Decimal).toRat ≤
          activeQty ((run (fillStep "o-1") (acceptedOrder "o-1") supersededGapHistory).fillsOf
            "o-1") ∨
        GapFillable (run (fillStep "o-1") (acceptedOrder "o-1") supersededGapHistory) "o-1"
          ⟨some 10, some 100, none, none⟩ :=
  gap_closed_iff (acceptedOrder "o-1") "o-1" (acceptedRow "o-1") supersededGapHistory
    ⟨some 10, some 100, none, none⟩ none 4 5 (by decide) rfl

/-- The id of the gap of six is taken by a superseded fill: the backfill of ten shares appends
nothing, leaves a total of four and still reports an injected fill. -/
theorem superseded_id_blocks_gap :
    let db := run (fillStep "o-1") (acceptedOrder "o-1") supersededGapHistory
    let after := backfillFillMetadata db "o-1" ⟨some 10, some 100, none, none⟩ none none 4
    after.2 = true ∧ activeQty (after.1.fillsOf "o-1") = 4 ∧
      ¬ GapClosed db "o-1" ⟨some 10, some 100, none, none⟩ none 4 5 := by
  have hqty : activeQty ((backfillFillMetadata
      (run (fillStep "o-1") (acceptedOrder "o-1") supersededGapHistory) "o-1"
      ⟨some 10, some 100, none, none⟩ none none 4).1.fillsOf "o-1") = 4 := by
    decide +kernel
  refine ⟨by decide +kernel, hqty, ?_⟩
  intro hclosed
  have hcovers := hclosed.1
  rw [hqty] at hcovers
  exact absurd hcovers (by decide +kernel)

end History

end TradingPlatform.Gateway
