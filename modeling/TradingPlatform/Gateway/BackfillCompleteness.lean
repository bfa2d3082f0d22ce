import TradingPlatform.Base.Paging
import TradingPlatform.Base.Run
import TradingPlatform.Gateway.AlpacaFills

/-! # What the activity backfill may lose

Runs of the backfill against a broker that lists its activities page by page,
newest first, with other writers in between. Each run covers the window from the
mark, less an overlap, up to now, and moves the mark to now; the page cap can
leave out the oldest activities of the window. An activity is appended exactly
when some run that covers it has it among the newest ones it has room for.
-/

namespace TradingPlatform.Gateway

open Base

/-! ## Broker -/

def Activity.occurredAt (a : Activity) : Option Timestamp := a.transactionTime <|> a.activityTime

def Activity.within (a : Activity) (after : Option Timestamp) (until_ : Timestamp) : Bool :=
  a.occurredAt.any fun t => after.all (· ≤ t) && t ≤ until_

/-- The FILL activities of an account. -/
structure ActivityLedger where
  activities : List Activity
  named : ∀ a ∈ activities, strip (a.id.getD "") ≠ ""
  ids_nodup : (activities.map fun a => strip (a.id.getD "")).Nodup
  increasing : activities.Pairwise fun a b => ∀ t ∈ a.occurredAt, ∀ u ∈ b.occurredAt, t < u

def activityWindow (ledger : ActivityLedger) (after : Option Timestamp) (until_ : Timestamp) :
    List Activity := (ledger.activities.filter fun a => a.within after until_).reverse

def activityKey (a : Activity) : String := a.id.getD ""

/-- Newest first, from the token activity on, which may be repeated. -/
def accountActivities (ledger : ActivityLedger) (repeats : Nat → Bool) : ActivityApi :=
  fun after until_ pageSize pageToken =>
    some (Paging.pageFrom activityKey repeats (activityWindow ledger after until_) pageSize
      pageToken)

theorem mem_activityWindow {ledger : ActivityLedger} {after : Option Timestamp}
    {until_ : Timestamp} {a : Activity} :
    a ∈ activityWindow ledger after until_ ↔
      a ∈ ledger.activities ∧ a.within after until_ = true := by
  rw [activityWindow, List.mem_reverse, List.mem_filter]

theorem activityWindow_keys_nodup (ledger : ActivityLedger) (after : Option Timestamp)
    (until_ : Timestamp) : ((activityWindow ledger after until_).map activityKey).Nodup := by
  have hkeys : (ledger.activities.map activityKey).Nodup := by
    have hstripped := ledger.ids_nodup
    rw [← Function.comp_def strip, ← List.map_map] at hstripped
    exact List.Nodup.of_map strip hstripped
  rw [activityWindow, List.map_reverse, List.nodup_reverse]
  exact (List.filter_sublist.map activityKey).nodup hkeys

/-- A ledger's activities have ids, and so pages have cursors. -/
theorem ActivityLedger.id_eq {ledger : ActivityLedger} {a : Activity}
    (h : a ∈ ledger.activities) : a.id = some (activityKey a) ∧ activityKey a ≠ "" := by
  have hnamed := ledger.named a h
  have hkey : activityKey a ≠ "" := by
    intro hblank
    rw [activityKey] at hblank
    rw [hblank] at hnamed
    exact hnamed (by decide)
  refine ⟨?_, hkey⟩
  cases hid : a.id with
  | none =>
      rw [activityKey, hid] at hkey
      exact absurd rfl hkey
  | some id => simp [activityKey, hid]

theorem ActivityLedger.eq_of_fillId {ledger : ActivityLedger} {generateFillId : Activity → String}
    {a b : Activity} (ha : a ∈ ledger.activities) (hb : b ∈ ledger.activities)
    (h : activityFillId generateFillId a = activityFillId generateFillId b) : a = b := by
  rw [activityFillId, activityFillId, if_neg (ledger.named a ha),
    if_neg (ledger.named b hb)] at h
  exact List.inj_on_of_nodup_map ledger.ids_nodup ha hb h

/-! ## What one run fetches -/

section Fetch

variable {ledger : ActivityLedger} {repeats : Nat → Bool} {after : Option Timestamp}
  {until_ : Timestamp}

theorem newActivities_eq_unseen {rawPage : List Activity}
    (hpage : ∀ a ∈ rawPage, a ∈ ledger.activities) (pageToken : Option String) :
    newActivities pageToken rawPage = Paging.unseen activityKey pageToken rawPage := by
  cases pageToken with
  | none => rfl
  | some last =>
      apply List.filter_congr
      intro a ha
      have hid := (ledger.id_eq (hpage a ha)).1
      simp [hid]

/-- The paging loop is the client of the paging library. -/
theorem fetchActivities_eq_fetchPages (pageSize pages : Nat) (pageToken : Option String) :
    fetchActivities (accountActivities ledger repeats) after until_ pageSize pages pageToken =
      some (Paging.fetchPages activityKey
        (Paging.pageFrom activityKey repeats (activityWindow ledger after until_)) pageSize pages
        pageToken) := by
  induction pages generalizing pageToken with
  | zero => rfl
  | succ pages ih =>
      have hpage : ∀ a ∈ Paging.pageFrom activityKey repeats
          (activityWindow ledger after until_) (requestSize pageSize pageToken) pageToken,
          a ∈ ledger.activities := by
        intro a ha
        exact (mem_activityWindow.mp (List.mem_of_mem_drop (List.mem_of_mem_take ha))).1
      simp only [fetchActivities, Paging.fetchPages, accountActivities, Option.bind_eq_bind,
        Option.bind_some, newActivities_eq_unseen hpage]
      rw [show Paging.requestSize pageSize pageToken = requestSize pageSize pageToken from rfl]
      generalize Paging.pageFrom activityKey repeats (activityWindow ledger after until_)
        (requestSize pageSize pageToken) pageToken = rawPage at hpage ⊢
      by_cases hshort : rawPage.length < requestSize pageSize pageToken
      · rw [if_pos hshort, if_pos hshort]
        rfl
      · rw [if_neg hshort, if_neg hshort]
        cases hlast : rawPage.getLast? with
        | none => rfl
        | some last =>
            obtain ⟨hid, hnonblank⟩ := ledger.id_eq (hpage last (List.mem_of_getLast? hlast))
            simp [hid, hnonblank, Option.filter, ih]

end Fetch

/-- Room of one run: how many of the newest activities its pages hold. -/
def pageCapacity (repeats : Nat → Bool) (pageSize maxPages : Nat) : Nat :=
  Paging.reach repeats pageSize maxPages 0

theorem fetched_eq_newest (ledger : ActivityLedger) (repeats : Nat → Bool) (db : Database)
    (config : BackfillConfig) (now : Timestamp) :
    fetched db (accountActivities ledger repeats) config now =
      (activityWindow ledger (backfillAfter config (db.highWaterMark "alpaca_fills") now)
        now).take (pageCapacity repeats config.pageSize config.maxPages) := by
  rw [fetched, fetchActivities_eq_fetchPages, Option.getD_some,
    Paging.fetchPages_eq_take (activityWindow_keys_nodup _ _ _)]
  rfl

/-! ## Runs of the backfill and other writers -/

/-- One run; `repeats` is how the broker answers its requests. -/
structure BackfillRun where
  now : Timestamp
  recalcAllTrades : Bool
  initialLookback : Int
  pageSize : Nat
  maxPages : Nat
  overlap : Int
  repeats : Nat → Bool

/-- Enabled, without a lookback override. -/
def BackfillRun.config (r : BackfillRun) : BackfillConfig where
  lookback := none
  recalcAllTrades := r.recalcAllTrades
  enabled := true
  initialLookback := r.initialLookback
  pageSize := r.pageSize
  maxPages := r.maxPages
  overlap := r.overlap

/-- What the others do to the database: the mark is the backfill's own, and no order is deleted
or loses its broker id. -/
structure OutsideWrite where
  apply : Database → Database
  keeps_mark : ∀ db,
    (apply db).highWaterMark "alpaca_fills" = db.highWaterMark "alpaca_fills"
  keeps_orders : ∀ db brokerId,
    (orderByBrokerId db brokerId).isSome → (orderByBrokerId (apply db) brokerId).isSome

inductive BackfillEvent where
  | backfill (r : BackfillRun)
  | write (w : OutsideWrite)

section Events

variable (generateFillId : Activity → String) (ledger : ActivityLedger)

def backfillStep (db : Database) : BackfillEvent → Database
  | .backfill r =>
      (backfillAlpacaFills generateFillId db (accountActivities ledger r.repeats) r.config r.now).1
  | .write w => w.apply db

def BackfillRun.after (r : BackfillRun) (db : Database) : Timestamp :=
  backfillAfter r.config (db.highWaterMark "alpaca_fills") r.now

variable (a : Activity)

/-- A run whose window contains the activity. -/
def Covers (db : Database) : BackfillEvent → Prop
  | .backfill r => a.within (r.after db) r.now = true
  | .write _ => False

/-- A run that hands the activity's fill to `append_fill_to_order_metadata`. -/
def Appends (db : Database) : BackfillEvent → Prop
  | .backfill r => ∃ order, activityOrder db a = some order ∧
      (order.clientOrderId, activityFill generateFillId a) ∈
        appendedFills generateFillId db (accountActivities ledger r.repeats) r.config r.now
  | .write _ => False

/-- A run that has the activity among the newest ones of its window, as far as its pages go. -/
def HasRoom (db : Database) : BackfillEvent → Prop
  | .backfill r => a ∈ (activityWindow ledger (r.after db) r.now).take
      (pageCapacity r.repeats r.pageSize r.maxPages)
  | .write _ => False

def HasOrder (db : Database) : Prop := (activityOrder db a).isSome

def runsOf (events : List BackfillEvent) : List BackfillRun :=
  events.filterMap fun
    | .backfill r => some r
    | .write _ => none

/-- Between the first run's lower bound and the last run's now. -/
def InSpan (db : Database) (events : List BackfillEvent) : Prop :=
  ∃ first last, (runsOf events).head? = some first ∧ (runsOf events).getLast? = some last ∧
    a.within (first.after db) last.now = true

variable {generateFillId ledger a}

theorem appends_iff (ha : a ∈ ledger.activities) (db : Database) (event : BackfillEvent) :
    Appends generateFillId ledger a db event ↔ HasRoom ledger a db event ∧ HasOrder a db := by
  cases event with
  | write w => simp [Appends, HasRoom]
  | backfill r =>
      simp only [Appends, HasRoom, HasOrder, appendedFills, mem_groupByClient,
        fetched_eq_newest, matchedFills, List.mem_filterMap, Option.map_eq_some_iff]
      constructor
      · rintro ⟨order, horder, b, hb, order', horder', hitem⟩
        have hledger := (mem_activityWindow.mp (List.mem_of_mem_take hb)).1
        have hfill := congrArg (fun item => item.2.fillId) hitem
        obtain rfl := ActivityLedger.eq_of_fillId hledger ha hfill
        exact ⟨hb, by rw [horder]; rfl⟩
      · rintro ⟨hroom, horder⟩
        obtain ⟨order, horder⟩ := Option.isSome_iff_exists.mp horder
        exact ⟨order, horder, a, hroom, order, horder, rfl⟩

theorem HasRoom.covers {db : Database} {event : BackfillEvent}
    (h : HasRoom ledger a db event) : Covers a db event := by
  cases event with
  | write w => exact h
  | backfill r => exact (mem_activityWindow.mp (List.mem_of_mem_take h)).2

/-! ## From one event to a run -/

/-- The broker answers every request. -/
theorem fetched_isSome (ledger : ActivityLedger) (r : BackfillRun) (db : Database) :
    (fetchActivities (accountActivities ledger r.repeats)
      (some (backfillAfter r.config (db.highWaterMark "alpaca_fills") r.now)) r.now
      r.config.pageSize r.config.maxPages none).isSome := by
  rw [fetchActivities_eq_fetchPages]
  rfl

theorem backfillStep_mark (db : Database) (r : BackfillRun) :
    (backfillStep generateFillId ledger db (.backfill r)).highWaterMark "alpaca_fills" =
      some r.now := by
  obtain ⟨fills, hfetch⟩ := Option.isSome_iff_exists.mp (fetched_isSome ledger r db)
  rw [backfillStep, backfillAlpacaFills_db generateFillId rfl hfetch]
  simp [setReconciliationHighWaterMark]

theorem hasOrder_step (db : Database) (event : BackfillEvent) (h : HasOrder a db) :
    HasOrder a (backfillStep generateFillId ledger db event) := by
  rw [HasOrder, activityOrder] at h ⊢
  cases horder : a.orderId with
  | none =>
      rw [horder] at h
      cases h
  | some brokerId =>
      rw [horder] at h
      change (orderByBrokerId db brokerId).isSome at h
      change (orderByBrokerId _ brokerId).isSome
      cases event with
      | write w => exact w.keeps_orders db brokerId h
      | backfill r =>
          obtain ⟨fills, hfetch⟩ := Option.isSome_iff_exists.mp (fetched_isSome ledger r db)
          exact (orderByBrokerId_backfill generateFillId rfl hfetch brokerId).mpr h

theorem appended_iff_room (ha : a ∈ ledger.activities) {db : Database}
    {events : List BackfillEvent}
    (hfirst : FirstStep (backfillStep generateFillId ledger) (Covers a)
      (fun db _ => HasOrder a db) db events) :
    SomeStep (backfillStep generateFillId ledger) (Appends generateFillId ledger a) db events ↔
      SomeStep (backfillStep generateFillId ledger) (HasRoom ledger a) db events := by
  constructor
  · exact SomeStep.mono fun db event h => ((appends_iff ha db event).mp h).1
  · intro hroom
    have hboth := hroom.and_of_first hasOrder_step (fun _ _ => HasRoom.covers) hfirst
    exact hboth.mono fun db event h => (appends_iff ha db event).mpr h

theorem within_iff {after until_ : Timestamp} :
    a.within after until_ = true ↔ ∃ t, a.occurredAt = some t ∧ after ≤ t ∧ t ≤ until_ := by
  rw [Activity.within, Option.any_eq_true]
  simp

/-- With overlaps that are not negative the windows leave no gap. -/
theorem covered_of_inSpan {db : Database} {events : List BackfillEvent}
    (hoverlap : ∀ r ∈ runsOf events, 0 ≤ r.overlap) (h : InSpan a db events) :
    SomeStep (backfillStep generateFillId ledger) (Covers a) db events := by
  obtain ⟨first, last, hfirst, hlast, hwithin⟩ := h
  obtain ⟨t, ht, hafter, hnow⟩ := within_iff.mp hwithin
  induction events generalizing db first with
  | nil => cases hfirst
  | cons event events ih =>
      cases event with
      | write w =>
          right
          have hmark : first.after (w.apply db) = first.after db := by
            rw [BackfillRun.after, BackfillRun.after, w.keeps_mark]
          apply ih hoverlap first hfirst hlast
          · exact within_iff.mpr ⟨t, ht, hmark ▸ hafter, hnow⟩
          · exact hmark ▸ hafter
      | backfill r =>
          obtain rfl : r = first := Option.some.inj hfirst
          by_cases hcovered : t ≤ r.now
          · exact Or.inl (within_iff.mpr ⟨t, ht, hafter, hcovered⟩)
          · -- A later run takes over at this run's now, less its overlap.
            right
            cases hrest : runsOf events with
            | nil =>
                have hruns : runsOf (.backfill r :: events) = r :: runsOf events := rfl
                rw [hruns, hrest] at hlast
                obtain rfl : r = last := Option.some.inj hlast
                exact absurd hnow hcovered
            | cons second rest =>
                have hruns : runsOf (.backfill r :: events) = r :: second :: rest := by
                  rw [← hrest]
                  rfl
                rw [hruns] at hlast hoverlap
                have hstart : second.after (backfillStep generateFillId ledger db (.backfill r)) =
                    r.now - second.overlap := by
                  rw [BackfillRun.after, backfillStep_mark]
                  rfl
                have hnonneg := hoverlap second (by simp)
                have hlater : second.after
                    (backfillStep generateFillId ledger db (.backfill r)) ≤ t := by
                  rw [hstart]
                  exact le_trans (sub_le_self _ hnonneg) (le_of_not_ge hcovered)
                apply ih _ second (by rw [hrest]; rfl) (by rw [hrest]; exact hlast)
                · exact within_iff.mpr ⟨t, ht, hlater, hnow⟩
                · exact hlater
                · intro r' hr'
                  rw [hrest] at hr'
                  exact hoverlap r' (List.mem_cons_of_mem _ hr')

/-! ## Completeness -/

/-- Whatever the activities, the page sizes, the caps and the other writers: no activity of the
span is lost exactly when each is, in some run that covers it, among the newest ones that the
pages of the run hold. -/
theorem backfill_complete_iff (generateFillId : Activity → String) (ledger : ActivityLedger)
    (db : Database) (events : List BackfillEvent) :
    (∀ a ∈ ledger.activities, InSpan a db events →
        FirstStep (backfillStep generateFillId ledger) (Covers a) (fun db _ => HasOrder a db)
          db events →
        SomeStep (backfillStep generateFillId ledger) (Appends generateFillId ledger a) db
          events) ↔
      ∀ a ∈ ledger.activities, InSpan a db events →
        FirstStep (backfillStep generateFillId ledger) (Covers a) (fun db _ => HasOrder a db)
          db events →
        SomeStep (backfillStep generateFillId ledger) (HasRoom ledger a) db events := by
  constructor
  · intro h a ha hspan hfirst
    exact (appended_iff_room ha hfirst).mp (h a ha hspan hfirst)
  · intro h a ha hspan hfirst
    exact (appended_iff_room ha hfirst).mpr (h a ha hspan hfirst)

/-- Windows that the pages hold in full lose nothing. -/
theorem appended_of_small_windows (ha : a ∈ ledger.activities) {db : Database}
    {events : List BackfillEvent} (hoverlap : ∀ r ∈ runsOf events, 0 ≤ r.overlap)
    (hsmall : EachStep (backfillStep generateFillId ledger) (fun db event => ∀ r,
      event = .backfill r → (activityWindow ledger (r.after db) r.now).length ≤
        pageCapacity r.repeats r.pageSize r.maxPages) db events)
    (hspan : InSpan a db events)
    (hfirst : FirstStep (backfillStep generateFillId ledger) (Covers a)
      (fun db _ => HasOrder a db) db events) :
    SomeStep (backfillStep generateFillId ledger) (Appends generateFillId ledger a) db events := by
  have hcovered : SomeStep (backfillStep generateFillId ledger) (Covers a) db events :=
    covered_of_inSpan hoverlap hspan
  rw [appended_iff_room ha hfirst]
  clear hfirst hspan hoverlap
  induction events generalizing db with
  | nil => exact hcovered
  | cons event events ih =>
      rcases hcovered with hnow | hlater
      · left
        cases event with
        | write w => exact hnow
        | backfill r =>
            rw [HasRoom, List.take_of_length_le (hsmall.1 r rfl)]
            exact mem_activityWindow.mpr ⟨ha, hnow⟩
      · exact Or.inr (ih hsmall.2 hlater)

end Events

/-! ## A run that loses one -/

def sampleActivity (id : String) (time : Timestamp) : Activity :=
  ⟨some id, some "b-1", "AAPL", "buy", 1, 100, some time, none⟩

def threeActivities : ActivityLedger where
  activities := [sampleActivity "act-1" 10, sampleActivity "act-2" 20, sampleActivity "act-3" 30]
  named := by decide
  ids_nodup := by decide
  increasing := by decide

def twoPages (now : Timestamp) : BackfillRun := ⟨now, false, 60, 1, 2, 5, fun _ => true⟩

/-- Two pages of one activity leave out the oldest of three, and the mark passes it. -/
theorem backfill_loses_oldest :
    let events := [.backfill (twoPages 40), .backfill (twoPages 100)]
    (twoPages 40).now < (twoPages 100).now ∧ ∃ a ∈ threeActivities.activities,
      InSpan a (acceptedOrder "o-1") events ∧
      FirstStep (backfillStep (fun _ => "") threeActivities) (Covers a)
        (fun db _ => HasOrder a db) (acceptedOrder "o-1") events ∧
      ¬SomeStep (backfillStep (fun _ => "") threeActivities)
        (Appends (fun _ => "") threeActivities a) (acceptedOrder "o-1") events := by
  intro events
  have hmem : sampleActivity "act-1" 10 ∈ threeActivities.activities := List.mem_cons_self
  have hcovers : Covers (sampleActivity "act-1" 10) (acceptedOrder "o-1")
      (.backfill (twoPages 40)) := by
    change Activity.within _ _ _ = true
    decide
  have horder : HasOrder (sampleActivity "act-1" 10) (acceptedOrder "o-1") := by
    change (activityOrder _ _).isSome = true
    decide
  refine ⟨by decide, sampleActivity "act-1" 10, hmem, ⟨twoPages 40, twoPages 100, rfl, rfl,
    by decide⟩, Or.inl ⟨hcovers, horder⟩, ?_⟩
  intro happended
  rcases happended with hfirst | hsecond | hnever
  · have hroom := ((appends_iff hmem _ _).mp hfirst).1
    have hkey := List.mem_map_of_mem (f := activityKey) hroom
    exact absurd hkey (by decide)
  · have hcovered := ((appends_iff hmem _ _).mp hsecond).1.covers
    rw [Covers, BackfillRun.after, backfillStep_mark] at hcovered
    exact absurd hcovered (by decide)
  · exact hnever

end TradingPlatform.Gateway
