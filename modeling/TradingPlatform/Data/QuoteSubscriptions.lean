import TradingPlatform.Base.Holders
import TradingPlatform.Base.Run
import Mathlib.Data.Finset.Sort
import Mathlib.Data.String.Basic

/-! # Quote subscriptions

A symbol is subscribed as long as some source wants its quotes. The stream keeps the sources of
each symbol and tells the SDK of the first and of the last one; the position sync is a source
that holds the symbols of the open positions. Neither call waits while it holds the lock and a
sync waits for the positions only, which it fetches first, so each call is one step.
-/

namespace TradingPlatform.Data

open Base

/-- The stream, with the symbols that its SDK is subscribed to. -/
structure MarketDataStream where
  sdk : Finset String
  subscriptionSources : Holders String String

/-- `list(symbols)`: a set in some order. -/
structure SetOrder where
  list : Finset String → List String
  mem_list : ∀ symbols x, x ∈ list symbols ↔ x ∈ symbols

/-- The call ended, or raised `SubscriptionError`. -/
inductive CallOutcome where
  | returned | raised
  deriving DecidableEq, Repr

def subscribeSymbols (stream : MarketDataStream) (symbols : List String) (source : String)
    (sdkRaises : Bool) : MarketDataStream × CallOutcome :=
  if symbols.isEmpty then (stream, .returned)
  else
    let newAlpacaSymbols := symbols.filter fun x => ¬ stream.subscriptionSources.IsHeld x
    if ¬ newAlpacaSymbols.isEmpty ∧ sdkRaises then (stream, .raised)
    else
      ({ sdk := stream.sdk ∪ newAlpacaSymbols.toFinset
         subscriptionSources := stream.subscriptionSources.holdAll source symbols }, .returned)

/-- The loop over the symbols. The entry of a symbol without sources is deleted before the SDK
is told. -/
def unsubscribeEach (source : String) (sdkRaises : String → Bool) :
    List String → MarketDataStream → MarketDataStream × CallOutcome
  | [], stream => (stream, .returned)
  | x :: symbols, stream =>
      if ¬ stream.subscriptionSources.IsHeld x then
        unsubscribeEach source sdkRaises symbols stream
      else
        let sources := stream.subscriptionSources.letGo source x
        if sources.IsHeld x then
          unsubscribeEach source sdkRaises symbols { stream with subscriptionSources := sources }
        else if sdkRaises x then ({ stream with subscriptionSources := sources }, .raised)
        else
          unsubscribeEach source sdkRaises symbols
            { sdk := stream.sdk.erase x, subscriptionSources := sources }

def unsubscribeSymbols (stream : MarketDataStream) (symbols : List String) (source : String)
    (sdkRaises : String → Bool) : MarketDataStream × CallOutcome :=
  if symbols.isEmpty then (stream, .returned)
  else unsubscribeEach source sdkRaises symbols stream

/-- The source of the position sync. -/
def positionSource : String := "position"

inductive SyncStatus where
  | success | error
  deriving DecidableEq, Repr

/-- A sync: the stream and the last position symbols behind it, and its status. Positions that
could not be fetched are `none`. -/
def syncSubscriptions (order : SetOrder) (stream : MarketDataStream)
    (lastPositionSymbols : Finset String) (positionSymbols : Option (Finset String))
    (subscribeRaises : Bool) (unsubscribeRaises : String → Bool) :
    MarketDataStream × Finset String × SyncStatus :=
  match positionSymbols with
  | none => (stream, lastPositionSymbols, .error)
  | some positions =>
      let newSymbols := positions.filter fun x => ¬ stream.subscriptionSources.IsHeld x
      let closedSymbols := lastPositionSymbols \ positions
      let subscribed :=
        if newSymbols = ∅ then (stream, .returned)
        else subscribeSymbols stream (order.list newSymbols) positionSource subscribeRaises
      let unsubscribed :=
        if closedSymbols = ∅ then (subscribed.1, .returned)
        else unsubscribeSymbols subscribed.1 (order.list closedSymbols) positionSource
          unsubscribeRaises
      let status :=
        if subscribed.2 = .raised ∨ unsubscribed.2 = .raised then SyncStatus.error else .success
      (unsubscribed.1, positions, status)

/-! ## Runs -/

/-- A source other than that of the sync. -/
abbrev ManualSource := {source : String // source ≠ positionSource}

/-- A call, with the SDK calls in it that raise. -/
inductive StreamCall where
  | subscribe (symbols : List String) (source : ManualSource) (sdkRaises : Bool)
  | unsubscribe (symbols : List String) (source : ManualSource) (sdkRaises : String → Bool)
  | sync (order : SetOrder) (positionSymbols : Option (Finset String)) (subscribeRaises : Bool)
      (unsubscribeRaises : String → Bool)

/-- The two components, with what a caller knows of the run: the positions that the last sync
saw, if it had no error, and the manual subscriptions that have not been undone. -/
structure SubscriptionRun where
  stream : MarketDataStream
  lastPositionSymbols : Finset String
  seen : Option (Finset String)
  manual : Holders String String

def initialRun : SubscriptionRun := ⟨⟨∅, fun _ => ∅⟩, ∅, none, fun _ => ∅⟩

def takeCall (s : SubscriptionRun) : StreamCall → SubscriptionRun
  | .subscribe symbols source sdkRaises =>
      let result := subscribeSymbols s.stream symbols source sdkRaises
      { s with
        stream := result.1
        manual := if result.2 = .returned then s.manual.holdAll source symbols else s.manual }
  | .unsubscribe symbols source sdkRaises =>
      let result := unsubscribeSymbols s.stream symbols source sdkRaises
      { s with
        stream := result.1
        manual := if result.2 = .returned then s.manual.letGoAll source symbols else s.manual }
  | .sync order positionSymbols subscribeRaises unsubscribeRaises =>
      let result := syncSubscriptions order s.stream s.lastPositionSymbols positionSymbols
        subscribeRaises unsubscribeRaises
      { s with
        stream := result.1
        lastPositionSymbols := result.2.1
        seen := if result.2.2 = .success then positionSymbols else none }

/-- What subscribers rely on between two calls. -/
structure QuotesKept (s : SubscriptionRun) : Prop where
  exact : ∀ x, x ∈ s.stream.sdk ↔ s.stream.subscriptionSources.IsHeld x
  positions : ∀ seen, s.seen = some seen → ∀ x ∈ seen, x ∈ s.stream.sdk
  noStray : ∀ seen, s.seen = some seen → ∀ x ∈ s.stream.sdk, x ∈ seen ∨ s.manual.IsHeld x

/-- The call meets neither of the branches that go wrong: the SDK refuses the last source's
withdrawal of a symbol, or a manual source is the only one of a symbol of an open position. -/
def Harmless (s : SubscriptionRun) : StreamCall → Prop
  | .subscribe .. => True
  | .unsubscribe symbols source sdkRaises =>
      ∀ x ∈ symbols, s.stream.subscriptionSources x = {source.val} →
        sdkRaises x = false ∧ ∀ seen, s.seen = some seen → x ∉ seen
  | .sync _ positionSymbols _ unsubscribeRaises =>
      ∀ positions, positionSymbols = some positions → ∀ x ∈ s.lastPositionSymbols \ positions,
        s.stream.subscriptionSources x = {positionSource} → unsubscribeRaises x = false

/-! ## What one call does to the stream -/

/-- The SDK is subscribed to the symbols that have a source. -/
def MarketDataStream.Exact (stream : MarketDataStream) : Prop :=
  ∀ x, x ∈ stream.sdk ↔ stream.subscriptionSources.IsHeld x

variable {stream : MarketDataStream} {symbols : List String} {source : String}

theorem subscribeSymbols_raised {sdkRaises : Bool}
    (h : (subscribeSymbols stream symbols source sdkRaises).2 = .raised) :
    (subscribeSymbols stream symbols source sdkRaises).1 = stream := by
  unfold subscribeSymbols at *
  split at h
  · exact absurd h (by simp)
  · rename_i hsymbols
    rw [if_neg hsymbols]
    dsimp only at h ⊢
    split at h
    · rename_i hraises
      rw [if_pos hraises]
    · exact absurd h (by simp)

theorem subscribeSymbols_returned {sdkRaises : Bool} (hexact : stream.Exact)
    (h : (subscribeSymbols stream symbols source sdkRaises).2 = .returned) :
    (subscribeSymbols stream symbols source sdkRaises).1.subscriptionSources =
        stream.subscriptionSources.holdAll source symbols ∧
      (subscribeSymbols stream symbols source sdkRaises).1.Exact := by
  unfold subscribeSymbols at *
  split at h
  · rename_i hnil
    rw [if_pos hnil, List.isEmpty_iff.mp hnil]
    exact ⟨rfl, hexact⟩
  · rename_i hsymbols
    rw [if_neg hsymbols]
    dsimp only at h ⊢
    split at h
    · exact absurd h (by simp)
    · rename_i hraises
      rw [if_neg hraises]
      refine ⟨rfl, fun x => ?_⟩
      show x ∈ stream.sdk ∪ _ ↔ (stream.subscriptionSources.holdAll source symbols).IsHeld x
      rw [Finset.mem_union, List.mem_toFinset, List.mem_filter, hexact x, Holders.isHeld_holdAll]
      by_cases hheld : stream.subscriptionSources.IsHeld x
      · simp [hheld]
      · simp [hheld]

/-- A source that is withdrawn for a symbol is not the only one of it afterwards. -/
theorem letGo_ne_singleton (h : Holders String String) (x : String) :
    h.letGo source x x ≠ {source} := by
  intro hsingle
  have hmem : source ∈ h.letGo source x x := by
    rw [hsingle]
    exact Finset.mem_singleton_self source
  exact (Holders.mem_letGo.mp hmem).2 ⟨rfl, rfl⟩

theorem letGo_of_ne (h : Holders String String) {x y : String} (hne : y ≠ x) :
    h.letGo source x y = h y :=
  Function.update_of_ne hne ..

theorem letGo_of_not_held {h : Holders String String} {x : String} (hheld : ¬ h.IsHeld x) :
    h.letGo source x = h := by
  unfold Holders.IsHeld at hheld
  unfold Holders.letGo
  rw [not_not.mp hheld, Finset.erase_empty, ← not_not.mp hheld, Function.update_eq_self]

/-- The stream stays exact over a symbol that the SDK does not refuse. -/
theorem exact_letGo (hexact : stream.Exact) {x : String}
    (hheld : (stream.subscriptionSources.letGo source x).IsHeld x) :
    MarketDataStream.Exact
      { stream with subscriptionSources := stream.subscriptionSources.letGo source x } := by
  intro y
  show y ∈ stream.sdk ↔ (stream.subscriptionSources.letGo source x).IsHeld y
  rw [hexact y]
  by_cases hy : y = x
  · rw [hy]
    have hbefore : stream.subscriptionSources.IsHeld x := by
      obtain ⟨k, hk⟩ := Holders.isHeld_iff.mp hheld
      exact Holders.isHeld_iff.mpr ⟨k, (Holders.mem_letGo.mp hk).1⟩
    exact iff_of_true hbefore hheld
  · exact (Holders.isHeld_letGo_of_ne hy).symm

theorem exact_erase (hexact : stream.Exact) {x : String}
    (hfree : ¬ (stream.subscriptionSources.letGo source x).IsHeld x) :
    MarketDataStream.Exact
      ⟨stream.sdk.erase x, stream.subscriptionSources.letGo source x⟩ := by
  intro y
  show y ∈ stream.sdk.erase x ↔ (stream.subscriptionSources.letGo source x).IsHeld y
  rw [Finset.mem_erase, hexact y]
  by_cases hy : y = x
  · rw [hy]
    exact iff_of_false (fun h => h.1 rfl) hfree
  · rw [Holders.isHeld_letGo_of_ne hy]
    exact and_iff_right hy

/-- The loop ends where the SDK refuses none of the last withdrawals. -/
theorem unsubscribeEach_returned {sdkRaises : String → Bool} (hexact : stream.Exact)
    (h : ∀ x ∈ symbols, stream.subscriptionSources x = {source} → sdkRaises x = false) :
    (unsubscribeEach source sdkRaises symbols stream).2 = .returned ∧
      (unsubscribeEach source sdkRaises symbols stream).1.subscriptionSources =
        stream.subscriptionSources.letGoAll source symbols ∧
      (unsubscribeEach source sdkRaises symbols stream).1.Exact := by
  induction symbols generalizing stream with
  | nil => exact ⟨rfl, rfl, hexact⟩
  | cons x symbols ih =>
      have hrest : ∀ y ∈ symbols, stream.subscriptionSources.letGo source x y = {source} →
          sdkRaises y = false := by
        intro y hy hsingle
        by_cases hyx : y = x
        · rw [hyx] at hsingle
          exact absurd hsingle (letGo_ne_singleton _ x)
        · rw [letGo_of_ne _ hyx] at hsingle
          exact h y (List.mem_cons_of_mem x hy) hsingle
      rw [unsubscribeEach]
      show _ ∧ _ = (stream.subscriptionSources.letGo source x).letGoAll source symbols ∧ _
      split
      · rename_i hfree
        rw [letGo_of_not_held hfree] at hrest ⊢
        exact ih hexact hrest
      · rename_i hheld
        have hheld := not_not.mp hheld
        dsimp only
        split
        · rename_i hstill
          exact ih (exact_letGo hexact hstill) hrest
        · rename_i hlast
          have hsingle := (Holders.isHeld_letGo hheld).mp hlast
          have hok := h x List.mem_cons_self hsingle
          rw [if_neg (by simp [hok])]
          exact ih (exact_erase hexact hlast) hrest

/-- Where the SDK refuses one of them, a symbol stays subscribed that has no source. -/
theorem unsubscribeEach_raised {sdkRaises : String → Bool} (hexact : stream.Exact)
    (h : ∃ x ∈ symbols, stream.subscriptionSources x = {source} ∧ sdkRaises x = true) :
    ¬ (unsubscribeEach source sdkRaises symbols stream).1.Exact := by
  induction symbols generalizing stream with
  | nil =>
      obtain ⟨x, hx, _⟩ := h
      exact absurd hx List.not_mem_nil
  | cons x symbols ih =>
      obtain ⟨z, hz, hsingle, hraises⟩ := h
      have hrest : z ≠ x → ∃ y ∈ symbols,
          stream.subscriptionSources.letGo source x y = {source} ∧ sdkRaises y = true := by
        intro hne
        refine ⟨z, (List.mem_cons.mp hz).resolve_left hne, ?_, hraises⟩
        rw [letGo_of_ne _ hne, hsingle]
      rw [unsubscribeEach]
      split
      · rename_i hfree
        have hne : z ≠ x := by
          intro heq
          apply hfree
          rw [← heq, Holders.isHeld_iff]
          exact ⟨source, by rw [hsingle]; exact Finset.mem_singleton_self source⟩
        have hrest := hrest hne
        rw [letGo_of_not_held hfree] at hrest
        exact ih hexact hrest
      · rename_i hheld
        have hheld := not_not.mp hheld
        dsimp only
        split
        · rename_i hstill
          have hne : z ≠ x := by
            intro heq
            rw [heq] at hsingle
            exact (Holders.isHeld_letGo hheld).mpr hsingle hstill
          exact ih (exact_letGo hexact hstill) (hrest hne)
        · rename_i hlast
          split
          · -- the entry is gone and the SDK still has the symbol
            intro hafter
            exact hlast ((hafter x).mp ((hexact x).mpr hheld))
          · rename_i hok
            have hne : z ≠ x := by
              intro heq
              rw [heq] at hraises
              exact hok hraises
            exact ih (exact_erase hexact hlast) (hrest hne)

theorem unsubscribeSymbols_returned {sdkRaises : String → Bool} (hexact : stream.Exact)
    (h : ∀ x ∈ symbols, stream.subscriptionSources x = {source} → sdkRaises x = false) :
    (unsubscribeSymbols stream symbols source sdkRaises).2 = .returned ∧
      (unsubscribeSymbols stream symbols source sdkRaises).1.subscriptionSources =
        stream.subscriptionSources.letGoAll source symbols ∧
      (unsubscribeSymbols stream symbols source sdkRaises).1.Exact := by
  unfold unsubscribeSymbols
  split
  · rename_i hnil
    rw [List.isEmpty_iff.mp hnil]
    exact ⟨rfl, rfl, hexact⟩
  · exact unsubscribeEach_returned hexact h

theorem unsubscribeSymbols_raised {sdkRaises : String → Bool} (hexact : stream.Exact)
    (h : ∃ x ∈ symbols, stream.subscriptionSources x = {source} ∧ sdkRaises x = true) :
    ¬ (unsubscribeSymbols stream symbols source sdkRaises).1.Exact := by
  unfold unsubscribeSymbols
  rw [if_neg]
  · exact unsubscribeEach_raised hexact h
  · obtain ⟨x, hx, _⟩ := h
    rw [List.isEmpty_iff]
    exact List.ne_nil_of_mem hx

/-! ## What one sync does -/

section

variable {order : SetOrder} {last positions : Finset String} {subscribeRaises : Bool}
  {unsubscribeRaises : String → Bool}

/-- The stream behind the first half of a sync. -/
def afterSubscribe (order : SetOrder) (stream : MarketDataStream) (positions : Finset String)
    (subscribeRaises : Bool) : MarketDataStream × CallOutcome :=
  subscribeSymbols stream
    (order.list (positions.filter fun x => ¬ stream.subscriptionSources.IsHeld x)) positionSource
    subscribeRaises

theorem list_empty (order : SetOrder) : order.list ∅ = [] := by
  apply List.eq_nil_iff_forall_not_mem.mpr
  intro x hx
  exact absurd ((order.mem_list ∅ x).mp hx) (Finset.notMem_empty x)

/-- A sync that sees positions subscribes, then unsubscribes what is not among them any more;
an empty list is left out of either half without effect. -/
theorem syncSubscriptions_some :
    syncSubscriptions order stream last (some positions) subscribeRaises unsubscribeRaises =
      (let subscribed := afterSubscribe order stream positions subscribeRaises
       let unsubscribed := unsubscribeSymbols subscribed.1 (order.list (last \ positions))
        positionSource unsubscribeRaises
       (unsubscribed.1, positions,
        if subscribed.2 = .raised ∨ unsubscribed.2 = .raised then .error else .success)) := by
  have hfirst : (if (positions.filter fun x => ¬ stream.subscriptionSources.IsHeld x) = ∅ then
      (stream, .returned) else afterSubscribe order stream positions subscribeRaises) =
        afterSubscribe order stream positions subscribeRaises := by
    split
    · rename_i hempty
      unfold afterSubscribe
      rw [hempty, list_empty]
      rfl
    · rfl
  have hsecond : ∀ stream' : MarketDataStream,
      (if last \ positions = ∅ then (stream', .returned)
        else unsubscribeSymbols stream' (order.list (last \ positions)) positionSource
          unsubscribeRaises) =
        unsubscribeSymbols stream' (order.list (last \ positions)) positionSource
          unsubscribeRaises := by
    intro stream'
    split
    · rename_i hempty
      rw [hempty, list_empty]
      rfl
    · rfl
  unfold syncSubscriptions
  dsimp only
  rw [show (if (positions.filter fun x => ¬ stream.subscriptionSources.IsHeld x) = ∅ then
      (stream, .returned) else subscribeSymbols stream (order.list (positions.filter fun x =>
        ¬ stream.subscriptionSources.IsHeld x)) positionSource subscribeRaises) =
        afterSubscribe order stream positions subscribeRaises from hfirst, hsecond]

/-- The first half adds the position source to symbols of the positions only. -/
theorem afterSubscribe_spec (order : SetOrder) (positions : Finset String) (subscribeRaises : Bool)
    (hexact : stream.Exact) :
    (afterSubscribe order stream positions subscribeRaises).1.Exact ∧
    (∀ x source, source ∈ (afterSubscribe order stream positions
      subscribeRaises).1.subscriptionSources x →
        source ∈ stream.subscriptionSources x ∨ source = positionSource ∧ x ∈ positions) ∧
    (∀ x, x ∉ positions → (afterSubscribe order stream positions
      subscribeRaises).1.subscriptionSources x = stream.subscriptionSources x) ∧
    ((afterSubscribe order stream positions subscribeRaises).2 = .returned →
      ∀ x ∈ positions, (afterSubscribe order stream positions
        subscribeRaises).1.subscriptionSources.IsHeld x) := by
  unfold afterSubscribe
  generalize hresult : subscribeSymbols stream (order.list (positions.filter fun x =>
    ¬ stream.subscriptionSources.IsHeld x)) positionSource subscribeRaises = result
  cases houtcome : result.2 with
  | raised =>
      rw [← hresult] at houtcome
      have hsame := subscribeSymbols_raised houtcome
      rw [hresult] at hsame
      rw [hsame]
      exact ⟨hexact, fun _ _ h => .inl h, fun _ _ => rfl, fun h => absurd h (by simp)⟩
  | returned =>
      rw [← hresult] at houtcome
      obtain ⟨hsources, hafter⟩ := subscribeSymbols_returned hexact houtcome
      rw [hresult] at hsources hafter
      refine ⟨hafter, ?_, ?_, ?_⟩
      · intro x source hmem
        rw [hsources, Holders.mem_holdAll, order.mem_list, Finset.mem_filter] at hmem
        exact hmem.imp id fun h => ⟨h.2, h.1.1⟩
      · intro x hx
        ext source
        rw [hsources, Holders.mem_holdAll, order.mem_list, Finset.mem_filter]
        exact or_iff_left fun h => hx h.1.1
      · intro _ x hx
        rw [hsources, Holders.isHeld_holdAll, order.mem_list, Finset.mem_filter]
        by_cases hheld : stream.subscriptionSources.IsHeld x
        · exact .inl hheld
        · exact .inr ⟨hx, hheld⟩

end

/-! ## The invariant of a run -/

/-- Every source of a symbol is accounted for: the position source by the last positions, the
others by what has not been undone. -/
structure Tracked (s : SubscriptionRun) : Prop where
  exact : s.stream.Exact
  positions : ∀ seen, s.seen = some seen → ∀ x ∈ seen, s.stream.subscriptionSources.IsHeld x
  ofPosition : ∀ x, positionSource ∈ s.stream.subscriptionSources x → x ∈ s.lastPositionSymbols
  ofManual : ∀ x source, source ≠ positionSource → source ∈ s.stream.subscriptionSources x →
    source ∈ s.manual x
  seenLast : ∀ seen, s.seen = some seen → s.lastPositionSymbols = seen

variable {s : SubscriptionRun}

theorem tracked_initialRun : Tracked initialRun where
  exact := by
    intro x
    simp [initialRun, Holders.IsHeld]
  positions := by simp [initialRun]
  ofPosition := by simp [initialRun]
  ofManual := by simp [initialRun]
  seenLast := by simp [initialRun]

theorem Tracked.kept (h : Tracked s) : QuotesKept s where
  exact := h.exact
  positions := fun seen hseen x hx => (h.exact x).mpr (h.positions seen hseen x hx)
  noStray := by
    intro seen hseen x hx
    obtain ⟨source, hsource⟩ := Holders.isHeld_iff.mp ((h.exact x).mp hx)
    by_cases hposition : source = positionSource
    · rw [hposition] at hsource
      have hlast := h.ofPosition x hsource
      rw [h.seenLast seen hseen] at hlast
      exact .inl hlast
    · exact .inr (Holders.isHeld_iff.mpr ⟨source, h.ofManual x source hposition hsource⟩)

theorem tracked_subscribe (h : Tracked s) (symbols : List String) (source : ManualSource)
    (sdkRaises : Bool) : Tracked (takeCall s (.subscribe symbols source sdkRaises)) := by
  cases houtcome : (subscribeSymbols s.stream symbols source sdkRaises).2 with
  | raised =>
      have hsame : takeCall s (.subscribe symbols source sdkRaises) = s := by
        simp [takeCall, houtcome, subscribeSymbols_raised houtcome]
      rw [hsame]
      exact h
  | returned =>
      obtain ⟨hsources, hexact⟩ := subscribeSymbols_returned h.exact houtcome
      have hmanual : (takeCall s (.subscribe symbols source sdkRaises)).manual =
          s.manual.holdAll source symbols := by
        simp [takeCall, houtcome]
      constructor
      case exact => exact hexact
      case positions =>
        intro seen hseen x hx
        show (subscribeSymbols s.stream symbols source sdkRaises).1.subscriptionSources.IsHeld x
        rw [hsources, Holders.isHeld_holdAll]
        exact .inl (h.positions seen hseen x hx)
      case ofPosition =>
        intro x hx
        have hx : positionSource ∈
          (subscribeSymbols s.stream symbols source sdkRaises).1.subscriptionSources x := hx
        rw [hsources, Holders.mem_holdAll] at hx
        rcases hx with hold | ⟨_, hnew⟩
        · exact h.ofPosition x hold
        · exact absurd hnew.symm source.property
      case ofManual =>
        intro x other hne hx
        have hx : other ∈
          (subscribeSymbols s.stream symbols source sdkRaises).1.subscriptionSources x := hx
        rw [hsources, Holders.mem_holdAll] at hx
        rw [hmanual, Holders.mem_holdAll]
        exact hx.imp (h.ofManual x other hne) id
      case seenLast => exact h.seenLast

theorem tracked_unsubscribe (h : Tracked s) {symbols : List String} {source : ManualSource}
    {sdkRaises : String → Bool} (hok : Harmless s (.unsubscribe symbols source sdkRaises)) :
    Tracked (takeCall s (.unsubscribe symbols source sdkRaises)) := by
  obtain ⟨houtcome, hsources, hexact⟩ := unsubscribeSymbols_returned h.exact
    fun x hx hsingle => (hok x hx hsingle).1
  have hmanual : (takeCall s (.unsubscribe symbols source sdkRaises)).manual =
      s.manual.letGoAll source symbols := by
    simp [takeCall, houtcome]
  constructor
  case exact => exact hexact
  case positions =>
    intro seen hseen x hx
    show (unsubscribeSymbols s.stream symbols source sdkRaises).1.subscriptionSources.IsHeld x
    rw [hsources, Holders.isHeld_letGoAll]
    exact ⟨h.positions seen hseen x hx, fun hlast => (hok x hlast.1 hlast.2).2 seen hseen hx⟩
  case ofPosition =>
    intro x hx
    have hx : positionSource ∈
      (unsubscribeSymbols s.stream symbols source sdkRaises).1.subscriptionSources x := hx
    rw [hsources, Holders.mem_letGoAll] at hx
    exact h.ofPosition x hx.1
  case ofManual =>
    intro x other hne hx
    have hx : other ∈
      (unsubscribeSymbols s.stream symbols source sdkRaises).1.subscriptionSources x := hx
    rw [hsources, Holders.mem_letGoAll] at hx
    rw [hmanual, Holders.mem_letGoAll]
    exact ⟨h.ofManual x other hne hx.1, hx.2⟩
  case seenLast => exact h.seenLast

theorem takeCall_sync_some {order : SetOrder} {positions : Finset String}
    {subscribeRaises : Bool} {unsubscribeRaises : String → Bool} :
    takeCall s (.sync order (some positions) subscribeRaises unsubscribeRaises) =
      (let subscribed := afterSubscribe order s.stream positions subscribeRaises
       let unsubscribed := unsubscribeSymbols subscribed.1
        (order.list (s.lastPositionSymbols \ positions)) positionSource unsubscribeRaises
       { s with
         stream := unsubscribed.1
         lastPositionSymbols := positions
         seen :=
          if subscribed.2 = .returned ∧ unsubscribed.2 = .returned then some positions
          else none }) := by
  simp only [takeCall, syncSubscriptions_some]
  cases (afterSubscribe order s.stream positions subscribeRaises).2 <;>
    cases (unsubscribeSymbols (afterSubscribe order s.stream positions subscribeRaises).1
      (order.list (s.lastPositionSymbols \ positions)) positionSource unsubscribeRaises).2 <;>
    rfl

theorem tracked_sync (h : Tracked s) {order : SetOrder} {positionSymbols : Option (Finset String)}
    {subscribeRaises : Bool} {unsubscribeRaises : String → Bool}
    (hok : Harmless s (.sync order positionSymbols subscribeRaises unsubscribeRaises)) :
    Tracked (takeCall s (.sync order positionSymbols subscribeRaises unsubscribeRaises)) := by
  cases positionSymbols with
  | none =>
      exact ⟨h.exact, fun seen hseen => absurd hseen (by simp [takeCall, syncSubscriptions]),
        h.ofPosition, h.ofManual,
        fun seen hseen => absurd hseen (by simp [takeCall, syncSubscriptions])⟩
  | some positions =>
      obtain ⟨hafter, hadded, hsame, hheld⟩ := afterSubscribe_spec order positions subscribeRaises
        h.exact
      have hnone : ∀ x ∈ order.list (s.lastPositionSymbols \ positions),
          (afterSubscribe order s.stream positions subscribeRaises).1.subscriptionSources x =
            {positionSource} → unsubscribeRaises x = false := by
        intro x hx hsingle
        have hx := (order.mem_list _ x).mp hx
        rw [hsame x (Finset.mem_sdiff.mp hx).2] at hsingle
        exact hok positions rfl x hx hsingle
      obtain ⟨_, hsources, hexact⟩ := unsubscribeSymbols_returned hafter hnone
      rw [takeCall_sync_some]
      constructor
      case exact => exact hexact
      case positions =>
        intro seen hseen x hx
        rw [Option.ite_none_right_eq_some, Option.some.injEq] at hseen
        rw [← hseen.2] at hx
        dsimp only
        rw [hsources, Holders.isHeld_letGoAll]
        refine ⟨hheld hseen.1.1 x hx, fun ⟨hclosed, _⟩ => ?_⟩
        exact (Finset.mem_sdiff.mp ((order.mem_list _ x).mp hclosed)).2 hx
      case ofPosition =>
        intro x hx
        dsimp only at hx ⊢
        rw [hsources, Holders.mem_letGoAll, order.mem_list, Finset.mem_sdiff] at hx
        by_contra hnot
        rcases hadded x positionSource hx.1 with hold | ⟨_, hnew⟩
        · exact hx.2 ⟨⟨h.ofPosition x hold, hnot⟩, rfl⟩
        · exact hnot hnew
      case ofManual =>
        intro x source hne hx
        dsimp only at hx ⊢
        rw [hsources, Holders.mem_letGoAll] at hx
        rcases hadded x source hx.1 with hold | ⟨hposition, _⟩
        · exact h.ofManual x source hne hold
        · exact absurd hposition hne
      case seenLast =>
        intro seen hseen
        rw [Option.ite_none_right_eq_some, Option.some.injEq] at hseen
        exact hseen.2

theorem tracked_takeCall (h : Tracked s) {call : StreamCall} (hok : Harmless s call) :
    Tracked (takeCall s call) := by
  cases call with
  | subscribe symbols source sdkRaises => exact tracked_subscribe h symbols source sdkRaises
  | unsubscribe symbols source sdkRaises => exact tracked_unsubscribe h hok
  | sync order positionSymbols subscribeRaises unsubscribeRaises => exact tracked_sync h hok

/-! ## Exactness -/

/-- A manual call that goes wrong leaves the SDK behind the sources or drops a position. -/
theorem harmless_of_kept_unsubscribe (h : Tracked s) {symbols : List String}
    {source : ManualSource} {sdkRaises : String → Bool}
    (hkept : QuotesKept (takeCall s (.unsubscribe symbols source sdkRaises))) :
    Harmless s (.unsubscribe symbols source sdkRaises) := by
  have hnone : ∀ x ∈ symbols, s.stream.subscriptionSources x = {source.val} →
      sdkRaises x = false := by
    intro x hx hsingle
    by_contra hraises
    exact unsubscribeSymbols_raised h.exact
      ⟨x, hx, hsingle, Bool.eq_true_of_not_eq_false hraises⟩ hkept.exact
  intro x hx hsingle
  refine ⟨hnone x hx hsingle, fun seen hseen hmem => ?_⟩
  obtain ⟨_, hsources, _⟩ := unsubscribeSymbols_returned h.exact hnone
  have hheld := (hkept.exact x).mp (hkept.positions seen hseen x hmem)
  have hheld : (unsubscribeSymbols s.stream symbols source sdkRaises).1.subscriptionSources.IsHeld
    x := hheld
  rw [hsources, Holders.isHeld_letGoAll] at hheld
  exact hheld.2 ⟨hx, hsingle⟩

theorem harmless_of_kept_sync (h : Tracked s) {order : SetOrder}
    {positionSymbols : Option (Finset String)} {subscribeRaises : Bool}
    {unsubscribeRaises : String → Bool}
    (hkept : QuotesKept (takeCall s
      (.sync order positionSymbols subscribeRaises unsubscribeRaises))) :
    Harmless s (.sync order positionSymbols subscribeRaises unsubscribeRaises) := by
  intro positions hpositions x hx hsingle
  rw [hpositions, takeCall_sync_some] at hkept
  obtain ⟨hafter, _, hsame, _⟩ := afterSubscribe_spec order positions subscribeRaises h.exact
  by_contra hraises
  apply unsubscribeSymbols_raised hafter _ hkept.exact
  refine ⟨x, (order.mem_list _ x).mpr hx, ?_, Bool.eq_true_of_not_eq_false hraises⟩
  rw [hsame x (Finset.mem_sdiff.mp hx).2]
  exact hsingle

/-- In a run, every state keeps the quotes exactly if every call is harmless. -/
theorem quotesKept_iff_harmless (calls : List StreamCall) :
    EveryState takeCall QuotesKept initialRun calls ↔
      EachStep takeCall Harmless initialRun calls := by
  apply everyState_iff_eachStep_of_invariant (G := Tracked)
  · exact fun _ h => h.kept
  · exact fun _ _ h hok => tracked_takeCall h hok
  · intro s call h hkept
    cases call with
    | subscribe symbols source sdkRaises => trivial
    | unsubscribe symbols source sdkRaises => exact harmless_of_kept_unsubscribe h hkept
    | sync order positionSymbols subscribeRaises unsubscribeRaises =>
        exact harmless_of_kept_sync h hkept
  · exact tracked_initialRun

def manualSource : ManualSource := ⟨"manual", by decide⟩

def sortedOrder : SetOrder := ⟨fun symbols => symbols.sort (· ≤ ·), by simp⟩

/-- A symbol is watched by hand before its position is seen. The sync leaves it as it is, and the
end of the watch ends the quotes of the open position. -/
theorem position_loses_its_quotes :
    ¬ EveryState takeCall QuotesKept initialRun
      [.subscribe ["AAPL"] manualSource false,
        .sync sortedOrder (some {"AAPL"}) false (fun _ => false),
        .unsubscribe ["AAPL"] manualSource (fun _ => false)] := by
  intro ⟨_, _, _, hlast⟩
  have hkept := hlast.positions {"AAPL"} (by decide) "AAPL" (by decide)
  exact absurd hkept (by decide)

end TradingPlatform.Data
