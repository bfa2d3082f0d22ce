import TradingPlatform.Base.DecimalPlaces

/-! # From signals to orders

The orchestrator turns the signals of a run into market orders. Prices come from Redis, all at once
before the first signal and again for a symbol whose price has become too old, through a cache that
lives as long as the run. Every order is sized by a price that was read in the run for its symbol
and was fresh when it was used.
-/

namespace TradingPlatform.Orchestrator

open Base

/-! ## Prices in Redis -/

inductive MidField where
  | absent
  /-- no number, or not a finite one -/
  | invalid
  | number (mid : ℚ)
  deriving DecidableEq, Repr

/-- A payload, by the fields that are read. Times are in microseconds; `some none` is a timestamp
that does not parse. -/
structure PricePayload where
  symbol : Option String
  timestamp : Option (Option ℤ)
  mid : MidField
  deriving DecidableEq, Repr

/-- `none` is a text that is no JSON object. -/
abbrev RawPrice := Option PricePayload

structure ParsedPrice where
  mid : ℚ
  timestamp : ℤ
  deriving DecidableEq, Repr

def microseconds (seconds : ℕ) : ℤ := seconds * 1000000

def parseRedisPriceJson (raw : RawPrice) (expectedSymbol : Option String)
    (maxPriceAgeSeconds : Option ℕ) (now : ℤ) : Option ParsedPrice := do
  let payload ← raw
  if expectedSymbol.any fun symbol => payload.symbol ≠ some symbol then none
  else
    let timestamp ← payload.timestamp.join
    let age := now - timestamp
    if age < -microseconds 5 then none
    else if maxPriceAgeSeconds.any fun seconds => microseconds seconds < age then none
    else
      match payload.mid with
      | .number mid => if mid ≤ 0 then none else some ⟨mid, timestamp⟩
      | _ => none

/-! ## The orchestrator of a run -/

structure OrchestratorConfig where
  capital : ℚ
  maxPositionSize : ℚ
  maxPriceAgeSeconds : ℕ
  hasRedis : Bool
  deriving Repr

structure Signal where
  symbol : String
  predictedReturn : ℚ
  rank : ℤ
  targetWeight : ℚ
  deriving DecidableEq, Repr

structure SignalOrderMapping where
  symbol : String
  predictedReturn : ℚ
  rank : ℤ
  targetWeight : ℚ
  clientOrderId : Option String
  orderQty : Option ℤ
  orderSide : Option String
  brokerOrderId : Option String
  orderStatus : Option String
  skipReason : Option String
  deriving DecidableEq, Repr

/-- The cache of the run, and what the run knows of Redis. -/
structure PriceBook where
  priceCache : String → Option ℚ
  priceTimestamps : String → Option ℤ
  redisUnavailable : Bool
  prefetchAttempted : String → Bool

def emptyPrices : PriceBook := ⟨fun _ => none, fun _ => none, false, fun _ => false⟩

/-- What the batch read brings: `none` when it raises, otherwise a value for every key. -/
structure PrefetchReads where
  now : ℤ
  values : Option (String → Option RawPrice)
  parsedAt : String → ℤ

/-- What a single read brings: `none` when it raises. -/
structure PriceReads where
  now : ℤ
  value : Option (Option RawPrice)
  parsedAt : ℤ

def PriceBook.evict (s : PriceBook) (symbol : String) : PriceBook :=
  { s with
    priceCache := Function.update s.priceCache symbol none
    priceTimestamps := Function.update s.priceTimestamps symbol none }

def PriceBook.parseAndCachePrice (config : OrchestratorConfig) (s : PriceBook) (symbol : String)
    (raw : RawPrice) (now : ℤ) : Option ℚ × PriceBook :=
  match parseRedisPriceJson raw (some symbol) (some config.maxPriceAgeSeconds) now with
  | none => (none, s)
  | some result =>
      (some result.mid, { s with
        priceCache := Function.update s.priceCache symbol (some result.mid)
        priceTimestamps := Function.update s.priceTimestamps symbol (some result.timestamp) })

/-- A symbol without a price in the cache, or with one that is too old. -/
def PriceBook.needed (config : OrchestratorConfig) (s : PriceBook) (now : ℤ) (symbol : String) :
    Bool :=
  (s.priceCache symbol).isNone ||
    !(s.priceTimestamps symbol).any fun timestamp =>
      now - timestamp ≤ microseconds config.maxPriceAgeSeconds

def PriceBook.cacheAll (config : OrchestratorConfig) (values : String → Option RawPrice)
    (parsedAt : String → ℤ) : PriceBook → List String → PriceBook
  | s, [] => s
  | s, symbol :: symbols =>
      match values symbol with
      | none => cacheAll config values parsedAt s symbols
      | some raw =>
          cacheAll config values parsedAt
            (s.parseAndCachePrice config symbol raw (parsedAt symbol)).2 symbols

def PriceBook.prefetchPrices (config : OrchestratorConfig) (s : PriceBook) (symbols : List String)
    (reads : PrefetchReads) : PriceBook :=
  let needed := symbols.filter (s.needed config reads.now)
  if !config.hasRedis || needed.isEmpty then s
  else
    let s := needed.foldl PriceBook.evict s
    match reads.values with
    | none => { s with redisUnavailable := true }
    | some values =>
        let s := s.cacheAll config values reads.parsedAt needed
        { s with
          prefetchAttempted := fun symbol => s.prefetchAttempted symbol || needed.contains symbol }

/-- The read of a single price, unless Redis has failed or the symbol was prefetched. -/
def PriceBook.getFromRedis (config : OrchestratorConfig) (s : PriceBook) (symbol : String)
    (reads : PriceReads) : Option ℚ × PriceBook :=
  if config.hasRedis && !s.redisUnavailable && !s.prefetchAttempted symbol then
    match reads.value with
    | none => (none, { s with redisUnavailable := true })
    | some none => (none, s)
    | some (some raw) => s.parseAndCachePrice config symbol raw reads.parsedAt
  else (none, s)

/-- `none` is the error that the price is not available. -/
def PriceBook.getCurrentPrice (config : OrchestratorConfig) (s : PriceBook) (symbol : String)
    (reads : PriceReads) : Option ℚ × PriceBook :=
  match s.priceCache symbol with
  | none => s.getFromRedis config symbol reads
  | some price =>
      match s.priceTimestamps symbol with
      | none =>
          PriceBook.getFromRedis config
            { s with priceCache := Function.update s.priceCache symbol none } symbol reads
      | some timestamp =>
          if reads.now - timestamp ≤ microseconds config.maxPriceAgeSeconds then (some price, s)
          else (s.evict symbol).getFromRedis config symbol reads

/-! ## Orders -/

def SignalOrderMapping.ofSignal (signal : Signal) : SignalOrderMapping :=
  ⟨signal.symbol, signal.predictedReturn, signal.rank, signal.targetWeight, none, none, none, none,
    none, none⟩

/-- The digits of the decimal context. -/
def contextDigits : ℕ := 28

/-- The amount for a signal, under the cap. -/
def dollarAmount (config : OrchestratorConfig) (signal : Signal) : ℚ :=
  let amount := toPrecision contextDigits (|signal.targetWeight| * config.capital)
  if config.maxPositionSize < amount then config.maxPositionSize else amount

def mapSignal (config : OrchestratorConfig) (s : PriceBook) (signal : Signal)
    (reads : PriceReads) : SignalOrderMapping × PriceBook :=
  let mapping := SignalOrderMapping.ofSignal signal
  if signal.targetWeight = 0 then ({ mapping with skipReason := some "zero_weight" }, s)
  else
    match s.getCurrentPrice config signal.symbol reads with
    | (none, s) =>
        ({ mapping with
            skipReason :=
              some ("price_unavailable: Price unavailable for " ++ signal.symbol) }, s)
    | (some price, s) =>
        let qty := truncate (toPrecision contextDigits (dollarAmount config signal / price))
        if qty < 1 then ({ mapping with skipReason := some "qty_less_than_one_share" }, s)
        else
          ({ mapping with
              orderQty := some qty
              orderSide := some (if 0 < signal.targetWeight then "buy" else "sell") }, s)

def mapSignals (config : OrchestratorConfig) :
    PriceBook → List (Signal × PriceReads) → List SignalOrderMapping
  | _, [] => []
  | s, (signal, reads) :: rest =>
      let (mapping, s) := mapSignal config s signal reads
      mapping :: mapSignals config s rest

/-- `_map_signals_to_orders`: the prices of all weighted symbols first. -/
def mapSignalsToOrders (config : OrchestratorConfig) (prefetch : PrefetchReads)
    (signals : List (Signal × PriceReads)) : List SignalOrderMapping :=
  let symbols := ((signals.filter fun x => x.1.targetWeight ≠ 0).map fun x => x.1.symbol).eraseDups
  mapSignals config (emptyPrices.prefetchPrices config symbols prefetch) signals

/-! ## Submission -/

structure OrderRequest where
  symbol : String
  side : String
  qty : ℤ
  orderType : String
  timeInForce : String
  deriving DecidableEq, Repr

inductive SubmissionReply where
  | submitted (clientOrderId : String) (brokerOrderId : Option String) (status : String)
  | connectTimeout
  | httpStatus (statusCode : String)
  | networkError
  | invalidResponse
  | otherError (text : String)
  deriving DecidableEq, Repr

def SignalOrderMapping.rejected (mapping : SignalOrderMapping) (reason : String) :
    SignalOrderMapping :=
  { mapping with orderStatus := some "rejected", skipReason := some reason }

def SignalOrderMapping.answered (mapping : SignalOrderMapping) :
    SubmissionReply → SignalOrderMapping
  | .submitted clientOrderId brokerOrderId status =>
      { mapping with
        clientOrderId := some clientOrderId
        brokerOrderId
        orderStatus := some status }
  | .connectTimeout => mapping.rejected "submission_failed: connection_timeout"
  | .httpStatus statusCode => mapping.rejected ("submission_failed: " ++ statusCode)
  | .networkError => mapping.rejected "submission_failed: network_error"
  | .invalidResponse => mapping.rejected "submission_failed: invalid_response"
  | .otherError text => mapping.rejected ("unexpected_error: " ++ text)

def SignalOrderMapping.request (mapping : SignalOrderMapping) : Option OrderRequest := do
  let qty ← mapping.orderQty
  let side ← mapping.orderSide
  pure ⟨mapping.symbol, side, qty, "market", "day"⟩

/-- The requests that are sent, and the mappings with their answers. `sent` counts the requests. -/
def submitOrders (replies : ℕ → SubmissionReply) : ℕ → List SignalOrderMapping →
    List OrderRequest × List SignalOrderMapping
  | _, [] => ([], [])
  | sent, mapping :: rest =>
      match mapping.request with
      | none =>
          let (requests, answered) := submitOrders replies sent rest
          (requests, mapping :: answered)
      | some request =>
          let (requests, answered) := submitOrders replies (sent + 1) rest
          (request :: requests, mapping.answered (replies sent) :: answered)

/-! ## Prices of the run -/

section Prices

variable (config : OrchestratorConfig) (prefetch : PrefetchReads)
  (signals : List (Signal × PriceReads))

/-- The payload was read for the symbol in this run. -/
def ReadFor (symbol : String) (raw : RawPrice) (parsedAt : ℤ) : Prop :=
  (prefetch.values.bind fun values => values symbol) = some raw ∧
      parsedAt = prefetch.parsedAt symbol ∨
    ∃ x ∈ signals, x.1.symbol = symbol ∧ x.2.value = some (some raw) ∧ parsedAt = x.2.parsedAt

/-- The price was read for the symbol in this run, and its payload passed the checks. -/
def Sourced (symbol : String) (price : ℚ) (timestamp : ℤ) : Prop :=
  ∃ raw parsedAt, ReadFor prefetch signals symbol raw parsedAt ∧
    parseRedisPriceJson raw (some symbol) (some config.maxPriceAgeSeconds) parsedAt =
      some ⟨price, timestamp⟩

def BookInv (s : PriceBook) : Prop :=
  ∀ symbol price, s.priceCache symbol = some price →
    ∃ timestamp, s.priceTimestamps symbol = some timestamp ∧
      Sourced config prefetch signals symbol price timestamp

variable {config prefetch signals} {s : PriceBook} {symbol : String} {price : ℚ}

theorem parse_eq_some {raw : RawPrice} {maxAge : ℕ} {now : ℤ} {result : ParsedPrice}
    (h : parseRedisPriceJson raw (some symbol) (some maxAge) now = some result) :
    0 < result.mid ∧ now - result.timestamp ≤ microseconds maxAge ∧
      raw.bind PricePayload.symbol = some symbol := by
  cases raw with
  | none => cases h
  | some payload =>
      simp only [parseRedisPriceJson, Option.bind_eq_bind, Option.bind_some, Option.any_some] at h
      split at h
      · cases h
      · rename_i hsymbol
        cases htime : payload.timestamp.join with
        | none => simp [htime] at h
        | some timestamp =>
            simp only [htime, Option.bind_some] at h
            split at h
            · cases h
            · split at h
              · cases h
              · rename_i hage
                split at h
                · split at h
                  · cases h
                  · rename_i hpos
                    rw [← Option.some.inj h]
                    exact ⟨not_le.1 hpos, by simpa using hage, by simpa using hsymbol⟩
                · cases h

theorem bookInv_evict (h : BookInv config prefetch signals s) (symbol : String) :
    BookInv config prefetch signals (s.evict symbol) := by
  intro other price hprice
  by_cases heq : other = symbol
  · simp [PriceBook.evict, heq] at hprice
  · simp only [PriceBook.evict, Function.update_of_ne heq] at hprice ⊢
    exact h other price hprice

theorem bookInv_parse (h : BookInv config prefetch signals s) {raw : RawPrice} {now : ℤ}
    (hread : ReadFor prefetch signals symbol raw now) :
    BookInv config prefetch signals (s.parseAndCachePrice config symbol raw now).2 := by
  unfold PriceBook.parseAndCachePrice
  split
  · exact h
  · rename_i result hparse
    intro other price hprice
    by_cases heq : other = symbol
    · rw [heq] at hprice ⊢
      simp only [Function.update_self, Option.some.injEq] at hprice ⊢
      exact ⟨result.timestamp, rfl, raw, now, hread, by rw [hparse, ← hprice]⟩
    · simp only [Function.update_of_ne heq] at hprice ⊢
      exact h other price hprice

theorem bookInv_cacheAll {values : String → Option RawPrice}
    (hvalues : prefetch.values = some values) {symbols : List String}
    (h : BookInv config prefetch signals s) :
    BookInv config prefetch signals (s.cacheAll config values prefetch.parsedAt symbols) := by
  induction symbols generalizing s with
  | nil => exact h
  | cons symbol symbols ih =>
      cases hvalue : values symbol with
      | none =>
          simp only [PriceBook.cacheAll, hvalue]
          exact ih h
      | some raw =>
          simp only [PriceBook.cacheAll, hvalue]
          refine ih (bookInv_parse h (.inl ⟨?_, rfl⟩))
          rw [hvalues, Option.bind_some, hvalue]

theorem bookInv_prefetch (h : BookInv config prefetch signals s) (symbols : List String) :
    BookInv config prefetch signals (s.prefetchPrices config symbols prefetch) := by
  have hevicted : ∀ (needed : List String) (s : PriceBook), BookInv config prefetch signals s →
      BookInv config prefetch signals (needed.foldl PriceBook.evict s) := by
    intro needed
    induction needed with
    | nil => exact fun s hs => hs
    | cons symbol needed ih => exact fun s hs => ih _ (bookInv_evict hs symbol)
  unfold PriceBook.prefetchPrices
  dsimp only
  split
  · exact h
  · split
    · exact hevicted _ s h
    · rename_i values hvalues
      exact bookInv_cacheAll hvalues (hevicted _ s h)

/-- The price of a signal is one of the run, not older than allowed at the time of its use. -/
def FreshPrice (config : OrchestratorConfig) (prefetch : PrefetchReads)
    (signals : List (Signal × PriceReads)) (x : Signal × PriceReads) (price : ℚ) : Prop :=
  ∃ timestamp usedAt, Sourced config prefetch signals x.1.symbol price timestamp ∧
    (usedAt = x.2.now ∨ usedAt = x.2.parsedAt) ∧
    usedAt - timestamp ≤ microseconds config.maxPriceAgeSeconds

variable {x : Signal × PriceReads}

theorem getFromRedis_fresh (h : BookInv config prefetch signals s) (hx : x ∈ signals) :
    BookInv config prefetch signals (s.getFromRedis config x.1.symbol x.2).2 ∧
      ∀ price, (s.getFromRedis config x.1.symbol x.2).1 = some price →
        FreshPrice config prefetch signals x price := by
  unfold PriceBook.getFromRedis
  split
  · split
    · exact ⟨h, fun price hprice => by cases hprice⟩
    · exact ⟨h, fun price hprice => by cases hprice⟩
    · rename_i raw hvalue
      have hread : ReadFor prefetch signals x.1.symbol raw x.2.parsedAt :=
        .inr ⟨x, hx, rfl, hvalue, rfl⟩
      refine ⟨bookInv_parse h hread, fun price hprice => ?_⟩
      unfold PriceBook.parseAndCachePrice at hprice
      split at hprice
      · cases hprice
      · rename_i result hparse
        have hmid : result.mid = price := Option.some.inj hprice
        rw [← hmid]
        exact ⟨result.timestamp, x.2.parsedAt, ⟨raw, x.2.parsedAt, hread, hparse⟩, .inr rfl,
          (parse_eq_some hparse).2.1⟩
  · exact ⟨h, fun price hprice => by cases hprice⟩

theorem getCurrentPrice_fresh (h : BookInv config prefetch signals s) (hx : x ∈ signals) :
    BookInv config prefetch signals (s.getCurrentPrice config x.1.symbol x.2).2 ∧
      ∀ price, (s.getCurrentPrice config x.1.symbol x.2).1 = some price →
        FreshPrice config prefetch signals x price := by
  cases hcached : s.priceCache x.1.symbol with
  | none =>
      simp only [PriceBook.getCurrentPrice, hcached]
      exact getFromRedis_fresh h hx
  | some cached =>
      obtain ⟨timestamp, htimestamp, hsourced⟩ := h _ cached hcached
      simp only [PriceBook.getCurrentPrice, hcached, htimestamp]
      split
      · rename_i hage
        refine ⟨h, fun price hprice => ?_⟩
        have hsame : cached = price := Option.some.inj hprice
        rw [← hsame]
        exact ⟨timestamp, x.2.now, hsourced, .inl rfl, hage⟩
      · exact getFromRedis_fresh (bookInv_evict h _) hx

end Prices

/-! ## Sizes -/

/-- Half a unit of the last digit. -/
def contextError : ℚ := 10 / 10 ^ 28 / 2

/-- Rounding apart, as many shares as the amount buys. -/
structure Sized (config : OrchestratorConfig) (signal : Signal) (price : ℚ) (qty : ℤ) : Prop where
  atLeastOne : 1 ≤ qty
  within : qty * price ≤ dollarAmount config signal * (1 + contextError)
  most : dollarAmount config signal * (1 - contextError) < (qty + 1) * price
  capped : dollarAmount config signal ≤ config.maxPositionSize

theorem sized_of_truncate {config : OrchestratorConfig} {signal : Signal} {price : ℚ} {qty : ℤ}
    (hprice : 0 < price)
    (hqty : truncate (toPrecision contextDigits (dollarAmount config signal / price)) = qty)
    (hone : 1 ≤ qty) : Sized config signal price qty := by
  have herror := toPrecision_error contextDigits (dollarAmount config signal / price)
  have hnonneg : 0 ≤ toPrecision contextDigits (dollarAmount config signal / price) := by
    by_contra hneg
    have hle : truncate (toPrecision contextDigits (dollarAmount config signal / price)) ≤ 0 := by
      rw [truncate, if_neg hneg]
      exact Int.ceil_le.2 (by exact_mod_cast (not_le.1 hneg).le)
    omega
  rw [truncate, if_pos hnonneg] at hqty
  have hpos : 0 < dollarAmount config signal / price := by
    by_contra hle
    have hnonpos := @toPrecision_nonpos contextDigits _ (not_lt.1 hle)
    have hzero : toPrecision contextDigits (dollarAmount config signal / price) = 0 :=
      le_antisymm hnonpos hnonneg
    rw [hzero, Int.floor_zero] at hqty
    omega
  rw [abs_of_pos hpos, abs_le] at herror
  have hlower : (qty : ℚ) ≤ toPrecision contextDigits (dollarAmount config signal / price) := by
    rw [← hqty]
    exact Int.floor_le _
  have hupper : toPrecision contextDigits (dollarAmount config signal / price) < qty + 1 := by
    rw [← hqty]
    exact Int.lt_floor_add_one _
  have hquot : dollarAmount config signal / price * price = dollarAmount config signal :=
    div_mul_cancel₀ _ hprice.ne'
  have hshares : toPrecision contextDigits (dollarAmount config signal / price) ≤
      dollarAmount config signal / price * (1 + contextError) := by
    simp only [contextDigits, contextError] at herror ⊢
    linarith [herror.2]
  have hshares' : dollarAmount config signal / price * (1 - contextError) ≤
      toPrecision contextDigits (dollarAmount config signal / price) := by
    simp only [contextDigits, contextError] at herror ⊢
    linarith [herror.1]
  refine ⟨hone, ?_, ?_, ?_⟩
  · calc (qty : ℚ) * price
        ≤ dollarAmount config signal / price * (1 + contextError) * price :=
          mul_le_mul_of_nonneg_right (hlower.trans hshares) hprice.le
      _ = dollarAmount config signal * (1 + contextError) := by
          rw [mul_right_comm, hquot]
  · calc dollarAmount config signal * (1 - contextError)
        = dollarAmount config signal / price * (1 - contextError) * price := by
          rw [mul_right_comm, hquot]
      _ < (qty + 1) * price := mul_lt_mul_of_pos_right (hshares'.trans_lt hupper) hprice
  · unfold dollarAmount
    dsimp only
    split
    · exact le_refl _
    · exact not_lt.1 ‹_›

/-! ## The run -/

/-- The signal became an order of a fresh price's size, or was skipped for a reason. -/
structure MappedFrom (config : OrchestratorConfig) (prefetch : PrefetchReads)
    (signals : List (Signal × PriceReads)) (x : Signal × PriceReads)
    (mapping : SignalOrderMapping) : Prop where
  symbol : mapping.symbol = x.1.symbol
  targetWeight : mapping.targetWeight = x.1.targetWeight
  skipped : mapping.orderQty = none ↔ mapping.skipReason.isSome
  ordered : ∀ qty, mapping.orderQty = some qty →
    x.1.targetWeight ≠ 0 ∧
      mapping.orderSide = some (if 0 < x.1.targetWeight then "buy" else "sell") ∧
      ∃ price, 0 < price ∧ FreshPrice config prefetch signals x price ∧
        Sized config x.1 price qty

section Run

variable {config : OrchestratorConfig} {prefetch : PrefetchReads}
  {signals : List (Signal × PriceReads)} {s : PriceBook} {x : Signal × PriceReads}

theorem FreshPrice.pos {price : ℚ} (h : FreshPrice config prefetch signals x price) :
    0 < price := by
  obtain ⟨timestamp, usedAt, ⟨raw, parsedAt, _, hparse⟩, _⟩ := h
  exact (parse_eq_some hparse).1

theorem mapSignal_mappedFrom (h : BookInv config prefetch signals s) (hx : x ∈ signals) :
    MappedFrom config prefetch signals x (mapSignal config s x.1 x.2).1 ∧
      BookInv config prefetch signals (mapSignal config s x.1 x.2).2 := by
  obtain ⟨hbook, hfresh⟩ := getCurrentPrice_fresh h hx
  unfold mapSignal
  dsimp only
  by_cases hzero : x.1.targetWeight = 0
  · rw [if_pos hzero]
    exact ⟨⟨rfl, rfl, by simp [SignalOrderMapping.ofSignal],
      fun qty hqty => by simp [SignalOrderMapping.ofSignal] at hqty⟩, h⟩
  rw [if_neg hzero]
  split
  · rename_i book hprice
    rw [hprice] at hbook
    exact ⟨⟨rfl, rfl, by simp [SignalOrderMapping.ofSignal],
      fun qty hqty => by simp [SignalOrderMapping.ofSignal] at hqty⟩, hbook⟩
  · rename_i price book hprice
    rw [hprice] at hbook hfresh
    have hfresh := hfresh price rfl
    split
    · exact ⟨⟨rfl, rfl, by simp [SignalOrderMapping.ofSignal],
        fun qty hqty => by simp [SignalOrderMapping.ofSignal] at hqty⟩, hbook⟩
    · rename_i hone
      refine ⟨⟨rfl, rfl, by simp [SignalOrderMapping.ofSignal], fun qty hqty => ?_⟩, hbook⟩
      have hqty := Option.some.inj hqty
      exact ⟨hzero, rfl, price, hfresh.pos, hfresh,
        sized_of_truncate hfresh.pos hqty (by omega)⟩

theorem mapSignals_mappedFrom {rest : List (Signal × PriceReads)}
    (hrest : ∀ x ∈ rest, x ∈ signals) (h : BookInv config prefetch signals s) :
    List.Forall₂ (MappedFrom config prefetch signals) rest (mapSignals config s rest) := by
  induction rest generalizing s with
  | nil => exact .nil
  | cons x rest ih =>
      obtain ⟨hmapped, hbook⟩ := mapSignal_mappedFrom h (hrest x (by simp))
      exact .cons hmapped (ih (fun y hy => hrest y (by simp [hy])) hbook)

end Run

/-- Only the answer is new. -/
structure SameOrder (before after : SignalOrderMapping) : Prop where
  symbol : after.symbol = before.symbol
  targetWeight : after.targetWeight = before.targetWeight
  orderQty : after.orderQty = before.orderQty
  orderSide : after.orderSide = before.orderSide
  answered : before.request.isSome → after.orderStatus.isSome
  kept : before.request = none → after = before

theorem submitOrders_spec (replies : ℕ → SubmissionReply) (sent : ℕ)
    (mappings : List SignalOrderMapping) :
    (submitOrders replies sent mappings).1 = mappings.filterMap SignalOrderMapping.request ∧
      List.Forall₂ SameOrder mappings (submitOrders replies sent mappings).2 := by
  induction mappings generalizing sent with
  | nil => exact ⟨rfl, .nil⟩
  | cons mapping rest ih =>
      cases hrequest : mapping.request with
      | none =>
          obtain ⟨hsent, hanswered⟩ := ih sent
          simp only [submitOrders, hrequest, List.filterMap_cons, hsent]
          exact ⟨trivial, .cons ⟨rfl, rfl, rfl, rfl, by simp [hrequest], fun _ => rfl⟩ hanswered⟩
      | some request =>
          obtain ⟨hsent, hanswered⟩ := ih (sent + 1)
          simp only [submitOrders, hrequest, List.filterMap_cons, hsent]
          refine ⟨trivial, .cons ?_ hanswered⟩
          cases replies sent <;>
            exact ⟨rfl, rfl, rfl, rfl, fun _ => rfl, fun hnone => by simp [hrequest] at hnone⟩

/-- Every order that a run sends is sized by a price that was read for its symbol in this run and
was fresh when it was used; every signal is sent once or skipped for a reason. -/
theorem orders_are_sized_by_fresh_prices (config : OrchestratorConfig) (prefetch : PrefetchReads)
    (signals : List (Signal × PriceReads)) (replies : ℕ → SubmissionReply) :
    ∃ mappings,
      List.Forall₂ (MappedFrom config prefetch signals) signals mappings ∧
      (submitOrders replies 0 (mapSignalsToOrders config prefetch signals)).1 =
        mappings.filterMap SignalOrderMapping.request ∧
      List.Forall₂ SameOrder mappings
        (submitOrders replies 0 (mapSignalsToOrders config prefetch signals)).2 := by
  have hempty : BookInv config prefetch signals emptyPrices := by
    intro symbol price hprice
    cases hprice
  exact ⟨mapSignalsToOrders config prefetch signals,
    mapSignals_mappedFrom (fun x hx => hx) (bookInv_prefetch hempty _),
    submitOrders_spec replies 0 _⟩

/-- A third of the capital buys 222 shares at 150; the second price is a second too old. -/
example :
    (mapSignalsToOrders ⟨100000, 50000, 30, true⟩
      ⟨0, some fun _ => some (some ⟨some "AAPL", some (some 0), .number 150⟩), fun _ => 0⟩
      [(⟨"AAPL", 0, 1, 333 / 1000⟩, ⟨0, none, 0⟩),
        (⟨"AAPL", 0, 2, -333 / 1000⟩, ⟨31000000, none, 0⟩)]).map SignalOrderMapping.request =
      [some ⟨"AAPL", "buy", 222, "market", "day"⟩, none] := by
  decide +kernel

end TradingPlatform.Orchestrator
