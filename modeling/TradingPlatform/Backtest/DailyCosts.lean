import Mathlib.Tactic.FieldSimp
import TradingPlatform.Backtest.Capacity

/-! # Daily costs of a backtest

The costs of the trades are computed column by column, as the scalar functions compute them for
one trade. They are summed by date and taken from the gross returns of the dates that have one.
-/

namespace TradingPlatform.Backtest

open Base

variable {ι δ K : Type*} [LinearOrder ι] [LinearOrder δ] [Field K] [LinearOrder K]

/-! ## Trades and their costs -/

structure LiquidityData (ι δ K : Type*) where
  date : δ
  identifier : ι
  advUsd : Cell K
  volatility : Cell K
  deriving DecidableEq

structure Trade (ι δ K : Type*) where
  date : δ
  identifier : ι
  tradeValueUsd : K
  advUsd : Cell K
  volatility : Cell K
  usedAdvFallback : Bool
  usedVolFallback : Bool
  participationPct : Option K
  commissionSpreadUsd : K
  impactBps : K
  marketImpactUsd : K
  totalCostBps : K
  totalCostUsd : K
  deriving DecidableEq

def liquidityKey (a : LiquidityData ι δ K) : ι ×ₗ δ := byIdentifier (a.date, a.identifier)

/-- The weight changes that are worth more than a cent, with their values. -/
def tradedChanges (dailyWeights : List (WeightRow ι δ K)) (config : CostModelConfig K) :
    List (WeightChange ι δ K × K) :=
  ((weightChanges dailyWeights).map fun c => (c, |c.change| * config.portfolioValueUsd)).filter
    fun p => minTradeUsd < p.2

/-- `participation_pct`, which is null without fallbacks where the volume is unusable. -/
def participationPct (useFallbacks : Bool) (tradeValueUsd : K) (advUsd : Cell K) : Option K :=
  if useFallbacks then some ((positive advUsd.value).elim 0 (tradeValueUsd / ·))
  else if advUsd.unusable then none
  else some (tradeValueUsd / advUsd.value.getD 0)

def impactBps (root : SquareRoot K) (config : CostModelConfig K) (volatility : Cell K)
    (participation : Option K) : K :=
  if volatility.unusable then 0
  else
    (positive participation).elim 0 fun participation =>
      config.impactCoefficient * volatility.value.getD 0 * basisPoints * root.sqrt participation

/-- The columns of one row, after the join with the volumes and volatilities. -/
def priceTrade (root : SquareRoot K) (config : CostModelConfig K) (useFallbacks : Bool)
    (q : (WeightChange ι δ K × K) × Cell K × Cell K) : Trade ι δ K :=
  let tradeValueUsd := q.1.2
  let usedAdvFallback := q.2.1.unusable
  let usedVolFallback := q.2.2.unusable
  let advUsd := if useFallbacks && usedAdvFallback then .num advFloorUsd else q.2.1
  let volatility := if useFallbacks && usedVolFallback then .num volFloor else q.2.2
  let participation := participationPct useFallbacks tradeValueUsd advUsd
  let commissionSpreadUsd := config.bpsPerTrade * tradeValueUsd / basisPoints
  let impact := impactBps root config volatility participation
  let marketImpactUsd := impact * tradeValueUsd / basisPoints
  { date := q.1.1.date
    identifier := q.1.1.identifier
    tradeValueUsd, advUsd, volatility, usedAdvFallback, usedVolFallback
    participationPct := participation
    commissionSpreadUsd
    impactBps := impact
    marketImpactUsd
    totalCostBps := config.bpsPerTrade + impact
    totalCostUsd := commissionSpreadUsd + marketImpactUsd }

def pricedTrades (root : SquareRoot K) (dailyWeights : List (WeightRow ι δ K))
    (advVolatility : List (LiquidityData ι δ K)) (config : CostModelConfig K)
    (useFallbacks : Bool) : List (Trade ι δ K) :=
  (leftJoin (fun p : WeightChange ι δ K × K => byIdentifier (p.1.date, p.1.identifier))
    liquidityKey (fun a => (a.advUsd, a.volatility)) (.null, .null)
    (tradedChanges dailyWeights config) advVolatility).map (priceTrade root config useFallbacks)

def Trade.toTradeCost [ToString ι] (t : Trade ι δ K) : TradeCost δ K where
  identifier := toString t.identifier
  tradeDate := t.date
  tradeValueUsd := t.tradeValueUsd
  commissionSpreadCost := t.commissionSpreadUsd
  marketImpactCost := t.marketImpactUsd
  totalCostUsd := t.totalCostUsd
  totalCostBps := t.totalCostBps
  advUsd := t.advUsd
  volatility := t.volatility
  participationPct := t.participationPct

/-! ## Costs by date -/

structure DailyCosts (ι δ K : Type*) where
  costDrag : List (δ × K)
  tradeCosts : List (TradeCost δ K)
  trades : List (Trade ι δ K)
  advFallbackCount : ℕ
  volFallbackCount : ℕ
  participationViolations : ℕ

/-- The costs of the dates that have any, as fractions of the portfolio value. -/
def dailyCosts (trades : List (Trade ι δ K)) (config : CostModelConfig K) : List (δ × K) :=
  sortByKey Prod.fst ((groupKeys Trade.date trades).map fun d =>
    (d, groupSum Trade.date Trade.totalCostUsd trades d / config.portfolioValueUsd))

def computeDailyCostsGeneric [ToString ι] (root : SquareRoot K)
    (dailyWeights : List (WeightRow ι δ K)) (advVolatility : List (LiquidityData ι δ K))
    (config : CostModelConfig K) (useFallbacks : Bool) : DailyCosts ι δ K :=
  let noCosts := (uniqueDates dailyWeights).map fun d => (d, (0 : K))
  if config.enabled = false then ⟨noCosts, [], [], 0, 0, 0⟩
  else
    let trades := pricedTrades root dailyWeights advVolatility config useFallbacks
    if trades = [] then ⟨noCosts, [], [], 0, 0, 0⟩
    else
      { costDrag :=
          (leftJoin id Prod.fst Prod.snd 0 (uniqueDates dailyWeights) (dailyCosts trades config))
        tradeCosts := trades.map Trade.toTradeCost
        trades
        advFallbackCount := if useFallbacks then trades.countP Trade.usedAdvFallback else 0
        volFallbackCount := if useFallbacks then trades.countP Trade.usedVolFallback else 0
        participationViolations :=
          if useFallbacks then
            trades.countP fun t => config.participationLimit < t.participationPct.getD 0
          else 0 }

/-! ## Net returns and the summary -/

structure NetReturn (δ K : Type*) where
  date : δ
  grossReturn : K
  costDrag : K
  netReturn : K
  deriving DecidableEq, Repr

def computeNetReturns (grossReturns costDrag : List (δ × K)) : List (NetReturn δ K) :=
  sortByKey NetReturn.date ((leftJoin Prod.fst Prod.fst Prod.snd 0 grossReturns costDrag).map
    fun q => ⟨q.1.1, q.1.2, q.2, q.1.2 - q.2⟩)

def computeCompoundedReturn (returns : List K) : Cell K :=
  if returns = [] then .null else .num ((returns.map fun r => 1 + r).prod - 1)

def computeCostSummary (grossReturns netReturns : List K) (trades : List (Trade ι δ K))
    (portfolioValueUsd : K) (advFallbackCount volatilityFallbackCount participationViolations : ℕ) :
    CostSummary K :=
  let totalCommission := (trades.map Trade.commissionSpreadUsd).sum
  let totalImpact := (trades.map Trade.marketImpactUsd).sum
  let totalTradeValue := (trades.map Trade.tradeValueUsd).sum
  let totalCost := totalCommission + totalImpact
  { totalGrossReturn := computeCompoundedReturn grossReturns
    totalNetReturn := computeCompoundedReturn netReturns
    totalCostDrag := if 0 < portfolioValueUsd then totalCost / portfolioValueUsd else 0
    totalCostUsd := totalCost
    commissionSpreadCostUsd := totalCommission
    marketImpactCostUsd := totalImpact
    numTrades := trades.length
    avgTradeCostBps :=
      if 0 < totalTradeValue then totalCost / totalTradeValue * basisPoints else 0
    advFallbackCount, volatilityFallbackCount, participationViolations }

structure BacktestCostResult (ι δ K : Type*) where
  costSummary : CostSummary K
  capacityAnalysis : CapacityAnalysis K
  netReturns : List (NetReturn δ K)
  costDrag : List (δ × K)
  tradeCosts : List (TradeCost δ K)
  advFallbackCount : ℕ
  volatilityFallbackCount : ℕ
  participationViolations : ℕ

def Trade.toLiquidityRow (t : Trade ι δ K) : LiquidityRow K :=
  ⟨t.tradeValueUsd, t.advUsd, t.volatility⟩

def computeBacktestCosts [ToString ι] (root : SquareRoot K) (power : K → K → K)
    (dailyWeights : List (WeightRow ι δ K)) (grossReturns : List (δ × K))
    (advVolatility : List (LiquidityData ι δ K)) (config : CostModelConfig K) :
    BacktestCostResult ι δ K :=
  let costs := computeDailyCostsGeneric root dailyWeights advVolatility config true
  let netReturns := computeNetReturns grossReturns costs.costDrag
  let costSummary := computeCostSummary (netReturns.map NetReturn.grossReturn)
    (netReturns.map NetReturn.netReturn) costs.trades config.portfolioValueUsd
    costs.advFallbackCount costs.volFallbackCount costs.participationViolations
  { costSummary
    capacityAnalysis := computeCapacityAnalysis root power dailyWeights
      (costs.trades.map Trade.toLiquidityRow) costSummary config
    netReturns
    costDrag := costs.costDrag
    tradeCosts := costs.tradeCosts
    advFallbackCount := costs.advFallbackCount
    volatilityFallbackCount := costs.volFallbackCount
    participationViolations := costs.participationViolations }

/-! ## The gross returns of the backtester -/

structure ForwardReturn (ι δ K : Type*) where
  date : δ
  identifier : ι
  return_ : Option K
  deriving DecidableEq, Repr

def returnKey (r : ForwardReturn ι δ K) : ι ×ₗ δ := byIdentifier (r.date, r.identifier)

/-- The inner join of weights and returns, with the product, zero in a sum where one is null. -/
def weightedReturns (dailyWeights : List (WeightRow ι δ K))
    (dailyReturns : List (ForwardReturn ι δ K)) : List (δ × K) :=
  dailyWeights.flatMap fun w =>
    (withKey returnKey dailyReturns (rowKey w)).map fun r =>
      (w.date, (w.weight.bind fun weight => r.return_.map (weight * ·)).getD 0)

/-- `daily_portfolio_returns` of `run_backtest` -/
def dailyPortfolioReturns (dailyWeights : List (WeightRow ι δ K))
    (dailyReturns : List (ForwardReturn ι δ K)) : List (δ × K) :=
  let weighted := weightedReturns dailyWeights dailyReturns
  sortByKey Prod.fst ((groupKeys Prod.fst weighted).map fun d =>
    (d, groupSum Prod.fst Prod.snd weighted d))

/-! ## Complete and conserved costs -/

/-- The volume and the volatility of a key, null where there are none. -/
def liquidityOn (advVolatility : List (LiquidityData ι δ K)) (k : δ × ι) : Cell K × Cell K :=
  (withKey liquidityKey advVolatility (byIdentifier k)).head?.elim (.null, .null)
    fun a => (a.advUsd, a.volatility)

/-- What the weight change of a key is worth. -/
def changeValue (dailyWeights : List (WeightRow ι δ K)) (config : CostModelConfig K) (k : δ × ι) :
    K :=
  |weightOn dailyWeights k.2 k.1 - previousWeight dailyWeights k.2 k.1| * config.portfolioValueUsd

/-- The scalar functions on the values of one key. -/
def scalarTradeCost [ToString ι] (root : SquareRoot K) (dailyWeights : List (WeightRow ι δ K))
    (advVolatility : List (LiquidityData ι δ K)) (config : CostModelConfig K) (useFallbacks : Bool)
    (k : δ × ι) : TradeCost δ K :=
  let raw := liquidityOn advVolatility k
  computeTradeCost root (toString k.2) k.1 (changeValue dailyWeights config k)
    (if useFallbacks then (applyAdvFallback raw.1).1 else raw.1)
    (if useFallbacks then (applyVolatilityFallback raw.2).1 else raw.2) config

/-- One trade for each weight change over a cent, costed as the scalar functions cost it. -/
def TradesComplete [ToString ι] (root : SquareRoot K) (dailyWeights : List (WeightRow ι δ K))
    (advVolatility : List (LiquidityData ι δ K)) (config : CostModelConfig K)
    (useFallbacks : Bool) : Prop :=
  ∃ keys : List (δ × ι), keys.Nodup ∧
    (∀ d i, (d, i) ∈ keys ↔
      d ∈ uniqueDates dailyWeights ∧ minTradeUsd < changeValue dailyWeights config (d, i)) ∧
    (computeDailyCostsGeneric root dailyWeights advVolatility config useFallbacks).tradeCosts =
      keys.map (scalarTradeCost root dailyWeights advVolatility config useFallbacks)

/-- What the net returns lack of the gross returns is the total of the costs. -/
def CostsConserved [ToString ι] (root : SquareRoot K) (power : K → K → K)
    (dailyWeights : List (WeightRow ι δ K)) (advVolatility : List (LiquidityData ι δ K))
    (config : CostModelConfig K) (dailyReturns : List (ForwardReturn ι δ K)) : Prop :=
  let result := computeBacktestCosts root power dailyWeights
    (dailyPortfolioReturns dailyWeights dailyReturns) advVolatility config
  (result.netReturns.map fun r => r.grossReturn - r.netReturn).sum =
    result.costSummary.totalCostDrag

/-- Trading is free, or every date with a trade has a return of a security that is held. -/
def TradedDatesReturn (dailyWeights : List (WeightRow ι δ K)) (config : CostModelConfig K)
    (dailyReturns : List (ForwardReturn ι δ K)) : Prop :=
  (config.bpsPerTrade = 0 ∧ config.impactCoefficient = 0) ∨
    ∀ d ∈ uniqueDates dailyWeights, ∀ i,
      minTradeUsd < changeValue dailyWeights config (d, i) →
        ∃ w ∈ dailyWeights, ∃ r ∈ dailyReturns, w.date = d ∧ returnKey r = rowKey w

section Proofs

variable {root : SquareRoot K} {dailyWeights : List (WeightRow ι δ K)}
variable {advVolatility : List (LiquidityData ι δ K)} {config : CostModelConfig K}
variable {useFallbacks : Bool}

/-! ## One row against the scalar functions -/

section Scalar

variable [IsStrictOrderedRing K]

omit [IsStrictOrderedRing K] in
theorem applyAdvFallback_fst (adv : Cell K) :
    (applyAdvFallback adv).1 = if adv.unusable then .num advFloorUsd else adv := by
  unfold applyAdvFallback
  split_ifs <;> rfl

omit [IsStrictOrderedRing K] in
theorem applyVolatilityFallback_fst (vol : Cell K) :
    (applyVolatilityFallback vol).1 = if vol.unusable then .num volFloor else vol := by
  unfold applyVolatilityFallback
  split_ifs <;> rfl

/-- After a fallback the volume is usable. -/
theorem applyAdvFallback_usable (adv : Cell K) : (applyAdvFallback adv).1.unusable = false := by
  rw [applyAdvFallback_fst]
  split_ifs with h
  · have hpos : (0 : K) < advFloorUsd := by
      unfold advFloorUsd
      positivity
    simp [hpos]
  · simpa using h

theorem applyVolatilityFallback_usable (vol : Cell K) :
    (applyVolatilityFallback vol).1.unusable = false := by
  rw [applyVolatilityFallback_fst]
  split_ifs with h
  · have hpos : (0 : K) < volFloor := by
      unfold volFloor
      positivity
    simp [hpos]
  · simpa using h

omit [IsStrictOrderedRing K] in
theorem participationPct_eq {tradeValueUsd : K} {adv : Cell K}
    (h : useFallbacks = true → adv.unusable = false) :
    participationPct useFallbacks tradeValueUsd adv =
      if adv.unusable then none else some (tradeValueUsd / adv.value.getD 0) := by
  unfold participationPct
  cases useFallbacks with
  | false => rfl
  | true =>
    have husable := h rfl
    obtain ⟨a, rfl, ha⟩ := Cell.unusable_eq_false_iff.mp husable
    simp [husable, Cell.value, positive_of_pos ha]

/-- The impact column is the scalar market impact. -/
theorem impactBps_eq {tradeValueUsd : K} {adv vol : Cell K} (hvalue : 0 < tradeValueUsd)
    (h : useFallbacks = true → adv.unusable = false) :
    impactBps root config vol (participationPct useFallbacks tradeValueUsd adv) =
      computeMarketImpact root tradeValueUsd adv vol config.impactCoefficient := by
  rw [participationPct_eq h]
  unfold impactBps computeMarketImpact
  cases hvol : vol.unusable with
  | true => simp
  | false =>
    cases hadv : adv.unusable with
    | true => simp [positive]
    | false =>
      obtain ⟨a, rfl, ha⟩ := Cell.unusable_eq_false_iff.mp hadv
      have hshare : 0 < tradeValueUsd / a := div_pos hvalue ha
      simp [Cell.value, positive_of_pos hshare, not_le.mpr hvalue]

omit [LinearOrder ι] [LinearOrder δ] in
/-- The columns of a row with a positive value are the scalar cost of its trade. -/
theorem priceTrade_toTradeCost [ToString ι] {c : WeightChange ι δ K} {tradeValueUsd : K}
    {liquidity : Cell K × Cell K} (hvalue : 0 < tradeValueUsd) :
    (priceTrade root config useFallbacks ((c, tradeValueUsd), liquidity)).toTradeCost =
      computeTradeCost root (toString c.identifier) c.date tradeValueUsd
        (if useFallbacks then (applyAdvFallback liquidity.1).1 else liquidity.1)
        (if useFallbacks then (applyVolatilityFallback liquidity.2).1 else liquidity.2) config := by
  obtain ⟨adv, vol⟩ := liquidity
  have hadv : (if useFallbacks && adv.unusable then .num advFloorUsd else adv) =
      if useFallbacks then (applyAdvFallback adv).1 else adv := by
    rw [applyAdvFallback_fst]
    cases useFallbacks <;> simp
  have hvol : (if useFallbacks && vol.unusable then .num volFloor else vol) =
      if useFallbacks then (applyVolatilityFallback vol).1 else vol := by
    rw [applyVolatilityFallback_fst]
    cases useFallbacks <;> simp
  have husable : useFallbacks = true →
      (if useFallbacks then (applyAdvFallback adv).1 else adv).unusable = false := by
    rintro rfl
    exact applyAdvFallback_usable adv
  have hscale : (basisPoints : K) ≠ 0 := basisPoints_pos.ne'
  unfold priceTrade Trade.toTradeCost computeTradeCost
  simp only [hadv, hvol, impactBps_eq hvalue husable]
  simp only [participationPct_eq husable, hvalue, if_true, TradeCost.mk.injEq, true_and, and_true]
  field_simp

/-- With fallbacks, a trade costs nothing only where no rate and no impact is charged. -/
theorem scalarTradeCost_totalCostUsd [ToString ι] {k : δ × ι}
    (hvalue : 0 < changeValue dailyWeights config k) :
    0 ≤ (scalarTradeCost root dailyWeights advVolatility config true k).totalCostUsd ∧
      ((scalarTradeCost root dailyWeights advVolatility config true k).totalCostUsd = 0 ↔
        config.bpsPerTrade = 0 ∧ config.impactCoefficient = 0) := by
  obtain ⟨adv, hadv, hadvPos⟩ := Cell.unusable_eq_false_iff.mp
    (applyAdvFallback_usable (liquidityOn advVolatility k).1)
  obtain ⟨vol, hvol, hvolPos⟩ := Cell.unusable_eq_false_iff.mp
    (applyVolatilityFallback_usable (liquidityOn advVolatility k).2)
  have hroot := root.pos _ (div_pos hvalue hadvPos)
  have hscale : (0 : K) < basisPoints := basisPoints_pos
  have hbps := config.bps_nonneg
  have himpact := config.impact_nonneg
  have htotal : (scalarTradeCost root dailyWeights advVolatility config true k).totalCostUsd =
      config.bpsPerTrade * (changeValue dailyWeights config k / basisPoints) +
        config.impactCoefficient *
          (vol * root.sqrt (changeValue dailyWeights config k / adv) *
            changeValue dailyWeights config k) := by
    simp only [scalarTradeCost, computeTradeCost, computeMarketImpact, if_true, hadv, hvol,
      Cell.unusable_num, not_le.mpr hadvPos, not_le.mpr hvolPos, not_le.mpr hvalue,
      decide_false, Bool.false_eq_true, if_false, Cell.value, Option.getD_some]
    field_simp
  have hcommission : 0 < changeValue dailyWeights config k / basisPoints := div_pos hvalue hscale
  have hmarket : 0 < vol * root.sqrt (changeValue dailyWeights config k / adv) *
      changeValue dailyWeights config k := mul_pos (mul_pos hvolPos hroot) hvalue
  rw [htotal]
  have hfirst := mul_nonneg hbps hcommission.le
  have hsecond := mul_nonneg himpact hmarket.le
  constructor
  · exact add_nonneg hfirst hsecond
  · rw [add_eq_zero_iff_of_nonneg hfirst hsecond, mul_eq_zero, mul_eq_zero]
    simp [hcommission.ne', hmarket.ne']

end Scalar

/-! ## The trades of a frame -/

section Trades

def tradedKeys (dailyWeights : List (WeightRow ι δ K)) (config : CostModelConfig K) :
    List (δ × ι) :=
  (sortByKey byIdentifier (fullGrid dailyWeights)).filter fun k =>
    minTradeUsd < changeValue dailyWeights config k

/-- The trade of one key. -/
def keyTrade (root : SquareRoot K) (dailyWeights : List (WeightRow ι δ K))
    (advVolatility : List (LiquidityData ι δ K)) (config : CostModelConfig K)
    (useFallbacks : Bool) (k : δ × ι) : Trade ι δ K :=
  priceTrade root config useFallbacks
    ((⟨k.1, k.2, weightOn dailyWeights k.2 k.1,
        weightOn dailyWeights k.2 k.1 - previousWeight dailyWeights k.2 k.1⟩,
      changeValue dailyWeights config k), liquidityOn advVolatility k)

omit [LinearOrder K] in
theorem weightOn_eq_zero {i : ι} (hi : i ∉ uniqueIdentifiers dailyWeights) (d : δ) :
    weightOn dailyWeights i d = 0 := by
  have hnone : withKey rowKey dailyWeights (byIdentifier (d, i)) = [] := by
    rw [withKey, List.filter_eq_nil_iff]
    intro r hr hkey
    have heq : (r.date, r.identifier) = (d, i) :=
      byIdentifier_injective (of_decide_eq_true hkey)
    rw [Prod.mk.injEq] at heq
    apply hi
    rw [uniqueIdentifiers, List.mem_dedup, ← heq.2]
    exact List.mem_map_of_mem hr
  rw [weightOn, hnone]
  rfl

/-- The cost of a date is that of its trades. -/
theorem costDrag_eq [ToString ι] (henabled : config.enabled = true) :
    (computeDailyCostsGeneric root dailyWeights advVolatility config useFallbacks).costDrag =
      (uniqueDates dailyWeights).map fun d =>
        (d, groupSum Trade.date Trade.totalCostUsd
          (pricedTrades root dailyWeights advVolatility config useFallbacks) d /
            config.portfolioValueUsd) := by
  unfold computeDailyCostsGeneric
  simp only [henabled, Bool.true_eq_false, if_false]
  generalize pricedTrades root dailyWeights advVolatility config useFallbacks = trades
  by_cases htrades : trades = []
  · simp [htrades]
  · have hkeys : (sortByKey id (groupKeys Trade.date trades)).Nodup :=
      (perm_sortByKey _).nodup_iff.mpr nodup_groupKeys
    have hdaily : dailyCosts trades config = (sortByKey id (groupKeys Trade.date trades)).map
        fun d => (d, groupSum Trade.date Trade.totalCostUsd trades d / config.portfolioValueUsd) :=
      (map_sortByKey (fun _ => rfl) _).symm
    rw [if_neg htrades, hdaily, leftJoin_values hkeys]
    apply List.map_congr_left
    intro d _
    by_cases hd : d ∈ groupKeys Trade.date trades
    · simp [hd]
    · have hnone : groupSum Trade.date Trade.totalCostUsd trades d = 0 := by
        apply groupSum_eq_zero
        intro t ht hdate
        exact hd (mem_groupKeys.mpr ⟨t, ht, hdate⟩)
      simp [hd, hnone]

theorem trades_eq [ToString ι] (henabled : config.enabled = true) :
    (computeDailyCostsGeneric root dailyWeights advVolatility config useFallbacks).trades =
      pricedTrades root dailyWeights advVolatility config useFallbacks := by
  unfold computeDailyCostsGeneric
  simp only [henabled, Bool.true_eq_false, if_false]
  by_cases htrades : pricedTrades root dailyWeights advVolatility config useFallbacks = []
  · rw [if_pos htrades, htrades]
  · rw [if_neg htrades]

theorem tradeCosts_eq [ToString ι] (henabled : config.enabled = true) :
    (computeDailyCostsGeneric root dailyWeights advVolatility config useFallbacks).tradeCosts =
      (pricedTrades root dailyWeights advVolatility config useFallbacks).map Trade.toTradeCost := by
  unfold computeDailyCostsGeneric
  simp only [henabled, Bool.true_eq_false, if_false]
  by_cases htrades : pricedTrades root dailyWeights advVolatility config useFallbacks = []
  · rw [if_pos htrades, htrades, List.map_nil]
  · rw [if_neg htrades]

variable [IsStrictOrderedRing K]

theorem changeValue_eq_zero {i : ι} (hi : i ∉ uniqueIdentifiers dailyWeights) (d : δ) :
    changeValue dailyWeights config (d, i) = 0 := by
  have hprevious : previousWeight dailyWeights i d = 0 := by
    unfold previousWeight
    cases previousDate dailyWeights d with
    | none => rfl
    | some d' => exact weightOn_eq_zero hi d'
  simp [changeValue, weightOn_eq_zero hi, hprevious]

omit [LinearOrder ι] [LinearOrder δ] in
theorem minTradeUsd_pos : (0 : K) < minTradeUsd := by
  unfold minTradeUsd
  positivity

/-- The grid leaves out no key that is traded. -/
theorem mem_tradedKeys {d : δ} {i : ι} :
    (d, i) ∈ tradedKeys dailyWeights config ↔
      d ∈ uniqueDates dailyWeights ∧ minTradeUsd < changeValue dailyWeights config (d, i) := by
  rw [tradedKeys, List.mem_filter, mem_sortByKey, mem_fullGrid, decide_eq_true_eq]
  constructor
  · rintro ⟨⟨hdate, -⟩, htraded⟩
    exact ⟨hdate, htraded⟩
  · rintro ⟨hdate, htraded⟩
    refine ⟨⟨hdate, ?_⟩, htraded⟩
    by_contra hi
    rw [changeValue_eq_zero hi] at htraded
    exact absurd htraded (not_lt.mpr minTradeUsd_pos.le)

omit [IsStrictOrderedRing K] in
theorem nodup_tradedKeys : (tradedKeys dailyWeights config).Nodup := by
  have hgrid := nodup_sortByKey.mpr (nodup_fullGrid dailyWeights)
  exact (List.Nodup.of_map _ hgrid).filter _

omit [IsStrictOrderedRing K] in
/-- With unique keys, each traded key has one trade, at its own volume and volatility. -/
theorem pricedTrades_eq (hweights : (dailyWeights.map rowKey).Nodup)
    (hliquidity : (advVolatility.map liquidityKey).Nodup) :
    pricedTrades root dailyWeights advVolatility config useFallbacks =
      (tradedKeys dailyWeights config).map
        (keyTrade root dailyWeights advVolatility config useFallbacks) := by
  unfold pricedTrades tradedChanges tradedKeys
  rw [leftJoin_eq_map fun p _ => length_withKey_le_one hliquidity _, weightChanges_eq hweights,
    List.map_map, List.filter_map, List.map_map, List.filter_map, List.map_map]
  rfl

theorem keyTrade_toTradeCost [ToString ι] {k : δ × ι} (hk : k ∈ tradedKeys dailyWeights config) :
    (keyTrade root dailyWeights advVolatility config useFallbacks k).toTradeCost =
      scalarTradeCost root dailyWeights advVolatility config useFallbacks k := by
  have htraded := (mem_tradedKeys.mp hk).2
  exact priceTrade_toTradeCost (minTradeUsd_pos.trans htraded)

/-- One trade for each traded key, with the costs of the scalar functions. -/
theorem tradesComplete [ToString ι] (henabled : config.enabled = true)
    (hweights : (dailyWeights.map rowKey).Nodup)
    (hliquidity : (advVolatility.map liquidityKey).Nodup) :
    TradesComplete root dailyWeights advVolatility config useFallbacks := by
  refine ⟨tradedKeys dailyWeights config, nodup_tradedKeys, fun d i => mem_tradedKeys, ?_⟩
  rw [tradeCosts_eq henabled, pricedTrades_eq hweights hliquidity, List.map_map]
  apply List.map_congr_left
  intro k hk
  exact keyTrade_toTradeCost hk

end Trades

/-! ## Gross returns less costs -/

section Conserved

variable {dailyReturns : List (ForwardReturn ι δ K)}

/-- The dates with a return of a security that is held. -/
def returnDates (dailyWeights : List (WeightRow ι δ K))
    (dailyReturns : List (ForwardReturn ι δ K)) : List δ :=
  groupKeys Prod.fst (weightedReturns dailyWeights dailyReturns)

omit [LinearOrder K] in
theorem mem_returnDates {d : δ} : d ∈ returnDates dailyWeights dailyReturns ↔
    ∃ w ∈ dailyWeights, ∃ r ∈ dailyReturns, w.date = d ∧ returnKey r = rowKey w := by
  simp only [returnDates, mem_groupKeys, weightedReturns, List.mem_flatMap, List.mem_map, withKey,
    List.mem_filter, decide_eq_true_eq]
  constructor
  · rintro ⟨_, ⟨w, hw, r, ⟨hr, hkey⟩, rfl⟩, rfl⟩
    exact ⟨w, hw, r, hr, rfl, hkey⟩
  · rintro ⟨w, hw, r, hr, rfl, hkey⟩
    exact ⟨_, ⟨w, hw, r, ⟨hr, hkey⟩, rfl⟩, rfl⟩

omit [LinearOrder K] in
/-- What is taken from the returns of some dates is the cost of those dates. -/
theorem sum_gross_sub_net {grossReturns : List (δ × K)} {dates : List δ} {cost : δ → K}
    (hnodup : dates.Nodup) :
    ((computeNetReturns grossReturns (dates.map fun d => (d, cost d))).map
        fun r => r.grossReturn - r.netReturn).sum =
      (grossReturns.map fun q => if q.1 ∈ dates then cost q.1 else 0).sum := by
  unfold computeNetReturns
  rw [leftJoin_values hnodup, ((perm_sortByKey _).map _).sum_eq, List.map_map, List.map_map]
  congr 1
  apply List.map_congr_left
  intro q _
  simp

omit [LinearOrder K] in
/-- The net returns lack the costs of the dates that have a return. -/
theorem sum_costs_taken {cost : δ → K} :
    ((computeNetReturns (dailyPortfolioReturns dailyWeights dailyReturns)
        ((uniqueDates dailyWeights).map fun d => (d, cost d))).map
          fun r => r.grossReturn - r.netReturn).sum =
      ((returnDates dailyWeights dailyReturns).map cost).sum := by
  have hdates : (uniqueDates dailyWeights).Nodup := (uniqueDates_sorted dailyWeights).imp ne_of_lt
  rw [sum_gross_sub_net hdates, dailyPortfolioReturns, ((perm_sortByKey _).map _).sum_eq,
    List.map_map]
  congr 1
  apply List.map_congr_left
  intro d hd
  obtain ⟨w, hw, -, -, hdate, -⟩ := mem_returnDates.mp hd
  simp [mem_uniqueDates.mpr ⟨w, hw, hdate⟩]

variable {power : K → K → K}

/-- The total takes in the trades of all dates. -/
theorem costsConserved_iff_trades [ToString ι] (henabled : config.enabled = true) :
    CostsConserved root power dailyWeights advVolatility config dailyReturns ↔
      ((returnDates dailyWeights dailyReturns).map (groupSum Trade.date Trade.totalCostUsd
          (pricedTrades root dailyWeights advVolatility config true))).sum =
        ((pricedTrades root dailyWeights advVolatility config true).map
          Trade.totalCostUsd).sum := by
  have hpos := config.portfolio_pos
  have htotal : ∀ t ∈ pricedTrades root dailyWeights advVolatility config true,
      t.totalCostUsd = t.commissionSpreadUsd + t.marketImpactUsd := by
    intro t ht
    obtain ⟨q, -, rfl⟩ := List.mem_map.mp ht
    rfl
  unfold CostsConserved computeBacktestCosts computeCostSummary
  simp only [costDrag_eq henabled, trades_eq henabled, sum_costs_taken, if_pos hpos]
  rw [List.map_congr_left htotal, List.sum_map_add]
  simp only [div_eq_mul_inv, List.sum_map_mul_right]
  exact mul_left_inj' (inv_ne_zero hpos.ne')

variable [IsStrictOrderedRing K]

/-- Nothing is lost if each date with a trade that costs something has a return. -/
theorem costsConserved_iff [ToString ι] (henabled : config.enabled = true)
    (hweights : (dailyWeights.map rowKey).Nodup)
    (hliquidity : (advVolatility.map liquidityKey).Nodup) :
    CostsConserved root power dailyWeights advVolatility config dailyReturns ↔
      TradedDatesReturn dailyWeights config dailyReturns := by
  have hcost : ∀ k ∈ tradedKeys dailyWeights config,
      0 ≤ (keyTrade root dailyWeights advVolatility config true k).totalCostUsd ∧
        ((keyTrade root dailyWeights advVolatility config true k).totalCostUsd = 0 ↔
          config.bpsPerTrade = 0 ∧ config.impactCoefficient = 0) := by
    intro k hk
    have hvalue := minTradeUsd_pos.trans (mem_tradedKeys.mp hk).2
    have hscalar : (keyTrade root dailyWeights advVolatility config true k).totalCostUsd =
        (scalarTradeCost root dailyWeights advVolatility config true k).totalCostUsd :=
      congrArg TradeCost.totalCostUsd (keyTrade_toTradeCost hk)
    rw [hscalar]
    exact scalarTradeCost_totalCostUsd hvalue
  have hnonneg : ∀ t ∈ pricedTrades root dailyWeights advVolatility config true,
      0 ≤ t.totalCostUsd := by
    rw [pricedTrades_eq hweights hliquidity]
    intro t ht
    obtain ⟨k, hk, rfl⟩ := List.mem_map.mp ht
    exact (hcost k hk).1
  have hdates : (returnDates dailyWeights dailyReturns).Nodup := nodup_groupKeys
  rw [costsConserved_iff_trades henabled, sum_groupSum_eq_iff hdates hnonneg,
    pricedTrades_eq hweights hliquidity, List.forall_mem_map]
  unfold TradedDatesReturn
  constructor
  · intro hlost
    by_cases hfree : config.bpsPerTrade = 0 ∧ config.impactCoefficient = 0
    · exact Or.inl hfree
    · right
      intro d hd i hvalue
      have hk := mem_tradedKeys.mpr ⟨hd, hvalue⟩
      rw [← mem_returnDates]
      by_contra hdate
      exact hfree ((hcost _ hk).2.mp (hlost _ hk hdate))
  · rintro (hfree | hreturn) k hk hdate
    · exact (hcost k hk).2.mpr hfree
    · obtain ⟨hd, hvalue⟩ := mem_tradedKeys.mp hk
      exact absurd (mem_returnDates.mpr (hreturn _ hd _ hvalue)) hdate

/-- Costs are complete always, and conserved where every traded date has a return. -/
theorem completeConserved_iff [ToString ι] (root : SquareRoot K) (power : K → K → K)
    (dailyWeights : List (WeightRow ι δ K)) (advVolatility : List (LiquidityData ι δ K))
    (config : CostModelConfig K) (dailyReturns : List (ForwardReturn ι δ K))
    (henabled : config.enabled = true) (hweights : (dailyWeights.map rowKey).Nodup)
    (hliquidity : (advVolatility.map liquidityKey).Nodup) :
    ((∀ useFallbacks, TradesComplete root dailyWeights advVolatility config useFallbacks) ∧
        CostsConserved root power dailyWeights advVolatility config dailyReturns) ↔
      TradedDatesReturn dailyWeights config dailyReturns := by
  rw [costsConserved_iff henabled hweights hliquidity]
  apply and_iff_right
  intro useFallbacks
  exact tradesComplete henabled hweights hliquidity

end Conserved

end Proofs

/-! ## A date without a return -/

/-- The volume of the second date is missing. -/
def firstLiquidity : List (LiquidityData ℕ ℕ ℚ) := [⟨1, 10, .num 10000000, .num (1 / 50)⟩]

def heldReturns : List (ForwardReturn ℕ ℕ ℚ) := [⟨1, 10, some (1 / 100)⟩, ⟨2, 10, none⟩]

theorem complete_conserved_held :
    (∀ useFallbacks,
        TradesComplete hundredthRoot risingWeights firstLiquidity standardConfig useFallbacks) ∧
      CostsConserved hundredthRoot (fun base _ => base) risingWeights firstLiquidity
        standardConfig heldReturns := by
  apply (completeConserved_iff hundredthRoot (fun base _ => base) risingWeights firstLiquidity
    standardConfig heldReturns rfl (by decide +kernel) (by decide +kernel)).mpr
  right
  intro d hd i _
  obtain ⟨w, hw, hdate⟩ := mem_uniqueDates.mp hd
  simp only [risingWeights, List.mem_cons, List.not_mem_nil, or_false] at hw
  rcases hw with rfl | rfl
  · exact ⟨_, List.mem_cons_self, ⟨1, 10, some (1 / 100)⟩, by decide +kernel, hdate, rfl⟩
  · exact ⟨_, by decide +kernel, ⟨2, 10, none⟩, by decide +kernel, hdate, rfl⟩

/-- The second date has the return of a security that is not held. -/
def otherReturns : List (ForwardReturn ℕ ℕ ℚ) :=
  [⟨1, 10, some (1 / 100)⟩, ⟨2, 11, some (1 / 50)⟩]

/-- The purchase of the second date is in the total and in no net return. -/
theorem complete_conserved_fails_other :
    ¬ ((∀ useFallbacks,
        TradesComplete hundredthRoot risingWeights firstLiquidity standardConfig useFallbacks) ∧
      CostsConserved hundredthRoot (fun base _ => base) risingWeights firstLiquidity
        standardConfig otherReturns) := by
  rintro ⟨-, hconserved⟩
  revert hconserved
  unfold CostsConserved
  decide +kernel

end TradingPlatform.Backtest
