import Mathlib.Data.List.MinMax
import Mathlib.Tactic.Positivity
import TradingPlatform.Backtest.CostModel
import TradingPlatform.Base.Bisection

/-! # Capacity analysis

The capacity of a strategy is the smallest size at which its market impact, its participation in
the daily volume or its net alpha reaches a limit. A limit that cannot be computed is left out of
the minimum, and so is the break-even of a strategy that has none because it earns nothing.
-/

namespace TradingPlatform.Backtest

open Base

variable {ι δ K : Type*} [Field K] [LinearOrder K]

/-! ## Inputs and results -/

structure CostSummary (K : Type*) where
  totalGrossReturn : Cell K
  totalNetReturn : Cell K
  totalCostDrag : K
  totalCostUsd : K
  commissionSpreadCostUsd : K
  marketImpactCostUsd : K
  numTrades : ℕ
  avgTradeCostBps : K
  advFallbackCount : ℕ
  volatilityFallbackCount : ℕ
  participationViolations : ℕ
  deriving DecidableEq

/-- The columns of the trades that the analysis reads. -/
structure LiquidityRow (K : Type*) where
  tradeValueUsd : K
  advUsd : Cell K
  volatility : Cell K
  deriving DecidableEq

inductive LimitingFactor
  | impact5bps
  | participation
  | breakeven
  deriving DecidableEq, Repr

structure CapacityAnalysis (K : Type*) where
  avgDailyTurnover : Option K
  avgHoldingPeriodDays : Option K
  portfolioAdv : Option K
  portfolioSigma : Option K
  grossAlphaAnnualized : Option K
  impactAum5bps : Option K
  impactAum10bps : Option K
  participationAum : Option K
  breakevenAum : Option K
  impliedMaxCapacity : Option K
  limitingFactor : Option LimitingFactor
  deriving DecidableEq

/-! ## The three constraints -/

def positive (x : Option K) : Option K := x.filter fun x => 0 < x

/-- `trade = ADV * (target / (eta * sigma * basisPoints)) ^ 2`, over the turnover. -/
def impactSize (config : CostModelConfig K) (targetImpactBps adv sigma turnover : K) : K :=
  let participationAtTarget :=
    (targetImpactBps / (config.impactCoefficient * sigma * basisPoints)) ^ 2
  adv * participationAtTarget / turnover

def computeImpactAum (targetImpactBps : K) (portfolioAdv portfolioSigma avgTurnover : Option K)
    (config : CostModelConfig K) : Option K :=
  (positive portfolioAdv).bind fun adv =>
    (positive portfolioSigma).bind fun sigma =>
      (positive avgTurnover).bind fun turnover =>
        if config.impactCoefficient ≤ 0 then none
        else some (impactSize config targetImpactBps adv sigma turnover)

def participationSize (participationLimit adv turnover : K) : K :=
  participationLimit * adv / turnover

def computeParticipationAum (portfolioAdv avgTurnover : Option K) (participationLimit : K) :
    Option K :=
  (positive portfolioAdv).bind fun adv =>
    (positive avgTurnover).map fun turnover => participationSize participationLimit adv turnover

/-- `compute_net_alpha(aum)` -/
def netAlpha (root : SquareRoot K) (config : CostModelConfig K) (gross adv sigma turnover aum : K) :
    K :=
  let dailyTrade := aum * turnover
  let participation := dailyTrade / adv
  let impactBps := config.impactCoefficient * sigma * basisPoints * root.sqrt participation
  let totalCostBps := config.bpsPerTrade + impactBps
  let annualCostDrag := totalCostBps * turnover * 252 / basisPoints
  gross - annualCostDrag

def searchTolerance : K := 1 / 10 ^ 6
def searchLow : K := 1000
def searchHigh : K := 10 ^ 10
def maxIterations : ℕ := 50

def computeBreakevenAum (root : SquareRoot K) (grossAlphaAnnual portfolioAdv portfolioSigma
    avgTurnover : Option K) (config : CostModelConfig K) : Option K :=
  (positive grossAlphaAnnual).bind fun gross =>
    (positive portfolioAdv).bind fun adv =>
      (positive portfolioSigma).bind fun sigma =>
        (positive avgTurnover).bind fun turnover =>
          let net := netAlpha root config gross adv sigma turnover
          -- unprofitable even at the lower bound
          if net searchLow ≤ 0 then none
          -- no break-even in the range
          else if 0 < net searchHigh then none
          else some (bisect net searchTolerance maxIterations searchLow searchHigh)

/-! ## The analysis -/

/-- The mean over the dates of the absolute weight changes. -/
def averageTurnover [LinearOrder ι] [LinearOrder δ] (dailyWeights : List (WeightRow ι δ K)) :
    Option K :=
  let changes := weightChanges dailyWeights
  let dates := groupKeys WeightChange.date changes
  if dates = [] then none
  else some ((dates.map (groupSum WeightChange.date (fun c => |c.change|) changes)).sum /
    dates.length)

def numDays [LinearOrder ι] [LinearOrder δ] (dailyWeights : List (WeightRow ι δ K)) : ℕ :=
  (groupKeys WeightChange.date (weightChanges dailyWeights)).length

/-- The mean of a column over the trades where it is finite, weighted by their values. -/
def tradeWeighted (column : LiquidityRow K → Cell K) (trades : List (LiquidityRow K)) : Option K :=
  let totalTradeValue := (trades.map LiquidityRow.tradeValueUsd).sum
  let weighted := (trades.map fun t => ((column t).value.map (t.tradeValueUsd * ·)).getD 0).sum
  if trades = [] ∨ totalTradeValue ≤ 0 then none
  else if 0 < weighted then some (weighted / totalTradeValue) else none

def annualizedAlpha (power : K → K → K) (totalGrossReturn : Cell K) (tradingDays : ℕ) : Option K :=
  totalGrossReturn.value.bind fun gross =>
    if -1 < gross ∧ 0 < tradingDays then some (power (1 + gross) (252 / tradingDays) - 1) else none

def validConstraints (impactAum participationAum breakevenAum : Option K) :
    List (K × LimitingFactor) :=
  [(impactAum, LimitingFactor.impact5bps), (participationAum, .participation),
    (breakevenAum, .breakeven)].filterMap fun c => c.1.map fun aum => (aum, c.2)

def computeCapacityAnalysis [LinearOrder ι] [LinearOrder δ] (root : SquareRoot K)
    (power : K → K → K) (dailyWeights : List (WeightRow ι δ K)) (trades : List (LiquidityRow K))
    (costSummary : CostSummary K) (config : CostModelConfig K) : CapacityAnalysis K :=
  match averageTurnover dailyWeights with
  | none => ⟨none, none, none, none, none, none, none, none, none, none, none⟩
  | some turnover =>
    let portfolioAdv := tradeWeighted LiquidityRow.advUsd trades
    let portfolioSigma := tradeWeighted LiquidityRow.volatility trades
    let grossAlpha := annualizedAlpha power costSummary.totalGrossReturn (numDays dailyWeights)
    let impactAum5bps := computeImpactAum 5 portfolioAdv portfolioSigma (some turnover) config
    let impactAum10bps := computeImpactAum 10 portfolioAdv portfolioSigma (some turnover) config
    let participationAum :=
      computeParticipationAum portfolioAdv (some turnover) config.participationLimit
    let breakevenAum :=
      computeBreakevenAum root grossAlpha portfolioAdv portfolioSigma (some turnover) config
    let binding := (validConstraints impactAum5bps participationAum breakevenAum).argmin Prod.fst
    { avgDailyTurnover := some turnover
      avgHoldingPeriodDays := if 0 < turnover then some (1 / turnover) else none
      portfolioAdv, portfolioSigma
      grossAlphaAnnualized := grossAlpha
      impactAum5bps, impactAum10bps, participationAum, breakevenAum
      impliedMaxCapacity := binding.map Prod.fst
      limitingFactor := binding.map Prod.snd }

/-! ## Sound capacities -/

/-- The quantities that the constraints are computed from. -/
structure Available (analysis : CapacityAnalysis K) (gross adv sigma turnover : K) : Prop where
  gross : analysis.grossAlphaAnnualized = some gross
  adv : analysis.portfolioAdv = some adv
  sigma : analysis.portfolioSigma = some sigma
  turnover : analysis.avgDailyTurnover = some turnover

/-- Up to `size` the strategy loses no more than the tolerance. -/
def SustainedTo (net : K → K) (size : K) : Prop :=
  ∀ aum, searchLow ≤ aum → aum ≤ size → -searchTolerance ≤ net aum

/-- The value is close to a zero, or halves a last bracket. -/
def FoundZero (net : K → K) (size : K) : Prop :=
  |net size| < searchTolerance ∨
    ∃ low high, size = midpoint low high ∧ Bracket net low high ∧
      high - low < searchHigh / (2 ^ maxIterations : ℕ)

def CapacitySound (root : SquareRoot K) (config : CostModelConfig K)
    (analysis : CapacityAnalysis K) : Prop :=
  ∀ gross adv sigma turnover, Available analysis gross adv sigma turnover →
    (∀ size, analysis.impliedMaxCapacity = some size →
      SustainedTo (netAlpha root config gross adv sigma turnover) size) ∧
    ∀ size, analysis.breakevenAum = some size →
      FoundZero (netAlpha root config gross adv sigma turnover) size

/-- A size below the range, or one that loses no more than the tolerance. -/
def Tolerated (net : K → K) (size : K) : Prop := size < searchLow ∨ -searchTolerance ≤ net size

/-- There is no turnover, or one of the sizes is tolerated: the one of five basis points of impact,
the one of the participation limit, or the change of sign within the range. -/
def SomeSizeTolerated (config : CostModelConfig K) (net : K → K) (adv sigma turnover : K) : Prop :=
  turnover ≤ 0 ∨
    (0 < config.impactCoefficient ∧ Tolerated net (impactSize config 5 adv sigma turnover)) ∨
    Tolerated net (participationSize config.participationLimit adv turnover) ∨
    (Bracket net searchLow searchHigh ∧
      ∃ k < 2 ^ maxIterations,
        ResolvedCell net searchTolerance searchLow searchHigh maxIterations k)

/-! ## Tolerated sizes -/

theorem sustainedTo_iff {net : K → K} (hnet : Antitone net) (size : K) :
    SustainedTo net size ↔ Tolerated net size := by
  constructor
  · intro h
    rcases lt_or_ge size searchLow with hsmall | hlarge
    · exact Or.inl hsmall
    · exact Or.inr (h size hlarge le_rfl)
  · rintro (hsmall | hnear) aum hlow hle
    · exact absurd (hlow.trans hle) (not_le.mpr hsmall)
    · exact hnear.trans (hnet hle)

theorem Tolerated.of_le {net : K → K} (hnet : Antitone net) {size size' : K} (hle : size' ≤ size)
    (h : Tolerated net size) : Tolerated net size' := by
  rcases h with hsmall | hnear
  · exact Or.inl (hle.trans_lt hsmall)
  · exact Or.inr (hnear.trans (hnet hle))

/-- The smallest of some sizes is tolerated if one of them is. -/
theorem tolerated_argmin_iff {net : K → K} (hnet : Antitone net)
    {constraints : List (K × LimitingFactor)} {binding : K × LimitingFactor}
    (h : constraints.argmin Prod.fst = some binding) :
    Tolerated net binding.1 ↔ ∃ c ∈ constraints, Tolerated net c.1 := by
  constructor
  · exact fun htolerated => ⟨binding, List.argmin_mem h, htolerated⟩
  · rintro ⟨c, hc, htolerated⟩
    exact htolerated.of_le hnet (List.le_of_mem_argmin hc h)

theorem positive_of_pos {x : K} (h : 0 < x) : positive (some x) = some x := by
  simp [positive, h]

theorem positive_of_nonpos {x : K} (h : x ≤ 0) : positive (some x) = none := by
  simp [positive, h]

omit [Field K] [LinearOrder K] in
theorem exists_mem_validConstraints {impactAum participationAum breakevenAum : Option K}
    {P : K → Prop} :
    (∃ c ∈ validConstraints impactAum participationAum breakevenAum, P c.1) ↔
      (∃ x, impactAum = some x ∧ P x) ∨ (∃ x, participationAum = some x ∧ P x) ∨
        ∃ x, breakevenAum = some x ∧ P x := by
  unfold validConstraints
  cases impactAum <;> cases participationAum <;> cases breakevenAum <;> simp

/-! ## The net alpha falls with the size -/

section Sizes

variable [IsStrictOrderedRing K] {root : SquareRoot K} {config : CostModelConfig K}
variable {gross adv sigma turnover : K}

theorem netAlpha_antitone (hadv : 0 < adv) (hsigma : 0 < sigma) (hturnover : 0 ≤ turnover) :
    Antitone (netAlpha root config gross adv sigma turnover) := by
  intro aum aum' h
  have hshare : aum * turnover / adv ≤ aum' * turnover / adv := by gcongr
  have hroot := root.mono hshare
  have hscale : (0 : K) < basisPoints := basisPoints_pos
  have hrate : 0 ≤ config.impactCoefficient * sigma * basisPoints := by
    have hcoefficient := config.impact_nonneg
    positivity
  have himpact := mul_le_mul_of_nonneg_left hroot hrate
  have hcost : (config.bpsPerTrade +
      config.impactCoefficient * sigma * basisPoints * root.sqrt (aum * turnover / adv)) *
        turnover * 252 / basisPoints ≤
      (config.bpsPerTrade +
        config.impactCoefficient * sigma * basisPoints * root.sqrt (aum' * turnover / adv)) *
          turnover * 252 / basisPoints := by
    gcongr
  unfold netAlpha
  linarith

/-- Costs only take from the gross alpha. -/
theorem netAlpha_le_gross (hadv : 0 < adv) (hsigma : 0 < sigma) (hturnover : 0 < turnover) {aum : K}
    (haum : 0 < aum) : netAlpha root config gross adv sigma turnover aum ≤ gross := by
  have hroot := root.pos (aum * turnover / adv) (by positivity)
  have hscale : (0 : K) < basisPoints := basisPoints_pos
  have hbps := config.bps_nonneg
  have hcoefficient := config.impact_nonneg
  have hcost : 0 ≤ (config.bpsPerTrade +
      config.impactCoefficient * sigma * basisPoints * root.sqrt (aum * turnover / adv)) *
        turnover * 252 / basisPoints := by
    positivity
  unfold netAlpha
  linarith

/-! ## The break-even -/

theorem searchLow_pos : (0 : K) < searchLow := by
  unfold searchLow
  positivity

theorem searchLow_le_searchHigh : (searchLow : K) ≤ searchHigh := by
  unfold searchLow searchHigh
  norm_num

theorem searchTolerance_pos : (0 : K) < searchTolerance := by
  unfold searchTolerance
  positivity

theorem computeBreakevenAum_eq_some (hadv : 0 < adv) (hsigma : 0 < sigma) (hturnover : 0 < turnover)
    {size : K} :
    computeBreakevenAum root (some gross) (some adv) (some sigma) (some turnover) config =
        some size ↔
      Bracket (netAlpha root config gross adv sigma turnover) searchLow searchHigh ∧
        bisect (netAlpha root config gross adv sigma turnover) searchTolerance maxIterations
          searchLow searchHigh = size := by
  unfold computeBreakevenAum
  rw [positive_of_pos hadv, positive_of_pos hsigma, positive_of_pos hturnover]
  rcases le_or_gt gross 0 with hgross | hgross
  · rw [positive_of_nonpos hgross]
    simp only [Option.bind_none]
    constructor
    · intro h
      cases h
    · rintro ⟨hbracket, -⟩
      have hle : netAlpha root config gross adv sigma turnover searchLow ≤ gross :=
        netAlpha_le_gross hadv hsigma hturnover searchLow_pos
      exact absurd (hbracket.low_pos.trans_le (hle.trans hgross)) (lt_irrefl 0)
  · rw [positive_of_pos hgross]
    simp only [Option.bind_some]
    split_ifs with hlow hhigh
    · simp only [false_iff, not_and]
      intro hbracket
      exact absurd hbracket.low_pos (not_lt.mpr hlow)
    · simp only [false_iff, not_and]
      intro hbracket
      exact absurd hhigh (not_lt.mpr hbracket.high_nonpos)
    · have hbracket :
          Bracket (netAlpha root config gross adv sigma turnover) searchLow searchHigh :=
        ⟨not_le.mp hlow, not_lt.mp hhigh⟩
      simp [hbracket]

/-- What the search returns is always a zero as far as it was refined. -/
theorem foundZero_bisect {net : K → K} (h : Bracket net searchLow searchHigh) :
    FoundZero net (bisect net searchTolerance maxIterations searchLow searchHigh) := by
  rcases bisect_spec h with hclose | ⟨low, high, hmid, hbracket, hwidth⟩
  · exact Or.inl hclose
  · right
    refine ⟨low, high, hmid, hbracket, ?_⟩
    have hlow : (0 : K) < searchLow := searchLow_pos
    rw [hwidth]
    push_cast
    gcongr
    linarith

/-! ## The analysis as a whole -/

theorem tradeWeighted_pos {column : LiquidityRow K → Cell K} {trades : List (LiquidityRow K)}
    {x : K} (h : tradeWeighted column trades = some x) : 0 < x := by
  simp only [tradeWeighted] at h
  split_ifs at h with hnone hweighted
  · obtain rfl := Option.some.inj h
    push Not at hnone
    exact div_pos hweighted hnone.2

/-- With all quantities there, the constraints are computed from them. -/
theorem Available.constraints [LinearOrder ι] [LinearOrder δ] {power : K → K → K}
    {dailyWeights : List (WeightRow ι δ K)} {trades : List (LiquidityRow K)}
    {costSummary : CostSummary K}
    (h : Available (computeCapacityAnalysis root power dailyWeights trades costSummary config)
      gross adv sigma turnover) :
    let breakevenAum := computeBreakevenAum root (some gross) (some adv) (some sigma)
      (some turnover) config
    0 < adv ∧ 0 < sigma ∧
      (computeCapacityAnalysis root power dailyWeights trades costSummary config).breakevenAum =
        breakevenAum ∧
      (computeCapacityAnalysis root power dailyWeights trades costSummary
          config).impliedMaxCapacity =
        ((validConstraints
          (computeImpactAum 5 (some adv) (some sigma) (some turnover) config)
          (computeParticipationAum (some adv) (some turnover) config.participationLimit)
          breakevenAum).argmin Prod.fst).map Prod.fst := by
  obtain ⟨hgross, hadv, hsigma, hturnover⟩ := h
  unfold computeCapacityAnalysis at *
  cases haverage : averageTurnover dailyWeights with
  | none => simp [haverage] at hturnover
  | some average =>
    simp only [haverage] at hgross hadv hsigma hturnover ⊢
    obtain rfl := Option.some.inj hturnover
    rw [hgross, hadv, hsigma]
    exact ⟨tradeWeighted_pos hadv, tradeWeighted_pos hsigma, rfl, rfl⟩

/-- A change of sign is a tolerated size if the search resolves it. -/
theorem tolerated_bisect_iff {net : K → K} (hnet : Antitone net)
    (h : Bracket net searchLow searchHigh) :
    Tolerated net (bisect net searchTolerance maxIterations searchLow searchHigh) ↔
      ∃ k < 2 ^ maxIterations,
        ResolvedCell net searchTolerance searchLow searchHigh maxIterations k := by
  rw [← bisect_resolved_iff hnet searchLow_le_searchHigh searchTolerance_pos h, Tolerated,
    or_iff_right]
  exact not_lt.mpr (le_bisect searchLow_le_searchHigh)

theorem exists_tolerated_constraint_iff (hadv : 0 < adv) (hsigma : 0 < sigma)
    (hturnover : 0 < turnover) :
    (∃ c ∈ validConstraints (computeImpactAum 5 (some adv) (some sigma) (some turnover) config)
        (computeParticipationAum (some adv) (some turnover) config.participationLimit)
        (computeBreakevenAum root (some gross) (some adv) (some sigma) (some turnover) config),
      Tolerated (netAlpha root config gross adv sigma turnover) c.1) ↔
    SomeSizeTolerated config (netAlpha root config gross adv sigma turnover)
      adv sigma turnover := by
  have hnet : Antitone (netAlpha root config gross adv sigma turnover) :=
    netAlpha_antitone hadv hsigma hturnover.le
  have himpact : ∀ size, computeImpactAum 5 (some adv) (some sigma) (some turnover) config =
      some size ↔ 0 < config.impactCoefficient ∧ impactSize config 5 adv sigma turnover = size := by
    simp [computeImpactAum, positive_of_pos hadv, positive_of_pos hsigma, positive_of_pos hturnover]
  have hparticipation : ∀ size, computeParticipationAum (some adv) (some turnover)
      config.participationLimit = some size ↔
        participationSize config.participationLimit adv turnover = size := by
    simp [computeParticipationAum, positive_of_pos hadv, positive_of_pos hturnover]
  rw [exists_mem_validConstraints]
  simp only [himpact, hparticipation, computeBreakevenAum_eq_some hadv hsigma hturnover,
    SomeSizeTolerated, not_le.mpr hturnover, false_or]
  constructor
  · rintro (⟨_, ⟨hcoefficient, rfl⟩, h⟩ | ⟨_, rfl, h⟩ | ⟨_, ⟨hbracket, rfl⟩, h⟩)
    · exact Or.inl ⟨hcoefficient, h⟩
    · exact Or.inr (Or.inl h)
    · exact Or.inr (Or.inr ⟨hbracket, (tolerated_bisect_iff hnet hbracket).mp h⟩)
  · rintro (⟨hcoefficient, h⟩ | h | ⟨hbracket, h⟩)
    · exact Or.inl ⟨_, ⟨hcoefficient, rfl⟩, h⟩
    · exact Or.inr (Or.inl ⟨_, rfl, h⟩)
    · exact Or.inr (Or.inr ⟨_, ⟨hbracket, rfl⟩, (tolerated_bisect_iff hnet hbracket).mpr h⟩)

/-- The analysis is sound where one of the sizes it takes the minimum of is tolerated. -/
theorem capacitySound_iff [LinearOrder ι] [LinearOrder δ] (root : SquareRoot K) (power : K → K → K)
    (dailyWeights : List (WeightRow ι δ K)) (trades : List (LiquidityRow K))
    (costSummary : CostSummary K) (config : CostModelConfig K) :
    CapacitySound root config
        (computeCapacityAnalysis root power dailyWeights trades costSummary config) ↔
      ∀ gross adv sigma turnover,
        Available (computeCapacityAnalysis root power dailyWeights trades costSummary config)
          gross adv sigma turnover →
        SomeSizeTolerated config (netAlpha root config gross adv sigma turnover)
          adv sigma turnover := by
  refine forall₄_congr fun gross adv sigma turnover => forall_congr' fun havailable => ?_
  obtain ⟨hadv, hsigma, hbreakeven, himplied⟩ := havailable.constraints
  rw [hbreakeven, himplied]
  rcases le_or_gt turnover 0 with hturnover | hturnover
  · have hnone := positive_of_nonpos hturnover
    simp [SomeSizeTolerated, hturnover, computeBreakevenAum, computeImpactAum,
      computeParticipationAum, validConstraints, hnone]
  · have hnet : Antitone (netAlpha root config gross adv sigma turnover) :=
      netAlpha_antitone hadv hsigma hturnover.le
    have hfound : ∀ size, computeBreakevenAum root (some gross) (some adv) (some sigma)
        (some turnover) config = some size →
          FoundZero (netAlpha root config gross adv sigma turnover) size := by
      intro size hsize
      obtain ⟨hbracket, rfl⟩ := (computeBreakevenAum_eq_some hadv hsigma hturnover).mp hsize
      exact foundZero_bisect hbracket
    rw [and_iff_left hfound, ← exists_tolerated_constraint_iff hadv hsigma hturnover]
    generalize hlist : validConstraints _ _ _ = constraints
    cases hbinding : constraints.argmin Prod.fst with
    | none =>
      rw [List.argmin_eq_none] at hbinding
      subst hbinding
      simp [validConstraints, computeParticipationAum, positive_of_pos hadv,
        positive_of_pos hturnover] at hlist
    | some binding =>
      simp [← tolerated_argmin_iff hnet hbinding, sustainedTo_iff hnet]

end Sizes

/-! ## A strategy that earns nothing -/

/-- The root of one ten-thousandth, taken for every positive number. -/
def hundredthRoot : SquareRoot ℚ where
  sqrt x := if x ≤ 0 then 0 else 1 / 100
  mono := by
    intro x y hle
    have hsign : y ≤ 0 → x ≤ 0 := hle.trans
    simp only
    split_ifs with hx hy
    · exact le_rfl
    · norm_num
    · exact absurd (hsign ‹y ≤ 0›) hx
    · exact le_rfl
  pos := by
    intro x hx
    rw [if_neg (not_le.mpr hx)]
    norm_num

/-- The defaults of the source. -/
def standardConfig : CostModelConfig ℚ where
  enabled := true
  bpsPerTrade := 5
  impactCoefficient := 1 / 10
  participationLimit := 1 / 20
  portfolioValueUsd := 1000000
  bps_nonneg := by norm_num
  impact_nonneg := by norm_num
  participation_pos := by norm_num
  participation_le_one := by norm_num
  portfolio_pos := by norm_num

def risingWeights : List (WeightRow ℕ ℕ ℚ) := [⟨1, 10, some (1 / 10)⟩, ⟨2, 10, some (1 / 5)⟩]

def liquidTrades : List (LiquidityRow ℚ) := [⟨100000, .num 10000000, .num (1 / 50)⟩]

def flatSummary : CostSummary ℚ :=
  ⟨.num 0, .num (-1 / 100), 1 / 100, 10000, 5000, 5000, 1, 1000, 0, 0, 0⟩

/-- Without a gross return there is no break-even, and the capacity is that of the participation
limit, five million at a loss. -/
theorem capacity_unsound_flat :
    ¬ CapacitySound hundredthRoot standardConfig
      (computeCapacityAnalysis hundredthRoot (fun base _ => base) risingWeights liquidTrades
        flatSummary standardConfig) := by
  intro hsound
  have havailable : Available (computeCapacityAnalysis hundredthRoot (fun base _ => base)
      risingWeights liquidTrades flatSummary standardConfig) 0 10000000 (1 / 50) (1 / 10) :=
    ⟨by decide +kernel, by decide +kernel, by decide +kernel, by decide +kernel⟩
  have hsustained := (hsound _ _ _ _ havailable).1 5000000 (by decide +kernel) 10000
    (by decide +kernel) (by decide +kernel)
  revert hsustained
  decide +kernel

def risingSummary : CostSummary ℚ := { flatSummary with totalGrossReturn := .num (1 / 100) }

/-- A gross return of one percent in two days pays for the participation limit. -/
theorem capacity_sound_rising :
    CapacitySound hundredthRoot standardConfig
      (computeCapacityAnalysis hundredthRoot (fun base _ => base ^ 126) risingWeights liquidTrades
        risingSummary standardConfig) := by
  refine (capacitySound_iff hundredthRoot (fun base _ => base ^ 126) risingWeights liquidTrades
    risingSummary standardConfig).mpr fun gross adv sigma turnover havailable => ?_
  obtain ⟨hgross, hadv, hsigma, hturnover⟩ := havailable
  obtain rfl : (101 / 100) ^ 126 - 1 = gross :=
    Option.some.inj (Eq.trans (by decide +kernel) hgross)
  obtain rfl : 10000000 = adv := Option.some.inj (Eq.trans (by decide +kernel) hadv)
  obtain rfl : 1 / 50 = sigma := Option.some.inj (Eq.trans (by decide +kernel) hsigma)
  obtain rfl : 1 / 10 = turnover := Option.some.inj (Eq.trans (by decide +kernel) hturnover)
  exact Or.inr (Or.inr (Or.inl (Or.inr (by decide +kernel))))

end TradingPlatform.Backtest
