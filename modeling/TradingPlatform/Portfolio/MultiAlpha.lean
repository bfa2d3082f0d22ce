import TradingPlatform.Base.GroupedSums
import TradingPlatform.Base.Table
import Mathlib.Algebra.Order.Field.Rat
import Mathlib.Algebra.Order.Floor.Semiring
import Mathlib.Data.Rat.Floor

/-! # Capital allocation across strategies

The weights of the strategies are combined by one of three methods; each strategy
is then capped, what the caps leave over is given to strategies below their cap,
and the sum is normalised. Weights are exact. Where the source groups by a column
the groups come in an order that nothing depends on.
-/

namespace TradingPlatform.Portfolio

open Base

/-- A row of the frame of a strategy. -/
structure Signal where
  symbol : String
  score : ℚ
  weight : ℚ
  deriving DecidableEq, Repr

structure Strategy where
  strategyId : String
  rows : List Signal
  deriving DecidableEq, Repr

/-- The entry of a strategy in `strategy_stats`, which may lack `vol`. -/
structure StrategyStats where
  strategyId : String
  vol : Option ℚ
  deriving DecidableEq, Repr

abbrev Signals := Table String Strategy Strategy.strategyId
abbrev Stats := Table String StrategyStats StrategyStats.strategyId

inductive AllocMethod where
  | rankAggregation | inverseVol | equalWeight
  deriving DecidableEq, Repr

structure MultiAlphaAllocator where
  method : AllocMethod
  perStrategyMax : ℚ
  allowShortPositions : Bool
  perStrategyMax_mem : 0 ≤ perStrategyMax ∧ perStrategyMax ≤ 1

/-- What one strategy contributes to one symbol. -/
structure Contribution where
  symbol : String
  strategyId : String
  weight : ℚ
  deriving DecidableEq, Repr

structure SymbolWeight where
  symbol : String
  finalWeight : ℚ
  contributingStrategies : List String
  deriving DecidableEq, Repr

inductive AllocationError where
  | value (message : String)
  | invalidVolatility (strategyId : String) (vol : ℚ)
  deriving DecidableEq, Repr

def tolerance : ℚ := 1 / 10 ^ 9
def redistributeTol : ℚ := 1 / 10 ^ 12

def Contribution.scale (c : Contribution) (factor : ℚ) : Contribution :=
  { c with weight := c.weight * factor }

/-- `pl.col(...).sum()` over the rows of one strategy. -/
def netOf (rows : List Contribution) (strategyId : String) : ℚ :=
  groupSum Contribution.strategyId Contribution.weight rows strategyId

/-- `pl.col(...).abs().sum()` over the rows of one strategy. -/
def grossOf (rows : List Contribution) (strategyId : String) : ℚ :=
  groupSum Contribution.strategyId (fun c => |c.weight|) rows strategyId

/-! ## The methods -/

/-- `rank(method="dense", descending=True)` of the absolute scores. -/
def denseRank (rows : List Signal) (signal : Signal) : ℕ :=
  ((rows.map fun s => |s.score|).dedup.filter fun score => |signal.score| < score).length + 1

structure RankedSignal where
  symbol : String
  strategyId : String
  normalizedRank : ℚ
  weightSign : ℚ
  deriving DecidableEq, Repr

def Strategy.ranked (strategy : Strategy) : List RankedSignal :=
  strategy.rows.map fun s =>
    ⟨s.symbol, strategy.strategyId, 1 / (denseRank strategy.rows s : ℚ),
      if 0 ≤ s.weight then 1 else -1⟩

/-- `total_rank` -/
def totalRank (allRanks : List RankedSignal) (strategyId : String) : ℚ :=
  groupSum RankedSignal.strategyId RankedSignal.normalizedRank allRanks strategyId

def RankedSignal.contribution (allRanks : List RankedSignal) (r : RankedSignal) : Contribution :=
  ⟨r.symbol, r.strategyId, r.normalizedRank / totalRank allRanks r.strategyId * r.weightSign⟩

/-- The contributions of `_rank_aggregation`. -/
def rankContributions (signals : Signals) : List Contribution :=
  let allRanks := signals.rows.flatMap Strategy.ranked
  allRanks.map (RankedSignal.contribution allRanks)

def Strategy.contributions (strategy : Strategy) : List Contribution :=
  strategy.rows.map fun s => ⟨s.symbol, strategy.strategyId, s.weight⟩

def normalizer (rows : List Contribution) (strategyId : String) : ℚ :=
  if grossOf rows strategyId < tolerance then 1
  else if |netOf rows strategyId| < tolerance then grossOf rows strategyId
  else netOf rows strategyId

/-- The contributions of `_equal_weight`. -/
def equalContributions (signals : Signals) : List Contribution :=
  let allSignals := signals.rows.flatMap Strategy.contributions
  allSignals.map fun c => { c with weight := c.weight / normalizer allSignals c.strategyId }

def validateVol (stats : Stats) (strategy : Strategy) : Except AllocationError (Strategy × ℚ) :=
  match stats.find? strategy.strategyId with
  | none => .error (.value ("strategy_stats missing entry for '" ++ strategy.strategyId ++
      "' (required for inverse_vol)"))
  | some entry =>
      match entry.vol with
      | none => .error (.value ("strategy_stats['" ++ strategy.strategyId ++
          "'] missing 'vol' key (required for inverse_vol)"))
      | some vol =>
          if vol ≤ 0 then .error (.invalidVolatility strategy.strategyId vol)
          else .ok (strategy, vol)

/-- The contributions of `_inverse_vol`. -/
def inverseVolContributions (signals : Signals) (stats : Stats) :
    Except AllocationError (List Contribution) := do
  let strategyVols ← signals.rows.mapM (validateVol stats)
  let totalInvVol := (strategyVols.map fun s => 1 / s.2).sum
  return strategyVols.flatMap fun s =>
    s.1.contributions.map fun c => c.scale (1 / s.2 / totalInvVol)

namespace MultiAlphaAllocator

variable (allocator : MultiAlphaAllocator)

/-! ## The caps -/

def scaleFactor (rows : List Contribution) (strategyId : String) : ℚ :=
  if grossOf rows strategyId > allocator.perStrategyMax then
    allocator.perStrategyMax / grossOf rows strategyId
  else 1

/-- The contributions after the cap, before anything is redistributed. -/
def scaled (rows : List Contribution) : List Contribution :=
  rows.map fun c => c.scale (allocator.scaleFactor rows c.strategyId)

end MultiAlphaAllocator

/-- `strategy_rows` -/
structure StrategyRow where
  strategyId : String
  netTotal : ℚ
  grossTotal : ℚ
  scaleFactor : ℚ
  headroom : ℚ
  extra : ℚ
  originalNet : ℚ
  deriving DecidableEq, Repr

/-- What a row gets in a round. -/
def StrategyRow.allocation (row : StrategyRow) (remaining distributionBase : ℚ) : ℚ :=
  let allocation := min (remaining * (row.netTotal / distributionBase)) row.headroom
  if allocation ≤ redistributeTol then 0 else allocation

def StrategyRow.receive (row : StrategyRow) (perStrategyMax allocation : ℚ) : StrategyRow :=
  if allocation = 0 then row
  else
    { row with
      extra := row.extra + allocation
      netTotal := row.netTotal + allocation
      grossTotal := row.grossTotal + allocation
      headroom := max 0 (perStrategyMax - (row.grossTotal + allocation)) }

/-- The test that keeps a row in the loop. -/
def StrategyRow.hasRoom (row : StrategyRow) : Bool :=
  row.headroom > redistributeTol ∧ row.netTotal > redistributeTol

def StrategyRow.scaleUp (row : StrategyRow) : ℚ :=
  if row.extra > redistributeTol ∧ row.originalNet > redistributeTol then
    1 + row.extra / row.originalNet
  else 1

/-- The loop over the eligible rows, with the rows in the state that it leaves them in. -/
def redistribute (perStrategyMax : ℚ) : ℕ → ℚ → List StrategyRow → List StrategyRow
  | 0, _, eligible => eligible
  | rounds + 1, remaining, eligible =>
      if remaining ≤ redistributeTol ∨ eligible = [] then eligible
      else
        let distributionBase := (eligible.map StrategyRow.netTotal).sum
        if distributionBase ≤ redistributeTol then eligible
        else
          let allocatedThisRound :=
            (eligible.map fun row => row.allocation remaining distributionBase).sum
          let rows := eligible.map fun row =>
            row.receive perStrategyMax (row.allocation remaining distributionBase)
          if allocatedThisRound ≤ redistributeTol then rows
          else
            rows.filter (fun row => !row.hasRoom) ++
              redistribute perStrategyMax rounds (max 0 (remaining - allocatedThisRound))
                (rows.filter StrategyRow.hasRoom)

/-- Every round but the last one allocates more than the tolerance. -/
def maxRounds (remaining : ℚ) : ℕ := ⌊remaining / redistributeTol⌋₊ + 1

namespace MultiAlphaAllocator

variable (allocator : MultiAlphaAllocator)

def strategyRow (rows : List Contribution) (strategyId : String) : StrategyRow :=
  let net := netOf (allocator.scaled rows) strategyId
  let gross := grossOf (allocator.scaled rows) strategyId
  let factor := allocator.scaleFactor rows strategyId
  { strategyId
    netTotal := net
    grossTotal := gross
    scaleFactor := if factor = 0 then 1 else factor
    headroom := max 0 (allocator.perStrategyMax - gross)
    extra := 0
    originalNet := net }

def strategyRows (rows : List Contribution) : List StrategyRow :=
  (groupKeys Contribution.strategyId rows).map (allocator.strategyRow rows)

def remaining (rows : List Contribution) : ℚ :=
  max 0 (1 - ((allocator.strategyRows rows).map StrategyRow.netTotal).sum)

def eligible (rows : List Contribution) : List StrategyRow :=
  (allocator.strategyRows rows).filter fun row =>
    row.scaleFactor ≥ 1 - 1 / 10 ^ 9 ∧ row.hasRoom

/-- The rows that were eligible, after the redistribution. -/
def redistributed (rows : List Contribution) : List StrategyRow :=
  redistribute allocator.perStrategyMax (maxRounds (allocator.remaining rows))
    (allocator.remaining rows) (allocator.eligible rows)

def scaleUp (rows : List Contribution) (strategyId : String) : ℚ :=
  if allocator.allowShortPositions ∨ allocator.remaining rows ≤ redistributeTol then 1
  else
    match (allocator.redistributed rows).find? fun row => row.strategyId = strategyId with
    | some row => row.scaleUp
    | none => 1

/-- `capped_contribution`, row by row. -/
def cappedContributions (rows : List Contribution) : List Contribution :=
  (allocator.scaled rows).map fun c => c.scale (allocator.scaleUp rows c.strategyId)

end MultiAlphaAllocator

def aggregate (rows : List Contribution) : List SymbolWeight :=
  ((groupKeys Contribution.symbol rows).map fun symbol =>
    ⟨symbol, groupSum Contribution.symbol Contribution.weight rows symbol,
      (rows.filter fun c => c.symbol = symbol).map Contribution.strategyId⟩).mergeSort
    fun v w => w.finalWeight ≤ v.finalWeight

/-! ## The normalisation -/

/-- What every weight is multiplied by. -/
def normalizationFactor (allowIncrease : Bool) (total totalAbs : ℚ) : ℚ :=
  if |total| < tolerance then
    if totalAbs < tolerance then 0
    else if allowIncrease = false ∧ totalAbs ≤ 1 + tolerance then 1
    else 1 / totalAbs
  else if allowIncrease = false ∧ total > 0 ∧ total ≤ 1 + tolerance then
    if |total - 1| ≤ tolerance then 1 / total else 1
  else if allowIncrease = false ∧ total < 0 ∧ |total| ≤ 1 + tolerance then
    if |(|total|) - 1| ≤ tolerance then 1 / |total| else 1
  else 1 / |total|

def netExposure (weights : List SymbolWeight) : ℚ := (weights.map SymbolWeight.finalWeight).sum

def grossExposure (weights : List SymbolWeight) : ℚ := (weights.map fun w => |w.finalWeight|).sum

def factorOf (weights : List SymbolWeight) (allowIncrease : Bool) : ℚ :=
  normalizationFactor allowIncrease (netExposure weights) (grossExposure weights)

namespace MultiAlphaAllocator

variable (allocator : MultiAlphaAllocator)

def safeNormalizeWeights (weights : List SymbolWeight) (allowIncrease : Bool) :
    Except AllocationError (List SymbolWeight) :=
  if allocator.allowShortPositions = false ∧ ∃ w ∈ weights, w.finalWeight < -tolerance then
    .error (.value ("Negative weights detected but allow_short_positions=False. " ++
      "Set allow_short_positions=True to enable market-neutral portfolios."))
  else
    .ok (weights.map fun w =>
      { w with finalWeight := w.finalWeight * factorOf weights allowIncrease })

/-- The end of every method. -/
def finish (rows : List Contribution) : Except AllocationError (List SymbolWeight) :=
  if rows = [] then .ok []
  else allocator.safeNormalizeWeights (aggregate (allocator.cappedContributions rows)) false

def rankAggregation (signals : Signals) : Except AllocationError (List SymbolWeight) :=
  allocator.finish (rankContributions signals)

def inverseVol (signals : Signals) (stats : Stats) : Except AllocationError (List SymbolWeight) :=
  inverseVolContributions signals stats >>= allocator.finish

def equalWeight (signals : Signals) : Except AllocationError (List SymbolWeight) :=
  allocator.finish (equalContributions signals)

def allocate (signals : Signals) (strategyStats : Option Stats) :
    Except AllocationError (List SymbolWeight) :=
  match signals.rows, allocator.method, strategyStats with
  | [], _, _ => .error (.value "At least one strategy required (signals dict is empty)")
  | _, .inverseVol, none =>
      .error (.value "strategy_stats required for inverse_vol method but got None")
  | _, .inverseVol, some stats =>
      if stats.rows = [] then
        .error (.value "strategy_stats required for inverse_vol method but got empty dict")
      else allocator.inverseVol signals stats
  | [strategy], _, _ =>
      allocator.safeNormalizeWeights
        (strategy.rows.map fun s => ⟨s.symbol, s.weight, [strategy.strategyId]⟩) true
  | _, .rankAggregation, _ => allocator.rankAggregation signals
  | _, .equalWeight, _ => allocator.equalWeight signals

end MultiAlphaAllocator

end TradingPlatform.Portfolio
