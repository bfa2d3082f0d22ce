import Mathlib.Algebra.BigOperators.Group.List.Basic
import Mathlib.Algebra.Order.Field.Basic
import Mathlib.Data.List.ProdSigma
import Mathlib.Data.Prod.Lex
import Mathlib.Tactic.Positivity
import TradingPlatform.Base.Cells
import TradingPlatform.Base.Frames
import TradingPlatform.Base.GroupedSums

/-! # The transaction cost model

Costs are a fixed rate on the traded value and a market impact that grows with the square root of
the share in the daily volume. Trades are the weight changes over the grid of all dates and all
identifiers, so that an identifier that disappears is sold.
-/

namespace TradingPlatform.Backtest

open Base

/-! ## Configuration -/

structure CostModelConfig (K : Type*) [Field K] [LinearOrder K] where
  enabled : Bool
  bpsPerTrade : K
  impactCoefficient : K
  participationLimit : K
  portfolioValueUsd : K
  bps_nonneg : 0 ≤ bpsPerTrade
  impact_nonneg : 0 ≤ impactCoefficient
  participation_pos : 0 < participationLimit
  participation_le_one : participationLimit ≤ 1
  portfolio_pos : 0 < portfolioValueUsd

/-- A square root that is monotone and positive on the positive numbers. -/
structure SquareRoot (K : Type*) [Field K] [LinearOrder K] where
  sqrt : K → K
  mono : Monotone sqrt
  pos : ∀ x, 0 < x → 0 < sqrt x

variable {ι δ K : Type*}

/-! ## The cost of one trade -/

section Costs

variable [Field K] [LinearOrder K]

/-- Basis points in one. -/
def basisPoints : K := 10000

theorem basisPoints_pos [IsStrictOrderedRing K] : (0 : K) < basisPoints := by
  unfold basisPoints
  positivity

def advFloorUsd : K := 100000

def volFloor : K := 1 / 100

/-- The value that a trade has to exceed. -/
def minTradeUsd : K := 1 / 100

structure TradeCost (δ K : Type*) where
  identifier : String
  tradeDate : δ
  tradeValueUsd : K
  commissionSpreadCost : K
  marketImpactCost : K
  totalCostUsd : K
  totalCostBps : K
  advUsd : Cell K
  volatility : Cell K
  participationPct : Option K
  deriving DecidableEq

def computeMarketImpact (root : SquareRoot K) (tradeValueUsd : K) (advUsd volatility : Cell K)
    (impactCoefficient : K) : K :=
  if advUsd.unusable then 0
  else if volatility.unusable then 0
  else if tradeValueUsd ≤ 0 then 0
  else
    let participation := tradeValueUsd / advUsd.value.getD 0
    impactCoefficient * volatility.value.getD 0 * basisPoints * root.sqrt participation

def computeTradeCost (root : SquareRoot K) (identifier : String) (tradeDate : δ)
    (tradeValueUsd : K) (advUsd volatility : Cell K) (config : CostModelConfig K) :
    TradeCost δ K :=
  let commissionSpreadCost := config.bpsPerTrade * tradeValueUsd / basisPoints
  let impactBps := computeMarketImpact root tradeValueUsd advUsd volatility config.impactCoefficient
  let marketImpactCost := impactBps * tradeValueUsd / basisPoints
  let totalCostUsd := commissionSpreadCost + marketImpactCost
  { identifier, tradeDate, tradeValueUsd, commissionSpreadCost, marketImpactCost, totalCostUsd,
    totalCostBps := if 0 < tradeValueUsd then totalCostUsd / tradeValueUsd * basisPoints else 0
    advUsd, volatility
    participationPct :=
      if advUsd.unusable then none else some (tradeValueUsd / advUsd.value.getD 0) }

def applyAdvFallback (advRaw : Cell K) : Cell K × Bool :=
  if advRaw.unusable then (.num advFloorUsd, true) else (advRaw, false)

def applyVolatilityFallback (volRaw : Cell K) : Cell K × Bool :=
  if volRaw.unusable then (.num volFloor, true) else (volRaw, false)

end Costs

/-! ## The grid of dates and identifiers -/

structure WeightRow (ι δ K : Type*) where
  date : δ
  identifier : ι
  weight : Option K
  deriving DecidableEq, Repr

/-- The order of `sort([identifier, "date"])`. -/
def byIdentifier (k : δ × ι) : ι ×ₗ δ := toLex (k.2, k.1)

def rowKey (r : WeightRow ι δ K) : ι ×ₗ δ := byIdentifier (r.date, r.identifier)

theorem byIdentifier_injective : Function.Injective (byIdentifier (ι := ι) (δ := δ)) := by
  rintro ⟨d, i⟩ ⟨d', i'⟩ h
  simpa [byIdentifier, and_comm] using h

section Dates

variable [LinearOrder δ] {dailyWeights : List (WeightRow ι δ K)} {d : δ}

/-- `select("date").unique().sort("date")` -/
def uniqueDates (dailyWeights : List (WeightRow ι δ K)) : List δ :=
  sortByKey id ((dailyWeights.map WeightRow.date).dedup)

/-- The last of the frame's dates before `d`. -/
def previousDate (dailyWeights : List (WeightRow ι δ K)) (d : δ) : Option δ :=
  ((uniqueDates dailyWeights).filter fun d' => d' < d).getLast?

theorem mem_uniqueDates : d ∈ uniqueDates dailyWeights ↔ ∃ r ∈ dailyWeights, r.date = d := by
  rw [uniqueDates, mem_sortByKey, List.mem_dedup, List.mem_map]

theorem uniqueDates_sorted (dailyWeights : List (WeightRow ι δ K)) :
    (uniqueDates dailyWeights).Pairwise fun d d' => d < d' := by
  have hnodup : ((dailyWeights.map WeightRow.date).dedup.map id).Nodup := by
    rw [List.map_id]
    exact List.nodup_dedup _
  exact strictly_sortByKey hnodup

theorem previousDate_eq_some {d' : δ} :
    previousDate dailyWeights d = some d' ↔
      d' ∈ uniqueDates dailyWeights ∧ d' < d ∧
        ∀ d'' ∈ uniqueDates dailyWeights, d'' < d → d'' ≤ d' := by
  have hsorted : (uniqueDates dailyWeights).Pairwise fun r s => id r < id s :=
    uniqueDates_sorted dailyWeights
  have hlast := getLast?_filter_iff (p := fun d' : δ => decide (d' < d)) (r := d') hsorted
  simpa [previousDate] using hlast

end Dates

section Grid

variable [LinearOrder ι] [LinearOrder δ] {dailyWeights : List (WeightRow ι δ K)} {i : ι} {d d' : δ}

def uniqueIdentifiers (dailyWeights : List (WeightRow ι δ K)) : List ι :=
  (dailyWeights.map WeightRow.identifier).dedup

def fullGrid (dailyWeights : List (WeightRow ι δ K)) : List (δ × ι) :=
  (uniqueDates dailyWeights).product (uniqueIdentifiers dailyWeights)

theorem byIdentifier_lt : byIdentifier (d', i) < byIdentifier (d, i) ↔ d' < d := by
  simp [byIdentifier, Prod.Lex.toLex_lt_toLex]

theorem byIdentifier_le : byIdentifier (d', i) ≤ byIdentifier (d, i) ↔ d' ≤ d := by
  simp [byIdentifier, Prod.Lex.toLex_le_toLex]

theorem mem_fullGrid : (d, i) ∈ fullGrid dailyWeights ↔
    d ∈ uniqueDates dailyWeights ∧ i ∈ uniqueIdentifiers dailyWeights :=
  List.mem_product

theorem nodup_fullGrid (dailyWeights : List (WeightRow ι δ K)) :
    ((fullGrid dailyWeights).map byIdentifier).Nodup := by
  have hdates : (uniqueDates dailyWeights).Nodup := (uniqueDates_sorted dailyWeights).imp ne_of_lt
  have hidentifiers : (uniqueIdentifiers dailyWeights).Nodup := List.nodup_dedup _
  exact (hdates.product hidentifiers).map byIdentifier_injective

end Grid

/-! ## Weight changes -/

section Changes

variable [LinearOrder ι] [LinearOrder δ] [Field K] {dailyWeights : List (WeightRow ι δ K)}
variable {i : ι} {d : δ}

structure WeightChange (ι δ K : Type*) where
  date : δ
  identifier : ι
  weight : K
  change : K
  deriving DecidableEq, Repr

/-- The grid with the weights, and zero for those that are absent or null. -/
def filledWeights (dailyWeights : List (WeightRow ι δ K)) : List ((δ × ι) × K) :=
  sortByKey (fun p => byIdentifier p.1)
    (leftJoin byIdentifier rowKey (fun r : WeightRow ι δ K => r.weight.getD 0) 0
      (fullGrid dailyWeights) dailyWeights)

/-- The weight less the one of the row before, from no weight on. -/
def weightChanges (dailyWeights : List (WeightRow ι δ K)) : List (WeightChange ι δ K) :=
  (overKey (fun p : (δ × ι) × K => p.1.2)
      (fun group => shift none (group.map fun p => some p.2)) (filledWeights dailyWeights)).map
    fun q => ⟨q.1.1.1, q.1.1.2, q.1.2, q.1.2 - (q.2.bind id).getD 0⟩

/-- The weight in the frame, zero where there is none. -/
def weightOn (dailyWeights : List (WeightRow ι δ K)) (i : ι) (d : δ) : K :=
  (withKey rowKey dailyWeights (byIdentifier (d, i))).head?.elim 0 fun r => r.weight.getD 0

def previousWeight (dailyWeights : List (WeightRow ι δ K)) (i : ι) (d : δ) : K :=
  (previousDate dailyWeights d).elim 0 (weightOn dailyWeights i)

/-- With one row for each key, the grid holds the weight of each key. -/
theorem filledWeights_eq (hunique : (dailyWeights.map rowKey).Nodup) :
    filledWeights dailyWeights =
      (sortByKey byIdentifier (fullGrid dailyWeights)).map
        fun k => (k, weightOn dailyWeights k.2 k.1) := by
  unfold filledWeights
  rw [leftJoin_eq_map fun k _ => length_withKey_le_one hunique (byIdentifier k)]
  exact (map_sortByKey (fun _ => rfl) _).symm

theorem filledWeights_sorted (hunique : (dailyWeights.map rowKey).Nodup) :
    (filledWeights dailyWeights).Pairwise fun p q => byIdentifier p.1 < byIdentifier q.1 := by
  rw [filledWeights_eq hunique, List.pairwise_map]
  exact strictly_sortByKey (nodup_fullGrid dailyWeights)

theorem mem_filledWeights (hunique : (dailyWeights.map rowKey).Nodup) {p : (δ × ι) × K} :
    p ∈ filledWeights dailyWeights ↔
      p.1 ∈ fullGrid dailyWeights ∧ p.2 = weightOn dailyWeights p.1.2 p.1.1 := by
  rw [filledWeights_eq hunique, List.mem_map]
  constructor
  · rintro ⟨k, hk, rfl⟩
    exact ⟨mem_sortByKey.mp hk, rfl⟩
  · rintro ⟨hk, hweight⟩
    exact ⟨p.1, mem_sortByKey.mpr hk, Prod.ext rfl hweight.symm⟩

/-- The row before in the group of the identifier is that of the previous date. -/
theorem rowBefore_eq (hunique : (dailyWeights.map rowKey).Nodup)
    (hi : i ∈ uniqueIdentifiers dailyWeights) :
    ((filledWeights dailyWeights).filter fun q =>
        q.1.2 = i ∧ byIdentifier q.1 < byIdentifier (d, i)).getLast? =
      (previousDate dailyWeights d).map fun d' => ((d', i), weightOn dailyWeights i d') := by
  apply Option.ext
  rintro ⟨⟨d', i'⟩, w⟩
  rw [getLast?_filter_iff (filledWeights_sorted hunique), mem_filledWeights hunique, mem_fullGrid,
    Option.map_eq_some_iff]
  simp only [decide_eq_true_eq]
  constructor
  · rintro ⟨⟨⟨hdate, -⟩, hweight⟩, ⟨rfl, hlt⟩, hlast⟩
    refine ⟨d', previousDate_eq_some.mpr ⟨hdate, byIdentifier_lt.mp hlt, ?_⟩, ?_⟩
    · intro d'' hdate'' hlt''
      have hle := hlast ((d'', i'), weightOn dailyWeights i' d'')
        ((mem_filledWeights hunique).mpr ⟨mem_fullGrid.mpr ⟨hdate'', hi⟩, rfl⟩)
        ⟨rfl, byIdentifier_lt.mpr hlt''⟩
      exact byIdentifier_le.mp hle
    · rw [hweight]
  · rintro ⟨d'', hprevious, heq⟩
    obtain ⟨hdate, hlt, hlast⟩ := previousDate_eq_some.mp hprevious
    simp only [Prod.mk.injEq] at heq
    obtain ⟨⟨rfl, rfl⟩, rfl⟩ := heq
    refine ⟨⟨⟨hdate, hi⟩, rfl⟩, ⟨rfl, byIdentifier_lt.mpr hlt⟩, ?_⟩
    rintro ⟨⟨e, j⟩, v⟩ he ⟨hj, hbefore⟩
    obtain rfl : j = i := hj
    obtain ⟨hgrid, -⟩ := (mem_filledWeights hunique).mp he
    exact byIdentifier_le.mpr
      (hlast e (mem_fullGrid.mp hgrid).1 (byIdentifier_lt.mp hbefore))

/-- A change is the weight less the weight on the previous date of the frame. -/
theorem weightChanges_eq (hunique : (dailyWeights.map rowKey).Nodup) :
    weightChanges dailyWeights =
      (sortByKey byIdentifier (fullGrid dailyWeights)).map fun k =>
        ⟨k.1, k.2, weightOn dailyWeights k.2 k.1,
          weightOn dailyWeights k.2 k.1 - previousWeight dailyWeights k.2 k.1⟩ := by
  unfold weightChanges
  rw [overKey_shift (filledWeights_sorted hunique), List.map_map, filledWeights_eq hunique,
    List.map_map, ← filledWeights_eq hunique]
  apply List.map_congr_left
  rintro ⟨d, i⟩ hk
  have hi := (mem_fullGrid.mp (mem_sortByKey.mp hk)).2
  have hbefore := rowBefore_eq (d := d) hunique hi
  simp only [Function.comp_apply, hbefore, previousWeight]
  cases previousDate dailyWeights d <;> rfl

end Changes

end TradingPlatform.Backtest
