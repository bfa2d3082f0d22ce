import TradingPlatform.Base.Fallible
import TradingPlatform.Portfolio.StrategyCaps

/-! # The direction of a strategy

What a strategy contributes to the final weights, next to the weights it gave. A
strategy is scaled as a whole, so that its direction is kept or turned for all
symbols at once: `_equal_weight` turns it where it divides by a negative sum.
-/

namespace TradingPlatform.Portfolio

open Base

/-- The weight that the strategy gave the symbol. -/
def Strategy.given (strategy : Strategy) (symbol : String) : ℚ :=
  groupSum Signal.symbol Signal.weight strategy.rows symbol

def Strategy.net (strategy : Strategy) : ℚ := (strategy.rows.map Signal.weight).sum

def Strategy.gross (strategy : Strategy) : ℚ := (strategy.rows.map fun s => |s.weight|).sum

def Contribution.entry (c : Contribution) : String × String := (c.strategyId, c.symbol)

/-- What the strategy contributes to the symbol. -/
def contributed (contributions : List Contribution) (strategyId symbol : String) : ℚ :=
  groupSum Contribution.entry Contribution.weight contributions (strategyId, symbol)

/-- Each contribution is a non-negative multiple of the weight it comes from. -/
def KeepsDirection (signals : Signals) (contributions : List Contribution) : Prop :=
  ∀ strategy ∈ signals.rows, ∀ symbol, ∃ factor : ℚ, 0 ≤ factor ∧
    contributed contributions strategy.strategyId symbol = factor * strategy.given symbol

/-- What no strategy is long does not end long. -/
def KeepsShorts (signals : Signals) (result : List SymbolWeight) : Prop :=
  ∀ w ∈ result, (∀ strategy ∈ signals.rows, strategy.given w.symbol ≤ 0) → w.finalWeight ≤ 0

/-! ## Contributions of one strategy -/

theorem contributed_scale (rows : List Contribution) (factor : String → ℚ)
    (strategyId symbol : String) :
    contributed (rows.map fun c => c.scale (factor c.strategyId)) strategyId symbol =
      contributed rows strategyId symbol * factor strategyId := by
  have hentry : ∀ c : Contribution,
      (c.scale (factor c.strategyId)).entry = c.entry := fun _ => rfl
  rw [contributed, groupSum_map hentry]
  exact groupSum_mul (c := fun entry : String × String => factor entry.1) (strategyId, symbol)

variable {signals : Signals} {strategy : Strategy}

theorem contributed_own (strategy : Strategy) (symbol : String) :
    contributed strategy.contributions strategy.strategyId symbol = strategy.given symbol := by
  rw [contributed, Strategy.contributions, Strategy.given, groupSum, groupSum, List.filter_map,
    List.map_map]
  simp [Contribution.entry, Function.comp_def]

/-- Nobody else has contributions under the name of the strategy. -/
theorem entry_ne_of_other {other : Strategy} (hne : other.strategyId ≠ strategy.strategyId)
    (symbol : String) : ∀ c ∈ other.contributions, c.entry ≠ (strategy.strategyId, symbol) := by
  intro c hc
  obtain ⟨s, -, rfl⟩ := List.mem_map.mp hc
  simp [Contribution.entry, hne]

theorem contributed_contributions (hmem : strategy ∈ signals.rows) (symbol : String) :
    contributed (signals.rows.flatMap Strategy.contributions) strategy.strategyId symbol =
      strategy.given symbol := by
  rw [contributed, groupSum_flatMap signals.keys_nodup hmem]
  · exact contributed_own strategy symbol
  · exact fun other hne => entry_ne_of_other hne symbol

/-- Sums over the rows of one strategy. -/
theorem groupSum_contributions (hmem : strategy ∈ signals.rows) (f : ℚ → ℚ) :
    groupSum Contribution.strategyId (fun c => f c.weight)
        (signals.rows.flatMap Strategy.contributions) strategy.strategyId =
      (strategy.rows.map fun s => f s.weight).sum := by
  rw [groupSum_flatMap signals.keys_nodup hmem]
  · simp [Strategy.contributions, groupSum, List.filter_map, Function.comp_def]
  · intro other hne c hc
    obtain ⟨s, -, rfl⟩ := List.mem_map.mp hc
    exact hne

/-- The divisor of `_equal_weight`. -/
def Strategy.normalizer (strategy : Strategy) : ℚ :=
  if strategy.gross < tolerance then 1
  else if |strategy.net| < tolerance then strategy.gross
  else strategy.net

theorem normalizer_eq (hmem : strategy ∈ signals.rows) :
    normalizer (signals.rows.flatMap Strategy.contributions) strategy.strategyId =
      strategy.normalizer := by
  have hgross : grossOf (signals.rows.flatMap Strategy.contributions) strategy.strategyId =
      strategy.gross := groupSum_contributions hmem fun weight => |weight|
  have hnet : netOf (signals.rows.flatMap Strategy.contributions) strategy.strategyId =
      strategy.net := groupSum_contributions hmem fun weight => weight
  rw [Portfolio.normalizer, hgross, hnet]
  rfl

theorem normalizer_neg_iff (strategy : Strategy) :
    strategy.normalizer < 0 ↔ strategy.net ≤ -tolerance := by
  have htol := tolerance_pos
  have habs : |strategy.net| ≤ strategy.gross := abs_sum_map_le strategy.rows Signal.weight
  unfold Strategy.normalizer
  split
  · rename_i hzero
    have hlt := abs_lt.mp (lt_of_le_of_lt habs hzero)
    constructor <;> intro h <;> linarith
  · split
    · rename_i hsome hneutral
      have hlt := abs_lt.mp hneutral
      constructor <;> intro h <;> linarith
    · rename_i hsome hfar
      constructor
      · intro hneg
        rw [not_lt, abs_of_neg hneg] at hfar
        linarith
      · intro h
        linarith

theorem normalizer_pos (h : -tolerance < strategy.net) : 0 < strategy.normalizer := by
  have htol := tolerance_pos
  have hnonneg : 0 ≤ strategy.normalizer := by
    rw [← not_lt, normalizer_neg_iff, not_le]
    exact h
  apply lt_of_le_of_ne hnonneg
  unfold Strategy.normalizer
  split
  · exact zero_ne_one
  · split
    · linarith
    · rename_i hfar
      rintro heq
      rw [← heq, abs_zero] at hfar
      exact hfar htol

theorem equalContributions_eq (signals : Signals) :
    equalContributions signals = (signals.rows.flatMap Strategy.contributions).map fun c =>
      c.scale (1 / normalizer (signals.rows.flatMap Strategy.contributions) c.strategyId) := by
  unfold equalContributions
  apply List.map_congr_left
  intro c _
  simp [Contribution.scale, div_eq_mul_inv]

theorem contributed_equal (hmem : strategy ∈ signals.rows) (symbol : String) :
    contributed (equalContributions signals) strategy.strategyId symbol =
      strategy.given symbol * (1 / strategy.normalizer) := by
  rw [equalContributions_eq, contributed_scale _ fun id =>
    1 / normalizer (signals.rows.flatMap Strategy.contributions) id, normalizer_eq hmem,
    contributed_contributions hmem]

theorem validateVol_ok {stats : Stats} {validated : Strategy × ℚ}
    (h : validateVol stats strategy = .ok validated) :
    validated.1 = strategy ∧ 0 < validated.2 := by
  unfold validateVol at h
  split at h
  · cases h
  · split at h
    · cases h
    · split at h
      · cases h
      · rename_i hvol
        cases h
        exact ⟨rfl, not_le.mp hvol⟩

theorem mapM_validateVol {stats : Stats} {strategies : List Strategy}
    {strategyVols : List (Strategy × ℚ)}
    (h : strategies.mapM (validateVol stats) = .ok strategyVols) :
    strategyVols.map Prod.fst = strategies ∧ ∀ s ∈ strategyVols, 0 < s.2 := by
  have hrelated := mapM_ok h
  constructor
  · rw [map_eq_of_forall₂ hrelated fun _ _ hvalid => (validateVol_ok hvalid).1, List.map_id']
  · intro s hs
    obtain ⟨strategy, -, hvalid⟩ := exists_left_of_forall₂ hrelated hs
    exact (validateVol_ok hvalid).2

/-- The strategies with their share of the portfolio, which is not negative. -/
theorem contributed_inverseVol {stats : Stats} {rows : List Contribution}
    (h : inverseVolContributions signals stats = .ok rows) (hmem : strategy ∈ signals.rows) :
    ∃ share : ℚ, 0 ≤ share ∧ ∀ symbol,
      contributed rows strategy.strategyId symbol = strategy.given symbol * share := by
  unfold inverseVolContributions at h
  cases hvols : signals.rows.mapM (validateVol stats) with
  | error e =>
      rw [hvols] at h
      cases h
  | ok strategyVols =>
      rw [hvols] at h
      obtain ⟨hmap, hpos⟩ := mapM_validateVol hvols
      have htotal : 0 ≤ (strategyVols.map fun s => 1 / s.2).sum := by
        apply List.sum_nonneg
        intro x hx
        obtain ⟨s, hs, rfl⟩ := List.mem_map.mp hx
        exact (one_div_pos.mpr (hpos s hs)).le
      rw [← hmap] at hmem
      obtain ⟨s, hs, rfl⟩ := List.mem_map.mp hmem
      refine ⟨1 / s.2 / (strategyVols.map fun s => 1 / s.2).sum,
        div_nonneg (one_div_pos.mpr (hpos s hs)).le htotal, ?_⟩
      intro symbol
      cases h
      have hnodup : (strategyVols.map fun s => s.1.strategyId).Nodup := by
        have hkeys := signals.keys_nodup
        rwa [← hmap, List.map_map] at hkeys
      rw [contributed, groupSum_flatMap hnodup hs]
      · rw [← contributed_own s.1 symbol]
        exact contributed_scale s.1.contributions (fun _ => _) _ symbol
      · intro other hne c hc
        obtain ⟨c', hc', rfl⟩ := List.mem_map.mp hc
        exact entry_ne_of_other hne symbol c' hc'

/-! ## Final contributions -/

namespace MultiAlphaAllocator

variable {allocator : MultiAlphaAllocator} {rows : List Contribution} {result : List SymbolWeight}

/-- What the final contributions are of those that go into the caps. -/
def finalFactor (allocator : MultiAlphaAllocator) (rows : List Contribution) (strategyId : String) :
    ℚ :=
  allocator.scaleFactor rows strategyId *
    factorOf (aggregate (allocator.cappedContributions rows)) false

theorem capped_eq_scaled (hshort : allocator.allowShortPositions = true)
    (rows : List Contribution) : allocator.cappedContributions rows = allocator.scaled rows := by
  have hone : ∀ strategyId, allocator.scaleUp rows strategyId = 1 := by
    intro strategyId
    rw [scaleUp, if_pos (Or.inl hshort)]
  simp [cappedContributions, hone, Contribution.scale]

theorem contributed_final (hshort : allocator.allowShortPositions = true)
    (rows : List Contribution) (strategyId symbol : String) :
    contributed (allocator.finalContributions rows) strategyId symbol =
      contributed rows strategyId symbol * allocator.finalFactor rows strategyId := by
  rw [finalContributions, contributed_scale _ fun _ => _]
  rw [capped_eq_scaled hshort, scaled, contributed_scale, finalFactor, capped_eq_scaled hshort,
    mul_assoc]
  rfl

theorem factorOf_pos {weights : List SymbolWeight} (h : tolerance ≤ grossExposure weights) :
    0 < factorOf weights false := by
  have htol := tolerance_pos
  have hgross : 0 < grossExposure weights := htol.trans_le h
  unfold factorOf normalizationFactor
  split
  · rw [if_neg (not_lt.mpr h)]
    split
    · exact zero_lt_one
    · exact one_div_pos.mpr hgross
  · rename_i hnet
    have habs : 0 < |netExposure weights| := htol.trans_le (not_lt.mp hnet)
    split
    · rename_i hlong
      split
      · exact one_div_pos.mpr hlong.2.1
      · exact zero_lt_one
    · split
      · split
        · exact one_div_pos.mpr habs
        · exact zero_lt_one
      · exact one_div_pos.mpr habs

theorem factorOf_eq_zero {weights : List SymbolWeight} (h : grossExposure weights < tolerance) :
    factorOf weights false = 0 := by
  have hnet := (abs_netExposure_le weights).trans_lt h
  rw [factorOf, normalizationFactor, if_pos hnet, if_pos h]

theorem factorOf_nonneg (weights : List SymbolWeight) : 0 ≤ factorOf weights false :=
  (normalizationFactor_spec (abs_netExposure_le weights)).1

theorem finalFactor_nonneg (rows : List Contribution) (strategyId : String) :
    0 ≤ allocator.finalFactor rows strategyId :=
  mul_nonneg (allocator.scaleFactor_nonneg rows strategyId) (factorOf_nonneg _)

/-- The rows are those of the strategies. -/
def Owned (signals : Signals) (rows : List Contribution) : Prop :=
  ∀ c ∈ rows, c.strategyId ∈ signals.rows.map Strategy.strategyId

theorem Owned.final (h : Owned signals rows) :
    Owned signals (allocator.finalContributions rows) := by
  intro c hc
  obtain ⟨capped, hcapped, rfl⟩ := List.mem_map.mp hc
  obtain ⟨scaled, hscaled, rfl⟩ := List.mem_map.mp hcapped
  obtain ⟨row, hrow, rfl⟩ := List.mem_map.mp hscaled
  exact h row hrow

/-- The weight of a symbol is what the strategies contribute to it. -/
theorem sum_contributed (h : Owned signals rows) (symbol : String) :
    groupSum Contribution.symbol Contribution.weight rows symbol =
      (signals.rows.map fun strategy => contributed rows strategy.strategyId symbol).sum := by
  have hsplit := sum_groupSum (f := Contribution.weight) signals.keys_nodup
    fun c (hc : c ∈ rows.filter fun c => c.symbol = symbol) => h c (List.mem_of_mem_filter hc)
  rw [groupSum, ← hsplit, List.map_map]
  congr 1
  apply List.map_congr_left
  intro strategy _
  simp only [Function.comp_apply, groupSum, contributed, List.filter_filter]
  congr 2
  apply List.filter_congr
  intro c _
  simp [Contribution.entry]

theorem keepsShorts_of_keepsDirection (hshort : allocator.allowShortPositions = true)
    (howned : Owned signals rows) (hfinish : allocator.finish rows = .ok result)
    (hkeeps : KeepsDirection signals (allocator.finalContributions rows)) :
    KeepsShorts signals result := by
  intro w hw hgiven
  have hweights := (respects_finish (Or.inl hshort) hfinish).weights w hw
  rw [hweights, sum_contributed howned.final]
  apply (List.sum_le_card_nsmul _ 0 ?_).trans_eq (nsmul_zero _)
  intro x hx
  obtain ⟨strategy, hmem, rfl⟩ := List.mem_map.mp hx
  obtain ⟨factor, hfactor, hcontributed⟩ := hkeeps strategy hmem w.symbol
  rw [hcontributed]
  exact mul_nonpos_of_nonneg_of_nonpos hfactor (hgiven strategy hmem)

/-! ## The caps of `_equal_weight` -/

theorem grossOf_scale_abs (rows : List Contribution) (factor : String → ℚ) (strategyId : String) :
    grossOf (rows.map fun c => c.scale (factor c.strategyId)) strategyId =
      grossOf rows strategyId * |factor strategyId| := by
  rw [grossOf, groupSum_map fun c => scale_strategyId c (factor c.strategyId), grossOf,
    ← groupSum_mul (c := fun strategyId => |factor strategyId|)]
  simp only [Contribution.scale, abs_mul]

end MultiAlphaAllocator

/-- The gross exposure that the strategy goes into the caps with. -/
def Strategy.normalizedGross (strategy : Strategy) : ℚ :=
  strategy.gross * |1 / strategy.normalizer|

/-- What `_equal_weight` makes of a weight of the strategy before the last normalisation. -/
def Strategy.cappedShare (strategy : Strategy) (perStrategyMax : ℚ) (symbol : String) : ℚ :=
  strategy.given symbol * (1 / strategy.normalizer) *
    if strategy.normalizedGross > perStrategyMax then perStrategyMax / strategy.normalizedGross
    else 1

/-- The symbols of all strategies, each once. -/
def symbolsOf (signals : Signals) : List String :=
  groupKeys Signal.symbol (signals.rows.flatMap Strategy.rows)

namespace MultiAlphaAllocator

/-- What is left of the weights after they have been set off against each other. -/
def combinedGross (allocator : MultiAlphaAllocator) (signals : Signals) : ℚ :=
  ((symbolsOf signals).map fun symbol =>
    |(signals.rows.map fun strategy =>
      strategy.cappedShare allocator.perStrategyMax symbol).sum|).sum

variable {allocator : MultiAlphaAllocator} {rows : List Contribution} {result : List SymbolWeight}

theorem owned_equal (signals : Signals) : Owned signals (equalContributions signals) := by
  intro c hc
  obtain ⟨c', hc', rfl⟩ := List.mem_map.mp hc
  obtain ⟨strategy, hmem, hc'⟩ := List.mem_flatMap.mp hc'
  obtain ⟨s, -, rfl⟩ := List.mem_map.mp hc'
  exact List.mem_map_of_mem hmem

theorem contributed_scaled_equal (hmem : strategy ∈ signals.rows) (symbol : String) :
    contributed (allocator.scaled (equalContributions signals)) strategy.strategyId symbol =
      strategy.cappedShare allocator.perStrategyMax symbol := by
  have hgross : grossOf (equalContributions signals) strategy.strategyId =
      strategy.normalizedGross := by
    rw [equalContributions_eq, grossOf_scale_abs _ fun id =>
      1 / normalizer (signals.rows.flatMap Strategy.contributions) id, normalizer_eq hmem]
    exact congrArg (· * _) (groupSum_contributions hmem fun weight => |weight|)
  rw [scaled, contributed_scale, contributed_equal hmem, scaleFactor, hgross]
  rfl

theorem grossExposure_equal (hshort : allocator.allowShortPositions = true) (signals : Signals) :
    grossExposure (aggregate (allocator.cappedContributions (equalContributions signals))) =
      allocator.combinedGross signals := by
  have hsymbols : groupKeys Contribution.symbol (allocator.scaled (equalContributions signals)) =
      symbolsOf signals := by
    simp [groupKeys, symbolsOf, scaled, equalContributions, Contribution.scale, List.map_flatMap,
      Strategy.contributions, Function.comp_def]
  have howned : Owned signals (allocator.scaled (equalContributions signals)) := by
    intro c hc
    obtain ⟨row, hrow, rfl⟩ := List.mem_map.mp hc
    exact owned_equal signals row hrow
  rw [capped_eq_scaled hshort, grossExposure, sum_aggregate _ fun weight => |weight|, hsymbols,
    combinedGross]
  congr 1
  apply List.map_congr_left
  intro symbol _
  rw [sum_contributed howned]
  congr 2
  apply List.map_congr_left
  intro strategy hmem
  exact contributed_scaled_equal hmem symbol

theorem grossExposure_aggregate_le (rows : List Contribution) :
    grossExposure (aggregate rows) ≤ ((groupKeys Contribution.strategyId rows).map
      (grossOf rows)).sum := by
  have hgroups : ((groupKeys Contribution.strategyId rows).map (grossOf rows)).sum =
      (rows.map fun c => |c.weight|).sum := sum_groupKeys
  rw [grossExposure, sum_aggregate _ fun weight => |weight|, hgroups,
    ← @sum_groupKeys _ _ _ _ Contribution.symbol]
  exact List.sum_le_sum fun symbol _ => abs_groupSum_le symbol

/-- A cap of zero leaves nothing. -/
theorem perStrategyMax_pos
    (hgross : tolerance ≤ grossExposure (aggregate (allocator.scaled rows))) :
    0 < allocator.perStrategyMax := by
  by_contra hzero
  have hnone : ((groupKeys Contribution.strategyId (allocator.scaled rows)).map
      (grossOf (allocator.scaled rows))).sum ≤ 0 := by
    apply (List.sum_le_card_nsmul _ 0 ?_).trans_eq (nsmul_zero _)
    intro x hx
    obtain ⟨strategyId, -, rfl⟩ := List.mem_map.mp hx
    exact (grossOf_scaled_le strategyId).trans (not_lt.mp hzero)
  have htol := tolerance_pos
  have hle := grossExposure_aggregate_le (allocator.scaled rows)
  linarith

theorem scaleFactor_pos (h : 0 < allocator.perStrategyMax) (rows : List Contribution)
    (strategyId : String) : 0 < allocator.scaleFactor rows strategyId := by
  unfold scaleFactor
  split
  · rename_i hover
    exact div_pos h (h.trans hover)
  · exact zero_lt_one

end MultiAlphaAllocator

/-- What has a net weight gives some symbol a weight. -/
theorem exists_given_ne_zero (h : strategy.net ≠ 0) : ∃ symbol, strategy.given symbol ≠ 0 := by
  by_contra hnone
  apply h
  have hsum : ((groupKeys Signal.symbol strategy.rows).map strategy.given).sum = strategy.net :=
    sum_groupKeys
  rw [← hsum]
  apply List.sum_eq_zero
  intro x hx
  obtain ⟨symbol, -, rfl⟩ := List.mem_map.mp hx
  by_contra hne
  exact hnone ⟨symbol, hne⟩

namespace MultiAlphaAllocator

variable {allocator : MultiAlphaAllocator}

theorem contributed_final_equal (hshort : allocator.allowShortPositions = true)
    (hmem : strategy ∈ signals.rows) (symbol : String) :
    contributed (allocator.finalContributions (equalContributions signals)) strategy.strategyId
        symbol =
      1 / strategy.normalizer *
        allocator.finalFactor (equalContributions signals) strategy.strategyId *
          strategy.given symbol := by
  rw [contributed_final hshort, contributed_equal hmem]
  ring

/-- A strategy is turned around if its weights have a negative sum, unless nothing is left in the
end. -/
theorem keepsDirection_equal_iff (hshort : allocator.allowShortPositions = true)
    (signals : Signals) :
    KeepsDirection signals (allocator.finalContributions (equalContributions signals)) ↔
      (∀ strategy ∈ signals.rows, -tolerance < strategy.net) ∨
        allocator.combinedGross signals < tolerance := by
  have htol := tolerance_pos
  have hgross := grossExposure_equal hshort signals
  constructor
  · intro hkeeps
    by_contra hnot
    rw [not_or, not_lt, ← hgross] at hnot
    obtain ⟨hturned, hleft⟩ := hnot
    have hturned : ∃ strategy ∈ signals.rows, strategy.net ≤ -tolerance := by
      by_contra hnone
      apply hturned
      intro strategy hmem
      by_contra hnet
      exact hnone ⟨strategy, hmem, not_lt.mp hnet⟩
    obtain ⟨strategy, hmem, hnet⟩ := hturned
    have hfactor := factorOf_pos hleft
    have hmax : 0 < allocator.perStrategyMax := by
      rw [capped_eq_scaled hshort] at hleft
      exact perStrategyMax_pos hleft
    have hfinal : 0 < allocator.finalFactor (equalContributions signals) strategy.strategyId :=
      mul_pos (scaleFactor_pos hmax _ _) hfactor
    have hnegative : 1 / strategy.normalizer *
        allocator.finalFactor (equalContributions signals) strategy.strategyId < 0 :=
      mul_neg_of_neg_of_pos (one_div_neg.mpr ((normalizer_neg_iff strategy).mpr hnet)) hfinal
    obtain ⟨symbol, hgiven⟩ := @exists_given_ne_zero strategy (by linarith)
    obtain ⟨factor, hnonneg, hcontributed⟩ := hkeeps strategy hmem symbol
    rw [contributed_final_equal hshort hmem] at hcontributed
    have hsame := mul_right_cancel₀ hgiven hcontributed
    linarith
  · intro hcondition strategy hmem symbol
    refine ⟨_, ?_, contributed_final_equal hshort hmem symbol⟩
    rcases hcondition with hlong | hnothing
    · have hpos := normalizer_pos (hlong strategy hmem)
      exact mul_nonneg (one_div_pos.mpr hpos).le (finalFactor_nonneg _ _)
    · rw [← hgross] at hnothing
      rw [finalFactor, factorOf_eq_zero hnothing, mul_zero, mul_zero]

theorem keepsDirection_inverseVol (hshort : allocator.allowShortPositions = true) {stats : Stats}
    {rows : List Contribution} (hrows : inverseVolContributions signals stats = .ok rows) :
    KeepsDirection signals (allocator.finalContributions rows) := by
  intro strategy hmem symbol
  obtain ⟨share, hshare, hcontributed⟩ := contributed_inverseVol hrows hmem
  refine ⟨share * allocator.finalFactor rows strategy.strategyId,
    mul_nonneg hshare (finalFactor_nonneg _ _), ?_⟩
  rw [contributed_final hshort, hcontributed]
  ring

theorem owned_inverseVol {stats : Stats} {rows : List Contribution}
    (hrows : inverseVolContributions signals stats = .ok rows) : Owned signals rows := by
  unfold inverseVolContributions at hrows
  cases hvols : signals.rows.mapM (validateVol stats) with
  | error e =>
      rw [hvols] at hrows
      cases hrows
  | ok strategyVols =>
      rw [hvols] at hrows
      obtain ⟨hmap, -⟩ := mapM_validateVol hvols
      cases hrows
      intro c hc
      obtain ⟨s, hs, hc⟩ := List.mem_flatMap.mp hc
      obtain ⟨c', hc', rfl⟩ := List.mem_map.mp hc
      obtain ⟨row, -, rfl⟩ := List.mem_map.mp hc'
      have hmem : s.1 ∈ signals.rows := hmap ▸ List.mem_map_of_mem hs
      exact List.mem_map_of_mem hmem

theorem finish_ok_of_short (hshort : allocator.allowShortPositions = true)
    (rows : List Contribution) : ∃ result, allocator.finish rows = .ok result := by
  unfold finish safeNormalizeWeights
  split
  · exact ⟨_, rfl⟩
  · simp [hshort]

/-- With short positions allowed, `_equal_weight` keeps the directions just if no strategy has a
negative sum of weights or the weights cancel out in the end; `_inverse_vol` always does. -/
theorem direction_is_kept_iff (allocator : MultiAlphaAllocator) (signals : Signals)
    (hshort : allocator.allowShortPositions = true) :
    (∃ result, allocator.equalWeight signals = .ok result ∧
      (KeepsDirection signals (allocator.finalContributions (equalContributions signals)) ∧
          KeepsShorts signals result ↔
        (∀ strategy ∈ signals.rows, -tolerance < strategy.net) ∨
          allocator.combinedGross signals < tolerance)) ∧
      ∀ stats rows result, inverseVolContributions signals stats = .ok rows →
        allocator.inverseVol signals stats = .ok result →
          KeepsDirection signals (allocator.finalContributions rows) ∧
            KeepsShorts signals result := by
  constructor
  · obtain ⟨result, hfinish⟩ := finish_ok_of_short hshort (equalContributions signals)
    have hkeeps := keepsDirection_equal_iff hshort signals
    refine ⟨result, hfinish, ?_⟩
    rw [← hkeeps]
    constructor
    · exact fun h => h.1
    · exact fun h => ⟨h, keepsShorts_of_keepsDirection hshort (owned_equal signals) hfinish h⟩
  · intro stats rows result hrows hinverse
    rw [inverseVol, hrows] at hinverse
    have hkeeps := keepsDirection_inverseVol hshort hrows
    exact ⟨hkeeps, keepsShorts_of_keepsDirection hshort (owned_inverseVol hrows) hinverse hkeeps⟩

end MultiAlphaAllocator

/-- Two strategies with one symbol each. -/
def twoStrategies (first second : ℚ) : Signals where
  rows := [⟨"alpha_baseline", [⟨"AAPL", 1, first⟩]⟩, ⟨"momentum", [⟨"AAPL", 1, second⟩]⟩]
  keys_nodup := by
    change ["alpha_baseline", "momentum"].Nodup
    decide

def equalAllocator : MultiAlphaAllocator where
  method := .equalWeight
  perStrategyMax := 2 / 5
  allowShortPositions := true
  perStrategyMax_mem := by norm_num

theorem direction_is_kept_long :
    ∃ result, equalAllocator.equalWeight (twoStrategies 1 1) = .ok result ∧
      KeepsDirection (twoStrategies 1 1) (equalAllocator.finalContributions
        (equalContributions (twoStrategies 1 1))) := by
  obtain ⟨⟨result, hresult, hiff⟩, -⟩ :=
    MultiAlphaAllocator.direction_is_kept_iff equalAllocator (twoStrategies 1 1) rfl
  exact ⟨result, hresult, (hiff.mpr (Or.inl (by decide +kernel))).1⟩

/-- Both strategies are short, and the portfolio is long. -/
theorem short_strategies_end_long : ∃ result,
    equalAllocator.allocate (twoStrategies (-1) (-1)) none = .ok result ∧
      result.map SymbolWeight.finalWeight = [4 / 5] ∧
        ¬ KeepsShorts (twoStrategies (-1) (-1)) result := by
  refine ⟨[⟨"AAPL", 4 / 5, ["alpha_baseline", "momentum"]⟩], by decide +kernel, rfl, ?_⟩
  intro hkeeps
  have hfinal := hkeeps _ List.mem_cons_self (by decide +kernel)
  exact absurd hfinal (by decide +kernel)

end TradingPlatform.Portfolio
