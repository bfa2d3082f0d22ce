import TradingPlatform.Portfolio.MultiAlpha
import Mathlib.Tactic.FieldSimp
import Mathlib.Tactic.Linarith
import Mathlib.Tactic.Positivity

/-! # The caps on the strategies

The room below a cap is gross exposure, but the redistribution fills it with net
exposure and scales the strategy up for it. A strategy that is long and short at
once takes more room than it was given.
-/

namespace TradingPlatform.Portfolio

open Base

namespace MultiAlphaAllocator

variable (allocator : MultiAlphaAllocator)

/-- What the methods hand to the caps. -/
def weightedContributions (signals : Signals) (strategyStats : Option Stats) :
    Except AllocationError (List Contribution) :=
  match allocator.method with
  | .rankAggregation => .ok (rankContributions signals)
  | .equalWeight => .ok (equalContributions signals)
  | .inverseVol => inverseVolContributions signals (strategyStats.getD .empty)

/-- The contributions to the final weights: capped, redistributed and normalised. -/
def finalContributions (rows : List Contribution) : List Contribution :=
  (allocator.cappedContributions rows).map fun c =>
    c.scale (factorOf (aggregate (allocator.cappedContributions rows)) false)

/-- The weights are the sums of the contributions, which respect the caps up to the tolerance of
the normalisation. -/
structure Respects (contributions : List Contribution) (result : List SymbolWeight) : Prop where
  weights : ∀ w ∈ result,
    w.finalWeight = groupSum Contribution.symbol Contribution.weight contributions w.symbol
  symbols : ∀ c ∈ contributions, ∃ w ∈ result, w.symbol = c.symbol
  gross : ∀ strategyId,
    grossOf contributions strategyId * (1 - tolerance) ≤ allocator.perStrategyMax

/-- What is left of the portfolio once the strategies are capped. -/
def leftOver (rows : List Contribution) : ℚ :=
  1 - ((allocator.scaled rows).map Contribution.weight).sum

/-- Where something is left, a strategy below its cap has no short positions against its long
ones, or its gross exposure stays below the cap even if it gets all that is left. -/
def FitsInGross (rows : List Contribution) : Prop :=
  redistributeTol < allocator.leftOver rows → ∀ strategyId,
    grossOf rows strategyId + redistributeTol < allocator.perStrategyMax →
      redistributeTol < netOf rows strategyId →
        netOf rows strategyId = grossOf rows strategyId ∨
          grossOf rows strategyId * (netOf rows strategyId + allocator.leftOver rows) ≤
            allocator.perStrategyMax * netOf rows strategyId

end MultiAlphaAllocator

theorem redistributeTol_pos : 0 < redistributeTol := by
  rw [redistributeTol]
  norm_num

theorem tolerance_pos : 0 < tolerance := by
  rw [tolerance]
  norm_num

theorem tolerance_lt_one : tolerance < 1 := by
  rw [tolerance]
  norm_num

/-! ## Rows scaled by strategy -/

theorem scale_strategyId (c : Contribution) (factor : ℚ) :
    (c.scale factor).strategyId = c.strategyId := rfl

theorem scale_symbol (c : Contribution) (factor : ℚ) : (c.scale factor).symbol = c.symbol := rfl

section Scaling

variable {rows : List Contribution} {factor : String → ℚ} (strategyId : String)

theorem netOf_scale : netOf (rows.map fun c => c.scale (factor c.strategyId)) strategyId =
    netOf rows strategyId * factor strategyId := by
  rw [netOf, groupSum_map fun c => scale_strategyId c (factor c.strategyId)]
  exact groupSum_mul strategyId

theorem grossOf_scale (hfactor : ∀ strategyId, 0 ≤ factor strategyId) :
    grossOf (rows.map fun c => c.scale (factor c.strategyId)) strategyId =
      grossOf rows strategyId * factor strategyId := by
  rw [grossOf, groupSum_map fun c => scale_strategyId c (factor c.strategyId), grossOf,
    ← groupSum_mul]
  apply groupSum_congr
  intro c _ _
  rw [Contribution.scale, abs_mul, abs_of_nonneg (hfactor c.strategyId)]

theorem abs_netOf_le : |netOf rows strategyId| ≤ grossOf rows strategyId :=
  abs_groupSum_le strategyId

theorem grossOf_nonneg : 0 ≤ grossOf rows strategyId := groupSum_abs_nonneg strategyId

end Scaling

/-! ## The redistribution -/

variable {perStrategyMax remaining base : ℚ} {row : StrategyRow} {eligible : List StrategyRow}

/-- A row in the loop: the headroom is what is left below the cap. -/
structure StrategyRow.Within (row : StrategyRow) (perStrategyMax : ℚ) : Prop where
  headroom : row.headroom = perStrategyMax - row.grossTotal
  headroom_nonneg : 0 ≤ row.headroom
  netTotal_pos : 0 < row.netTotal

theorem allocation_nonneg (row : StrategyRow) (remaining base : ℚ) :
    0 ≤ row.allocation remaining base := by
  unfold StrategyRow.allocation
  dsimp only
  split
  · exact le_refl 0
  · rename_i hlarge
    exact (redistributeTol_pos.trans (not_le.mp hlarge)).le

theorem allocation_le (h : row.Within perStrategyMax) (hremaining : 0 ≤ remaining)
    (hbase : 0 < base) : row.allocation remaining base ≤ row.headroom ∧
      row.allocation remaining base ≤ remaining * (row.netTotal / base) := by
  have hshare : 0 ≤ remaining * (row.netTotal / base) :=
    mul_nonneg hremaining (div_nonneg h.netTotal_pos.le hbase.le)
  unfold StrategyRow.allocation
  dsimp only
  split
  · exact ⟨h.headroom_nonneg, hshare⟩
  · exact ⟨min_le_right _ _, min_le_left _ _⟩

/-- A round hands out no more than what is left. -/
theorem sum_allocation_le (h : ∀ row ∈ eligible, row.Within perStrategyMax)
    (hremaining : 0 ≤ remaining) (hbase : 0 < (eligible.map StrategyRow.netTotal).sum) :
    (eligible.map fun row =>
      row.allocation remaining (eligible.map StrategyRow.netTotal).sum).sum ≤ remaining := by
  have hbound : ∀ base : ℚ, 0 < base → (eligible.map fun row => row.allocation remaining base).sum ≤
      (eligible.map fun row => remaining * (row.netTotal / base)).sum := by
    intro base hbase
    apply List.sum_le_sum
    intro row hrow
    exact (allocation_le (h row hrow) hremaining hbase).2
  have hshares : (eligible.map fun row =>
      remaining * (row.netTotal / (eligible.map StrategyRow.netTotal).sum)).sum = remaining := by
    have hdiv : ∀ base : ℚ, (eligible.map fun row => remaining * (row.netTotal / base)).sum =
        (eligible.map StrategyRow.netTotal).sum * (remaining / base) := by
      intro base
      rw [← List.sum_map_mul_right]
      congr 1
      apply List.map_congr_left
      intro row _
      ring
    rw [hdiv]
    field_simp
  exact (hbound _ hbase).trans hshares.le

theorem allocation_le_sum {row : StrategyRow} (hrow : row ∈ eligible) (remaining base : ℚ) :
    row.allocation remaining base ≤ (eligible.map fun row => row.allocation remaining base).sum :=
  List.single_le_sum
    (fun x hx => by
      obtain ⟨other, -, rfl⟩ := List.mem_map.mp hx
      exact allocation_nonneg other remaining base)
    _ (List.mem_map_of_mem hrow)

theorem receive_eq (row : StrategyRow) (perStrategyMax allocation : ℚ) :
    (row.receive perStrategyMax allocation).strategyId = row.strategyId ∧
      (row.receive perStrategyMax allocation).originalNet = row.originalNet ∧
      (row.receive perStrategyMax allocation).extra = row.extra + allocation ∧
      (row.receive perStrategyMax allocation).netTotal = row.netTotal + allocation ∧
      (row.receive perStrategyMax allocation).grossTotal = row.grossTotal + allocation := by
  unfold StrategyRow.receive
  split
  · rename_i hzero
    rw [hzero]
    exact ⟨rfl, rfl, (add_zero _).symm, (add_zero _).symm, (add_zero _).symm⟩
  · exact ⟨rfl, rfl, rfl, rfl, rfl⟩

theorem StrategyRow.Within.receive (h : row.Within perStrategyMax) {allocation : ℚ}
    (hnonneg : 0 ≤ allocation) (hle : allocation ≤ row.headroom) :
    (row.receive perStrategyMax allocation).Within perStrategyMax := by
  have hheadroom := h.headroom
  have hnet := h.netTotal_pos
  unfold StrategyRow.receive
  split
  · exact h
  · constructor
    · exact max_eq_right (by linarith)
    · exact le_max_left _ _
    · change 0 < row.netTotal + allocation
      linarith

/-- A row has received no more than what was left, and no more than its headroom. -/
structure Received (perStrategyMax remaining : ℚ) (row row' : StrategyRow) : Prop where
  strategyId : row'.strategyId = row.strategyId
  originalNet : row'.originalNet = row.originalNet
  extra_nonneg : row.extra ≤ row'.extra
  extra_le : row'.extra - row.extra ≤ remaining
  gross_le : row.grossTotal + (row'.extra - row.extra) ≤ perStrategyMax

theorem received_self (h : row.Within perStrategyMax) (hremaining : 0 ≤ remaining) :
    Received perStrategyMax remaining row row := by
  have hheadroom := h.headroom
  have hnonneg := h.headroom_nonneg
  refine ⟨rfl, rfl, le_refl _, ?_, ?_⟩
  · rwa [sub_self]
  · linarith

theorem redistribute_received (rounds : ℕ) (hremaining : 0 ≤ remaining)
    (h : ∀ row ∈ eligible, row.Within perStrategyMax) :
    ∀ row' ∈ redistribute perStrategyMax rounds remaining eligible,
      ∃ row ∈ eligible, Received perStrategyMax remaining row row' := by
  induction rounds generalizing remaining eligible with
  | zero =>
      intro row hrow
      exact ⟨row, hrow, received_self (h row hrow) hremaining⟩
  | succ rounds ih =>
      have hself :
          ∀ row' ∈ eligible, ∃ row ∈ eligible, Received perStrategyMax remaining row row' :=
        fun row hrow => ⟨row, hrow, received_self (h row hrow) hremaining⟩
      rw [redistribute]
      split
      · exact hself
      dsimp only
      split
      · exact hself
      rename_i hbase
      have hbase : 0 < (eligible.map StrategyRow.netTotal).sum :=
        redistributeTol_pos.trans (not_le.mp hbase)
      have htotal := sum_allocation_le h hremaining hbase
      have hround : ∀ row ∈ eligible,
          0 ≤ row.allocation remaining (eligible.map StrategyRow.netTotal).sum ∧
          row.allocation remaining (eligible.map StrategyRow.netTotal).sum ≤ row.headroom ∧
          row.allocation remaining (eligible.map StrategyRow.netTotal).sum ≤
            (eligible.map fun row =>
              row.allocation remaining (eligible.map StrategyRow.netTotal).sum).sum :=
        fun row hrow => ⟨allocation_nonneg _ _ _, (allocation_le (h row hrow) hremaining hbase).1,
          allocation_le_sum hrow _ _⟩
      generalize (eligible.map StrategyRow.netTotal).sum = base at *
      generalize hsum : (eligible.map fun row => row.allocation remaining base).sum = allocated at *
      have hgiven : ∀ row' ∈ eligible.map fun row =>
          row.receive perStrategyMax (row.allocation remaining base),
          ∃ row ∈ eligible, row'.Within perStrategyMax ∧
            Received perStrategyMax remaining row row' ∧
            row'.extra - row.extra ≤ allocated ∧
            row'.grossTotal = row.grossTotal + (row'.extra - row.extra) := by
        intro row' hrow'
        obtain ⟨row, hrow, rfl⟩ := List.mem_map.mp hrow'
        obtain ⟨hnonneg, hle, hshare⟩ := hround row hrow
        obtain ⟨hid, horiginal, hextra, -, hgross⟩ :=
          receive_eq row perStrategyMax (row.allocation remaining base)
        have hheadroom := (h row hrow).headroom
        refine ⟨row, hrow, (h row hrow).receive hnonneg hle, ⟨hid, horiginal, ?_, ?_, ?_⟩, ?_, ?_⟩
        all_goals linarith
      split
      · intro row' hrow'
        obtain ⟨row, hrow, -, hreceived, -⟩ := hgiven row' hrow'
        exact ⟨row, hrow, hreceived⟩
      · intro row' hrow'
        rcases List.mem_append.mp hrow' with hdone | hmore
        · obtain ⟨row, hrow, -, hreceived, -⟩ := hgiven row' (List.mem_of_mem_filter hdone)
          exact ⟨row, hrow, hreceived⟩
        · obtain ⟨middle, hmiddle, hlater⟩ := ih (le_max_left _ _)
            (fun row hrow => by
              obtain ⟨-, -, hwithin, -⟩ := hgiven row (List.mem_of_mem_filter hrow)
              exact hwithin) row' hmore
          obtain ⟨row, hrow, -, hreceived, hallocated, hgross⟩ :=
            hgiven middle (List.mem_of_mem_filter hmiddle)
          have hleft : max 0 (remaining - allocated) = remaining - allocated :=
            max_eq_right (by linarith)
          have hmost := hlater.extra_le
          have hfirst := hreceived.extra_nonneg
          have hthen := hlater.extra_nonneg
          have hcap := hlater.gross_le
          rw [hleft] at hmost
          refine ⟨row, hrow, hlater.strategyId.trans hreceived.strategyId,
            hlater.originalNet.trans hreceived.originalNet, ?_, ?_, ?_⟩
          all_goals linarith

/-- The rounds suffice: with more of them the loop ends in the same state. -/
theorem redistribute_rounds {rounds : ℕ} (more : ℕ)
    (h : remaining ≤ rounds * redistributeTol ∨ remaining ≤ redistributeTol) :
    redistribute perStrategyMax (rounds + more) remaining eligible =
      redistribute perStrategyMax rounds remaining eligible := by
  induction rounds generalizing remaining eligible with
  | zero =>
      have hpos := redistributeTol_pos
      have hsmall : remaining ≤ redistributeTol := by
        rcases h with hzero | hsmall
        · rw [Nat.cast_zero, zero_mul] at hzero
          linarith
        · exact hsmall
      cases more with
      | zero => rfl
      | succ more =>
          change redistribute perStrategyMax (0 + more + 1) remaining eligible = eligible
          rw [redistribute, if_pos (Or.inl hsmall)]
  | succ rounds ih =>
      rw [Nat.succ_add_eq_add_succ, Nat.add_succ, redistribute, redistribute]
      split
      · rfl
      rename_i hgoing
      dsimp only
      split
      · rfl
      split
      · rfl
      · rename_i hlarge
        rw [ih]
        rcases h with hmany | hsmall
        · rcases le_total (remaining - (eligible.map fun row =>
              row.allocation remaining (eligible.map StrategyRow.netTotal).sum).sum) 0 with
            hdone | hleft
          · rw [max_eq_left hdone]
            exact Or.inr redistributeTol_pos.le
          · rw [max_eq_right hleft]
            left
            have hlarge := not_le.mp hlarge
            rw [Nat.cast_succ, add_mul, one_mul] at hmany
            linarith
        · exact absurd (Or.inl hsmall) hgoing

/-! ## The room that a strategy takes -/

namespace MultiAlphaAllocator

variable {allocator : MultiAlphaAllocator} {rows : List Contribution} {strategyId : String}

theorem scaleFactor_nonneg (allocator : MultiAlphaAllocator) (rows : List Contribution)
    (strategyId : String) : 0 ≤ allocator.scaleFactor rows strategyId := by
  unfold scaleFactor
  split
  · exact div_nonneg allocator.perStrategyMax_mem.1 (grossOf_nonneg strategyId)
  · exact zero_le_one

theorem grossOf_scaled (strategyId : String) : grossOf (allocator.scaled rows) strategyId =
    grossOf rows strategyId * allocator.scaleFactor rows strategyId :=
  grossOf_scale strategyId (allocator.scaleFactor_nonneg rows)

theorem grossOf_scaled_le (strategyId : String) :
    grossOf (allocator.scaled rows) strategyId ≤ allocator.perStrategyMax := by
  rw [grossOf_scaled, scaleFactor]
  split
  · rename_i hover
    have hpos : 0 < grossOf rows strategyId := allocator.perStrategyMax_mem.1.trans_lt hover
    rw [mul_div_cancel₀ _ hpos.ne']
  · rename_i hunder
    rw [mul_one]
    exact not_lt.mp hunder

/-- A strategy with headroom was not scaled down. -/
theorem scaleFactor_eq_one (h : grossOf (allocator.scaled rows) strategyId <
    allocator.perStrategyMax) : allocator.scaleFactor rows strategyId = 1 := by
  rw [grossOf_scaled, scaleFactor] at h
  rw [scaleFactor]
  split at h
  · rename_i hover
    have hpos : 0 < grossOf rows strategyId := allocator.perStrategyMax_mem.1.trans_lt hover
    rw [mul_div_cancel₀ _ hpos.ne'] at h
    exact absurd h (lt_irrefl _)
  · rename_i hunder
    exact if_neg hunder

theorem remaining_eq : allocator.remaining rows = max 0 (allocator.leftOver rows) := by
  have hsum : ((allocator.strategyRows rows).map StrategyRow.netTotal).sum =
      ((allocator.scaled rows).map Contribution.weight).sum := by
    rw [strategyRows, List.map_map]
    apply sum_groupSum nodup_groupKeys
    intro c hc
    obtain ⟨row, hrow, rfl⟩ := List.mem_map.mp hc
    exact mem_groupKeys.mpr ⟨row, hrow, rfl⟩
  rw [remaining, hsum, leftOver]

/-- What an eligible row says of its strategy. -/
theorem mem_eligible {row : StrategyRow} (h : row ∈ allocator.eligible rows) :
    row.Within allocator.perStrategyMax ∧ row.extra = 0 ∧
      row.originalNet = netOf rows row.strategyId ∧
      row.grossTotal = grossOf rows row.strategyId ∧
      grossOf (allocator.scaled rows) row.strategyId = grossOf rows row.strategyId ∧
      redistributeTol < row.originalNet ∧
      grossOf rows row.strategyId + redistributeTol < allocator.perStrategyMax := by
  have htol := redistributeTol_pos
  obtain ⟨hmem, hroom⟩ := List.mem_filter.mp h
  obtain ⟨strategyId, -, rfl⟩ := List.mem_map.mp hmem
  simp only [decide_eq_true_eq, StrategyRow.hasRoom] at hroom
  obtain ⟨-, hheadroom, hnet⟩ := hroom
  change redistributeTol < max 0 (allocator.perStrategyMax -
    grossOf (allocator.scaled rows) strategyId) at hheadroom
  change redistributeTol < netOf (allocator.scaled rows) strategyId at hnet
  have hle : grossOf (allocator.scaled rows) strategyId ≤ allocator.perStrategyMax :=
    grossOf_scaled_le strategyId
  rw [max_eq_right (by linarith)] at hheadroom
  have hone : allocator.scaleFactor rows strategyId = 1 := scaleFactor_eq_one (by linarith)
  have hgross : grossOf (allocator.scaled rows) strategyId = grossOf rows strategyId := by
    rw [grossOf_scaled, hone, mul_one]
  have hnet' : netOf (allocator.scaled rows) strategyId = netOf rows strategyId := by
    rw [scaled, netOf_scale, hone, mul_one]
  refine ⟨⟨?_, le_max_left _ _, ?_⟩, rfl, hnet', hgross, hgross, hnet, ?_⟩
  · exact max_eq_right (by linarith)
  · exact htol.trans hnet
  · rw [hgross] at hheadroom
    change grossOf rows strategyId + redistributeTol < allocator.perStrategyMax
    linarith

theorem leftOver_eq (h : redistributeTol < allocator.remaining rows) :
    allocator.leftOver rows = allocator.remaining rows := by
  rw [remaining_eq] at h ⊢
  rcases le_total (allocator.leftOver rows) 0 with hnone | hsome
  · rw [max_eq_left hnone] at h
    exact absurd h (not_lt.mpr redistributeTol_pos.le)
  · exact (max_eq_right hsome).symm

/-- What the redistribution gives to a strategy: net exposure, within the room of its gross
exposure. -/
theorem mem_redistributed {row : StrategyRow} (h : row ∈ allocator.redistributed rows) :
    0 ≤ row.extra ∧ row.extra ≤ allocator.remaining rows ∧
      row.originalNet = netOf rows row.strategyId ∧
      grossOf (allocator.scaled rows) row.strategyId = grossOf rows row.strategyId ∧
      grossOf rows row.strategyId + row.extra ≤ allocator.perStrategyMax ∧
      redistributeTol < row.originalNet ∧
      grossOf rows row.strategyId + redistributeTol < allocator.perStrategyMax := by
  have hremaining : 0 ≤ allocator.remaining rows := le_max_left _ _
  obtain ⟨first, hfirst, hreceived⟩ := redistribute_received _ hremaining
    (fun row hrow => (mem_eligible hrow).1) row h
  obtain ⟨-, hextra, hnet, hgross, hscaled, hlarge, hbelow⟩ := mem_eligible hfirst
  have hnonneg := hreceived.extra_nonneg
  have hmost := hreceived.extra_le
  have hcap := hreceived.gross_le
  rw [hextra, sub_zero] at hmost hcap
  rw [hextra] at hnonneg
  rw [hgross] at hcap
  rw [hreceived.strategyId, hreceived.originalNet]
  exact ⟨hnonneg, hmost, hnet, hscaled, hcap, hlarge, hbelow⟩

/-- To scale a strategy up for `extra` more net exposure is safe where its gross exposure is its
net exposure, or grows little enough. -/
theorem scaled_up_le {gross net extra left cap : ℚ} (hnet : 0 < net) (hgross : 0 ≤ gross)
    (hcap : gross + extra ≤ cap) (hextra : extra ≤ left)
    (hfits : net = gross ∨ gross * (net + left) ≤ cap * net) :
    gross * (1 + extra / net) ≤ cap := by
  rcases hfits with hsame | hroom
  · rw [← hsame, mul_add, mul_one, mul_div_cancel₀ _ hnet.ne', hsame]
    exact hcap
  · have hscaled : gross * (1 + extra / net) = gross * (net + extra) / net := by
      field_simp
    rw [hscaled, div_le_iff₀ hnet]
    refine le_trans ?_ hroom
    apply mul_le_mul_of_nonneg_left _ hgross
    linarith

/-- Scaled up, a strategy stays below its cap if it fits in gross exposure. -/
theorem scaleUp_spec (hfits : allocator.allowShortPositions = true ∨ allocator.FitsInGross rows)
    (strategyId : String) : 0 ≤ allocator.scaleUp rows strategyId ∧
      grossOf (allocator.scaled rows) strategyId * allocator.scaleUp rows strategyId ≤
        allocator.perStrategyMax := by
  have hone : 0 ≤ (1 : ℚ) ∧
      grossOf (allocator.scaled rows) strategyId * 1 ≤ allocator.perStrategyMax := by
    rw [mul_one]
    exact ⟨zero_le_one, grossOf_scaled_le strategyId⟩
  unfold scaleUp
  split
  · exact hone
  rename_i hgoing
  rw [not_or] at hgoing
  have hfits := hfits.resolve_left hgoing.1
  have hmore := not_le.mp hgoing.2
  split
  · rename_i row hfind
    have hname : row.strategyId = strategyId := by simpa using List.find?_some hfind
    obtain ⟨hnonneg, hmost, hnet, hscaled, hcap, hlarge, hbelow⟩ :=
      mem_redistributed (List.mem_of_find?_eq_some hfind)
    unfold StrategyRow.scaleUp
    split
    · have hpos : 0 < row.originalNet := redistributeTol_pos.trans hlarge
      refine ⟨add_nonneg zero_le_one (div_nonneg hnonneg hpos.le), ?_⟩
      rw [← leftOver_eq hmore] at hmost hmore
      have hroom := hfits hmore row.strategyId hbelow (by rwa [← hnet])
      rw [← hnet] at hroom
      rw [← hname, hscaled]
      exact scaled_up_le hpos (grossOf_nonneg _) hcap hmost hroom
    · exact hone
  · exact hone

end MultiAlphaAllocator

/-! ## The normalisation -/

/-- The weights grow by the tolerance at most, and their net sum ends within one. -/
theorem normalizationFactor_spec {total totalAbs : ℚ} (h : |total| ≤ totalAbs) :
    0 ≤ normalizationFactor false total totalAbs ∧
      normalizationFactor false total totalAbs * (1 - tolerance) ≤ 1 ∧
      |total * normalizationFactor false total totalAbs| ≤ 1 := by
  have hpos := tolerance_pos
  have hone := tolerance_lt_one
  have hkeep : |total| ≤ 1 → 0 ≤ (1 : ℚ) ∧ 1 * (1 - tolerance) ≤ 1 ∧ |total * 1| ≤ 1 := by
    intro hle
    rw [mul_one, one_mul]
    exact ⟨zero_le_one, by linarith, hle⟩
  -- division by something that is no less than the net sum, and hardly less than one
  have hdivide : ∀ divisor : ℚ, |total| ≤ divisor → 1 - tolerance ≤ divisor →
      0 ≤ 1 / divisor ∧ 1 / divisor * (1 - tolerance) ≤ 1 ∧ |total * (1 / divisor)| ≤ 1 := by
    intro divisor hnet hlarge
    have hby : 0 < divisor := by linarith
    refine ⟨(one_div_pos.mpr hby).le, ?_, ?_⟩
    · rw [one_div_mul_eq_div, div_le_one hby]
      exact hlarge
    · rw [mul_one_div, abs_div, abs_of_pos hby, div_le_one hby]
      exact hnet
  unfold normalizationFactor
  split
  · rename_i hnear
    split
    · rw [mul_zero, zero_mul, abs_zero]
      exact ⟨le_refl 0, zero_le_one, zero_le_one⟩
    · split
      · exact hkeep (by linarith)
      · rename_i hscale
        rw [not_and, not_le] at hscale
        have hover := hscale rfl
        exact hdivide totalAbs h (by linarith)
  · split
    · rename_i hlong
      split
      · rename_i hdrift
        have hbounds := abs_le.mp hdrift
        exact hdivide total (abs_of_pos hlong.2.1).le (by linarith)
      · rename_i hbelow
        have hfar := lt_abs.mp (not_le.mp hbelow)
        have hle : total ≤ 1 := by
          rcases hfar with habove | hunder <;> linarith [hlong.2.2]
        exact hkeep (by rwa [abs_of_pos hlong.2.1])
    · rename_i hnotLong
      split
      · rename_i hshort
        split
        · rename_i hdrift
          have hbounds := abs_le.mp hdrift
          exact hdivide |total| le_rfl (by linarith)
        · rename_i hbelow
          have hfar := lt_abs.mp (not_le.mp hbelow)
          have hle : |total| ≤ 1 := by
            rcases hfar with habove | hunder <;> linarith [hshort.2.2]
          exact hkeep hle
      · rename_i hfar hnotShort
        have hover : 1 + tolerance < |total| := by
          by_contra hunder
          have hunder := not_lt.mp hunder
          rcases lt_trichotomy total 0 with hneg | hzero | hlong
          · exact hnotShort ⟨rfl, hneg, hunder⟩
          · rw [hzero, abs_zero] at hfar
            exact hfar hpos
          · rw [abs_of_pos hlong] at hunder
            exact hnotLong ⟨rfl, hlong, hunder⟩
        exact hdivide |total| le_rfl (by linarith)

theorem mem_aggregate {rows : List Contribution} {w : SymbolWeight} (h : w ∈ aggregate rows) :
    w.finalWeight = groupSum Contribution.symbol Contribution.weight rows w.symbol := by
  rw [aggregate, List.mem_mergeSort] at h
  obtain ⟨symbol, -, rfl⟩ := List.mem_map.mp h
  rfl

theorem exists_mem_aggregate {rows : List Contribution} {c : Contribution} (h : c ∈ rows) :
    ∃ w ∈ aggregate rows, w.symbol = c.symbol := by
  have hkey : c.symbol ∈ groupKeys Contribution.symbol rows := mem_groupKeys.mpr ⟨c, h, rfl⟩
  refine ⟨⟨c.symbol, groupSum Contribution.symbol Contribution.weight rows c.symbol,
    (rows.filter fun r => r.symbol = c.symbol).map Contribution.strategyId⟩, ?_, rfl⟩
  rw [aggregate, List.mem_mergeSort]
  exact List.mem_map_of_mem hkey

theorem abs_netExposure_le (weights : List SymbolWeight) :
    |netExposure weights| ≤ grossExposure weights :=
  abs_sum_map_le weights SymbolWeight.finalWeight

namespace MultiAlphaAllocator

variable {allocator : MultiAlphaAllocator} {rows : List Contribution} {result : List SymbolWeight}

/-- The net sum of the weights, whatever the caps have made of them. -/
theorem net_finish (hfinish : allocator.finish rows = .ok result) : |netExposure result| ≤ 1 := by
  unfold finish at hfinish
  split at hfinish
  · cases hfinish
    change |(0 : ℚ)| ≤ 1
    rw [abs_zero]
    exact zero_le_one
  unfold safeNormalizeWeights at hfinish
  split at hfinish
  · cases hfinish
  cases hfinish
  have hsum : ∀ (weights : List SymbolWeight) (factor : ℚ),
      netExposure (weights.map fun w => { w with finalWeight := w.finalWeight * factor }) =
        netExposure weights * factor := by
    intro weights factor
    rw [netExposure, List.map_map, netExposure, ← List.sum_map_mul_right]
    rfl
  rw [hsum]
  exact (normalizationFactor_spec (abs_netExposure_le _)).2.2

theorem respects_finish (hfits : allocator.allowShortPositions = true ∨ allocator.FitsInGross rows)
    (hfinish : allocator.finish rows = .ok result) :
    allocator.Respects (allocator.finalContributions rows) result := by
  unfold finish at hfinish
  split at hfinish
  · rename_i hnil
    cases hfinish
    subst hnil
    refine ⟨(fun w hw => by cases hw), (fun c hc => by cases hc), ?_⟩
    intro strategyId
    change (0 : ℚ) * (1 - tolerance) ≤ allocator.perStrategyMax
    rw [zero_mul]
    exact allocator.perStrategyMax_mem.1
  unfold safeNormalizeWeights at hfinish
  split at hfinish
  · cases hfinish
  cases hfinish
  obtain ⟨hfactor, hgrow, -⟩ :=
    normalizationFactor_spec (abs_netExposure_le (aggregate (allocator.cappedContributions rows)))
  change 0 ≤ factorOf (aggregate (allocator.cappedContributions rows)) false at hfactor
  change factorOf (aggregate (allocator.cappedContributions rows)) false * _ ≤ 1 at hgrow
  unfold finalContributions
  generalize hcapped : allocator.cappedContributions rows = capped at *
  generalize factorOf (aggregate capped) false = factor at *
  refine ⟨?_, ?_, ?_⟩
  · intro w hw
    obtain ⟨v, hv, rfl⟩ := List.mem_map.mp hw
    rw [mem_aggregate hv, groupSum_map fun c => scale_symbol c factor]
    exact (groupSum_mul (c := fun _ => factor) v.symbol).symm
  · intro c hc
    obtain ⟨cappedRow, hrow, rfl⟩ := List.mem_map.mp hc
    obtain ⟨w, hw, hsymbol⟩ := exists_mem_aggregate hrow
    exact ⟨_, List.mem_map_of_mem hw, hsymbol⟩
  · intro strategyId
    obtain ⟨-, hcap⟩ := scaleUp_spec hfits strategyId
    have hgross : grossOf capped strategyId ≤ allocator.perStrategyMax := by
      rw [← hcapped, cappedContributions,
        grossOf_scale strategyId fun id => (scaleUp_spec hfits id).1]
      exact hcap
    have hscaled : grossOf (capped.map fun c => c.scale factor) strategyId =
        grossOf capped strategyId * factor := grossOf_scale strategyId fun _ => hfactor
    rw [hscaled, mul_assoc]
    calc grossOf capped strategyId * (factor * (1 - tolerance))
        ≤ grossOf capped strategyId * 1 :=
          mul_le_mul_of_nonneg_left hgrow (grossOf_nonneg strategyId)
      _ = grossOf capped strategyId := mul_one _
      _ ≤ allocator.perStrategyMax := hgross

/-- With two strategies or more, what the methods compute goes through the caps. -/
theorem allocate_eq {signals : Signals} {strategyStats : Option Stats}
    (hmany : 2 ≤ signals.rows.length)
    (hallocate : allocator.allocate signals strategyStats = .ok result) :
    ∃ rows, allocator.weightedContributions signals strategyStats = .ok rows ∧
      allocator.finish rows = .ok result := by
  unfold allocate at hallocate
  unfold weightedContributions
  split at hallocate
  · cases hallocate
  · cases hallocate
  · rename_i stats hmethod _
    split at hallocate
    · cases hallocate
    · rw [hmethod]
      unfold inverseVol at hallocate
      cases hrows : inverseVolContributions signals stats with
      | error error =>
          rw [hrows] at hallocate
          cases hallocate
      | ok rows =>
          rw [hrows] at hallocate
          exact ⟨rows, hrows, hallocate⟩
  · rename_i hsingle _ _
    rw [hsingle] at hmany
    exact absurd hmany (Nat.not_succ_le_self 1)
  · rename_i hmethod _ _
    rw [hmethod]
    exact ⟨_, rfl, hallocate⟩
  · rename_i hmethod _ _
    rw [hmethod]
    exact ⟨_, rfl, hallocate⟩

/-- Ranks are shared out by strategy, so each strategy has a gross exposure of one. -/
theorem grossOf_rank (signals : Signals) {strategyId : String}
    (h : grossOf (rankContributions signals) strategyId ≠ 0) :
    grossOf (rankContributions signals) strategyId = 1 := by
  unfold rankContributions at h ⊢
  dsimp only at h ⊢
  have hpositive : ∀ r ∈ signals.rows.flatMap Strategy.ranked,
      0 < r.normalizedRank ∧ |r.weightSign| = 1 := by
    intro r hr
    obtain ⟨strategy, -, hr⟩ := List.mem_flatMap.mp hr
    obtain ⟨s, -, rfl⟩ := List.mem_map.mp hr
    constructor
    · change (0 : ℚ) < 1 / (denseRank strategy.rows s : ℚ)
      rw [denseRank]
      positivity
    · change |(if 0 ≤ s.weight then 1 else -1 : ℚ)| = 1
      split
      · exact abs_one
      · rw [abs_neg, abs_one]
  generalize signals.rows.flatMap Strategy.ranked = allRanks at *
  have htotal : ∀ strategyId, 0 ≤ totalRank allRanks strategyId := by
    intro strategyId
    apply List.sum_nonneg
    intro x hx
    obtain ⟨r, hr, rfl⟩ := List.mem_map.mp hx
    exact (hpositive r (List.mem_of_mem_filter hr)).1.le
  have hkey : ∀ r : RankedSignal, (r.contribution allRanks).strategyId = r.strategyId :=
    fun _ => rfl
  have hgross : grossOf (allRanks.map (RankedSignal.contribution allRanks)) strategyId =
      totalRank allRanks strategyId * (totalRank allRanks strategyId)⁻¹ := by
    rw [grossOf, groupSum_map hkey]
    refine Eq.trans ?_ (groupSum_mul (c := fun id => (totalRank allRanks id)⁻¹) strategyId)
    apply groupSum_congr
    intro r hr _
    obtain ⟨hrank, hsign⟩ := hpositive r hr
    rw [RankedSignal.contribution, abs_mul, hsign, mul_one,
      abs_of_nonneg (div_nonneg hrank.le (htotal _)), div_eq_mul_inv]
  rw [hgross] at h ⊢
  exact mul_inv_cancel₀ (left_ne_zero_of_mul h)

theorem fitsInGross_of_nonneg (h : ∀ c ∈ rows, 0 ≤ c.weight) : allocator.FitsInGross rows := by
  intro _ strategyId _ _
  left
  apply groupSum_congr
  intro c hc _
  exact (abs_of_nonneg (h c hc)).symm

theorem fitsInGross_rank (signals : Signals) :
    allocator.FitsInGross (rankContributions signals) := by
  intro _ strategyId hbelow hnet
  have hpos := redistributeTol_pos
  have hle : netOf (rankContributions signals) strategyId ≤
      grossOf (rankContributions signals) strategyId :=
    (le_abs_self _).trans (abs_netOf_le strategyId)
  have hone : grossOf (rankContributions signals) strategyId = 1 :=
    grossOf_rank signals (by linarith)
  have hmax := allocator.perStrategyMax_mem.2
  linarith

theorem sum_aggregate (rows : List Contribution) (f : ℚ → ℚ) :
    ((aggregate rows).map fun w => f w.finalWeight).sum =
      ((groupKeys Contribution.symbol rows).map fun symbol =>
        f (groupSum Contribution.symbol Contribution.weight rows symbol)).sum := by
  rw [aggregate, ((List.mergeSort_perm _ _).map _).sum_eq, List.map_map]
  rfl

/-- The factor of the normalisation, without the order of the weights. -/
theorem factorOf_aggregate (rows : List Contribution) (allowIncrease : Bool) :
    factorOf (aggregate rows) allowIncrease = normalizationFactor allowIncrease
      ((groupKeys Contribution.symbol rows).map
        (groupSum Contribution.symbol Contribution.weight rows)).sum
      ((groupKeys Contribution.symbol rows).map fun symbol =>
        |groupSum Contribution.symbol Contribution.weight rows symbol|).sum := by
  have hnet : netExposure (aggregate rows) = ((groupKeys Contribution.symbol rows).map
      (groupSum Contribution.symbol Contribution.weight rows)).sum := sum_aggregate rows id
  have hgross := sum_aggregate rows fun weight => |weight|
  rw [factorOf, hnet, grossExposure, hgross]

theorem finish_ok (hsome : rows ≠ [])
    (hlong : ∀ symbol ∈ groupKeys Contribution.symbol (allocator.cappedContributions rows),
      -tolerance ≤ groupSum Contribution.symbol Contribution.weight
        (allocator.cappedContributions rows) symbol) :
    ∃ result, allocator.finish rows = .ok result := by
  rw [finish, if_neg hsome, safeNormalizeWeights, if_neg]
  · exact ⟨_, rfl⟩
  · rintro ⟨-, w, hw, hnegative⟩
    rw [aggregate, List.mem_mergeSort] at hw
    obtain ⟨symbol, hsymbol, rfl⟩ := List.mem_map.mp hw
    exact absurd hnegative (not_lt.mpr (hlong symbol hsymbol))

end MultiAlphaAllocator

/-- The frames of two strategies, the first of which is long and short. -/
def mixedSignals (short : ℚ) : Signals where
  rows := [⟨"alpha_baseline", [⟨"AAPL", 1, 1 / 2⟩, ⟨"MSFT", 1, short⟩]⟩,
    ⟨"momentum", [⟨"MSFT", 1, 4 / 5⟩]⟩]
  keys_nodup := by
    change ["alpha_baseline", "momentum"].Nodup
    decide

def equalStats : Stats where
  rows := [⟨"alpha_baseline", some 1⟩, ⟨"momentum", some 1⟩]
  keys_nodup := by decide

def halfAllocator : MultiAlphaAllocator where
  method := .inverseVol
  perStrategyMax := 1 / 2
  allowShortPositions := false
  perStrategyMax_mem := by norm_num

/-- The contributions of the two strategies, with equal volatilities. -/
def mixedRows (short : ℚ) : List Contribution :=
  [⟨"AAPL", "alpha_baseline", 1 / 4⟩, ⟨"MSFT", "alpha_baseline", short⟩,
    ⟨"MSFT", "momentum", 2 / 5⟩]

theorem allocate_mixed {short : ℚ} {rows : List Contribution}
    (hrows : inverseVolContributions (mixedSignals short) equalStats = .ok rows)
    (hsome : rows ≠ []) (hlong : ∀ symbol ∈ groupKeys Contribution.symbol
      (halfAllocator.cappedContributions rows), -tolerance ≤
        groupSum Contribution.symbol Contribution.weight (halfAllocator.cappedContributions rows)
          symbol) :
    ∃ result, halfAllocator.allocate (mixedSignals short) (some equalStats) = .ok result := by
  obtain ⟨result, hresult⟩ : ∃ result, halfAllocator.finish rows = .ok result :=
    MultiAlphaAllocator.finish_ok hsome hlong
  refine ⟨result, ?_⟩
  change halfAllocator.inverseVol (mixedSignals short) equalStats = .ok result
  rw [MultiAlphaAllocator.inverseVol, hrows]
  exact hresult

end TradingPlatform.Portfolio
