import Mathlib.Tactic.FieldSimp
import Mathlib.Tactic.Linarith
import TradingPlatform.Base.Loops
import TradingPlatform.Portfolio.StrategyCaps

/-! # The rounds of the redistribution

What the caps leave over is handed out in rounds, to each eligible strategy in proportion to its
net exposure and up to its headroom. A round that uses up no headroom leaves no more than the
tolerance for each strategy that it skips, so that every round brings the end nearer.
-/

namespace TradingPlatform.Portfolio

open Base

/-! ## The loop for any tolerance -/

/-- `redistribute_tol` is `tol`. -/
def StrategyRow.allocationAt (tol : ℚ) (row : StrategyRow) (remaining distributionBase : ℚ) : ℚ :=
  let allocation := min (remaining * (row.netTotal / distributionBase)) row.headroom
  if allocation ≤ tol then 0 else allocation

def StrategyRow.hasRoomAt (tol : ℚ) (row : StrategyRow) : Bool :=
  row.headroom > tol ∧ row.netTotal > tol

/-- The state of the loop. The rows that are no longer eligible are kept in `dropped`. -/
structure Redistribution where
  remaining : ℚ
  eligible : List StrategyRow
  dropped : List StrategyRow
  allocatedLast : Option ℚ
  broken : Bool
  deriving DecidableEq, Repr

def Redistribution.running (tol : ℚ) (s : Redistribution) : Bool :=
  !s.broken && s.remaining > tol && s.eligible ≠ []

/-- One round, which breaks where the base or the allocation is within the tolerance. -/
def Redistribution.round (tol perStrategyMax : ℚ) (s : Redistribution) : Redistribution :=
  let distributionBase := (s.eligible.map StrategyRow.netTotal).sum
  if distributionBase ≤ tol then { s with broken := true }
  else
    let allocatedThisRound :=
      (s.eligible.map fun row => row.allocationAt tol s.remaining distributionBase).sum
    let rows := s.eligible.map fun row =>
      row.receive perStrategyMax (row.allocationAt tol s.remaining distributionBase)
    if allocatedThisRound ≤ tol then
      { s with eligible := rows, allocatedLast := some allocatedThisRound, broken := true }
    else
      { remaining := max 0 (s.remaining - allocatedThisRound)
        eligible := rows.filter (StrategyRow.hasRoomAt tol)
        dropped := s.dropped ++ rows.filter fun row => !row.hasRoomAt tol
        allocatedLast := some allocatedThisRound
        broken := false }

/-- The rows that are eligible at the start. -/
def eligibleAt (tol : ℚ) (rows : List StrategyRow) : List StrategyRow :=
  rows.filter fun row => row.scaleFactor ≥ 1 - 1 / 10 ^ 9 ∧ row.hasRoomAt tol

def Redistribution.start (tol : ℚ) (rows : List StrategyRow) : Redistribution where
  remaining := max 0 (1 - (rows.map StrategyRow.netTotal).sum)
  eligible := eligibleAt tol rows
  dropped := []
  allocatedLast := none
  broken := false

/-- All rows that were eligible, as they are now. -/
def Redistribution.rows (s : Redistribution) : List StrategyRow := s.dropped ++ s.eligible

/-- Nothing is left, or no headroom, or the last round had nothing to give. -/
def Redistribution.Exhausted (tol : ℚ) (s : Redistribution) : Prop :=
  s.remaining ≤ tol ∨ (∀ row ∈ s.rows, row.headroom ≤ tol) ∨
    ∃ allocated, s.allocatedLast = some allocated ∧ allocated ≤ tol

section Rounds

variable {tol perStrategyMax remaining base : ℚ} {row : StrategyRow} {s : Redistribution}

/-! ## One row -/

/-- An eligible row: its headroom is the room below the cap, and above the tolerance. -/
structure StrategyRow.Eligible (tol perStrategyMax : ℚ) (row : StrategyRow) : Prop where
  headroom : row.headroom = max 0 (perStrategyMax - row.grossTotal)
  room : tol < row.headroom
  net : tol < row.netTotal

theorem hasRoomAt_iff : row.hasRoomAt tol = true ↔ tol < row.headroom ∧ tol < row.netTotal := by
  simp [StrategyRow.hasRoomAt]

theorem allocationAt_cases (tol remaining base : ℚ) (row : StrategyRow) :
    (row.allocationAt tol remaining base = 0 ∧
        min (remaining * (row.netTotal / base)) row.headroom ≤ tol) ∨
      (tol < row.allocationAt tol remaining base ∧ row.allocationAt tol remaining base =
        min (remaining * (row.netTotal / base)) row.headroom) := by
  unfold StrategyRow.allocationAt
  dsimp only
  split_ifs with hsmall
  · exact Or.inl ⟨rfl, hsmall⟩
  · exact Or.inr ⟨not_le.mp hsmall, rfl⟩

theorem allocationAt_nonneg (htol : 0 ≤ tol) : 0 ≤ row.allocationAt tol remaining base := by
  rcases allocationAt_cases tol remaining base row with ⟨hzero, -⟩ | ⟨hlt, -⟩
  · exact hzero.ge
  · exact htol.trans hlt.le

theorem receive_spec (row : StrategyRow) (perStrategyMax allocation : ℚ) :
    (row.receive perStrategyMax allocation).netTotal = row.netTotal + allocation ∧
      (row.receive perStrategyMax allocation).strategyId = row.strategyId := by
  unfold StrategyRow.receive
  split_ifs with hzero
  · simp [hzero]
  · exact ⟨rfl, rfl⟩

/-- The headroom stays what the cap leaves. -/
theorem receive_headroom (h : row.headroom = max 0 (perStrategyMax - row.grossTotal))
    (allocation : ℚ) : (row.receive perStrategyMax allocation).headroom =
      max 0 (perStrategyMax - (row.receive perStrategyMax allocation).grossTotal) := by
  unfold StrategyRow.receive
  split_ifs
  · exact h
  · rfl

/-- A row that gets its headroom has none left. -/
theorem receive_full (htol : 0 ≤ tol) (h : row.Eligible tol perStrategyMax) :
    (row.receive perStrategyMax row.headroom).headroom = 0 := by
  have hroom := h.room
  have hheadroom := h.headroom
  have hne : row.headroom ≠ 0 := by linarith
  have hpos : 0 ≤ perStrategyMax - row.grossTotal := by
    by_contra hneg
    rw [max_eq_left (not_le.mp hneg).le] at hheadroom
    exact hne hheadroom
  rw [max_eq_right hpos] at hheadroom
  unfold StrategyRow.receive
  rw [if_neg hne]
  apply max_eq_left
  linarith

/-! ## One round -/

theorem running_iff : s.running tol = true ↔
    s.broken = false ∧ tol < s.remaining ∧ s.eligible ≠ [] := by
  simp [Redistribution.running, and_assoc]

/-- The eligible rows of a state, and what has become of the others. -/
structure Redistribution.Sound (tol perStrategyMax : ℚ) (s : Redistribution) : Prop where
  eligible : s.broken = false → ∀ row ∈ s.eligible, row.Eligible tol perStrategyMax
  dropped : ∀ row ∈ s.dropped, row.headroom ≤ tol
  broken : s.broken = true → ∃ allocated, s.allocatedLast = some allocated ∧ allocated ≤ tol

theorem base_pos (htol : 0 ≤ tol) {rows : List StrategyRow} (hne : rows ≠ [])
    (h : ∀ row ∈ rows, tol < row.netTotal) : tol < (rows.map StrategyRow.netTotal).sum := by
  obtain ⟨row, hrow⟩ := List.exists_mem_of_ne_nil rows hne
  have hnonneg : ∀ x ∈ rows.map StrategyRow.netTotal, 0 ≤ x := by
    intro x hx
    obtain ⟨other, hother, rfl⟩ := List.mem_map.mp hx
    exact (htol.trans_lt (h other hother)).le
  exact (h row hrow).trans_le (List.single_le_sum hnonneg _ (List.mem_map_of_mem hrow))

/-- The proposals of a round add up to what is left. -/
theorem sum_proposals (remaining : ℚ) {rows : List StrategyRow}
    (hbase : (rows.map StrategyRow.netTotal).sum ≠ 0) :
    (rows.map fun row =>
      remaining * (row.netTotal / (rows.map StrategyRow.netTotal).sum)).sum = remaining := by
  generalize hsum : (rows.map StrategyRow.netTotal).sum = base at hbase ⊢
  have hshare : ∀ row : StrategyRow,
      remaining * (row.netTotal / base) = row.netTotal * (remaining / base) := by
    intro row
    ring
  simp only [hshare, List.sum_map_mul_right, hsum]
  field_simp

/-- If each proposal exceeds the allocation by the tolerance at most, and one by nothing, not much
is left. -/
theorem sum_le_of_skipped {rows : List StrategyRow}
    {proposal allocation : StrategyRow → ℚ}
    (hall : ∀ row ∈ rows, proposal row ≤ allocation row + tol)
    (hone : ∃ row ∈ rows, proposal row ≤ allocation row) :
    (rows.map proposal).sum - (rows.map allocation).sum ≤ ((rows.length - 1 : ℕ) : ℚ) * tol := by
  induction rows with
  | nil =>
      obtain ⟨row, hrow, -⟩ := hone
      cases hrow
  | cons first rows ih =>
      rw [List.forall_mem_cons] at hall
      rw [List.map_cons, List.sum_cons, List.map_cons, List.sum_cons, List.length_cons,
        Nat.add_sub_cancel]
      have hrest : (rows.map proposal).sum - (rows.map allocation).sum ≤ rows.length * tol := by
        have hle := List.sum_le_sum hall.2
        rw [List.sum_map_add, List.map_const', List.sum_replicate, nsmul_eq_mul] at hle
        linarith
      by_cases hfirst : proposal first ≤ allocation first
      · linarith
      · obtain ⟨row, hrow, hle⟩ := hone
        rcases List.mem_cons.mp hrow with rfl | hrow
        · exact absurd hle hfirst
        · have htail := ih hall.2 ⟨row, hrow, hle⟩
          have hpos : 0 < rows.length := List.length_pos_of_mem hrow
          rw [Nat.cast_sub hpos, Nat.cast_one] at htail
          linarith [hall.1]

section Step

variable (htol : 0 ≤ tol) (hsound : s.Sound tol perStrategyMax) (hrunning : s.running tol = true)

include htol hsound hrunning

theorem round_eq : s.round tol perStrategyMax =
    (let base := (s.eligible.map StrategyRow.netTotal).sum
     let allocated := (s.eligible.map fun row => row.allocationAt tol s.remaining base).sum
     let rows := s.eligible.map fun row =>
       row.receive perStrategyMax (row.allocationAt tol s.remaining base)
     if allocated ≤ tol then
       { s with eligible := rows, allocatedLast := some allocated, broken := true }
     else
       { remaining := max 0 (s.remaining - allocated)
         eligible := rows.filter (StrategyRow.hasRoomAt tol)
         dropped := s.dropped ++ rows.filter fun row => !row.hasRoomAt tol
         allocatedLast := some allocated
         broken := false }) := by
  obtain ⟨hbroken, -, hne⟩ := running_iff.mp hrunning
  have hbase := base_pos htol hne fun row hrow => (hsound.eligible hbroken row hrow).net
  unfold Redistribution.round
  rw [if_neg (not_le.mpr hbase)]

theorem sound_round : (s.round tol perStrategyMax).Sound tol perStrategyMax := by
  obtain ⟨hbroken, -, -⟩ := running_iff.mp hrunning
  rw [round_eq htol hsound hrunning]
  generalize (s.eligible.map StrategyRow.netTotal).sum = base
  simp only
  split_ifs with hlast
  · exact ⟨fun h => by simp at h, hsound.dropped, fun _ => ⟨_, rfl, hlast⟩⟩
  · have hreceived : ∀ row' ∈ s.eligible.map (fun row =>
        row.receive perStrategyMax (row.allocationAt tol s.remaining base)),
        row'.headroom = max 0 (perStrategyMax - row'.grossTotal) ∧ tol < row'.netTotal := by
      intro row' hrow'
      obtain ⟨row, hrow, rfl⟩ := List.mem_map.mp hrow'
      have heligible := hsound.eligible hbroken row hrow
      refine ⟨receive_headroom heligible.headroom _, ?_⟩
      have hnonneg : 0 ≤ row.allocationAt tol s.remaining base := allocationAt_nonneg htol
      rw [(receive_spec _ _ _).1]
      linarith [heligible.net]
    constructor
    · intro _ row hrow
      obtain ⟨hmem, hroom⟩ := List.mem_filter.mp hrow
      exact ⟨(hreceived row hmem).1, (hasRoomAt_iff.mp hroom).1, (hasRoomAt_iff.mp hroom).2⟩
    · intro row hrow
      rcases List.mem_append.mp hrow with hdropped | hrow
      · exact hsound.dropped row hdropped
      · obtain ⟨hmem, hroom⟩ := List.mem_filter.mp hrow
        by_contra hlarge
        have hkept := hasRoomAt_iff.mpr ⟨not_le.mp hlarge, (hreceived row hmem).2⟩
        simp [hkept] at hroom
    · intro h
      simp at h

end Step

/-- The loop ends within `n` rounds. -/
def Redistribution.EndsBy (tol : ℚ) (s : Redistribution) (n : ℕ) : Prop :=
  s.broken = true ∨ s.eligible.length ≤ n ∨ s.remaining ≤ (n + 1) * tol

theorem not_endsBy_zero (hrunning : s.running tol = true) : ¬ s.EndsBy tol 0 := by
  obtain ⟨hbroken, hremaining, hne⟩ := running_iff.mp hrunning
  rintro (h | h | h)
  · simp [hbroken] at h
  · exact hne (List.length_eq_zero_iff.mp (by omega))
  · rw [Nat.cast_zero, zero_add, one_mul] at h
    linarith

/-- A round that goes on has used up a row, or left the tolerance for each row it skipped. -/
theorem endsBy_round (htol : 0 ≤ tol) (hsound : s.Sound tol perStrategyMax)
    (hrunning : s.running tol = true) {n : ℕ} (h : s.EndsBy tol (n + 1)) :
    (s.round tol perStrategyMax).EndsBy tol n := by
  obtain ⟨hbroken, hremaining, hne⟩ := running_iff.mp hrunning
  have heligible := hsound.eligible hbroken
  have hbase := base_pos htol hne fun row hrow => (heligible row hrow).net
  have hproposals := sum_proposals s.remaining (htol.trans_lt hbase).ne'
  rw [round_eq htol hsound hrunning]
  generalize (s.eligible.map StrategyRow.netTotal).sum = base at hbase hproposals ⊢
  simp only
  split_ifs with hlast
  · exact Or.inl rfl
  have hlarge := not_le.mp hlast
  rcases h with h | h | h
  · simp [hbroken] at h
  · by_cases hfull : ∃ row ∈ s.eligible, row.allocationAt tol s.remaining base = row.headroom
    · -- the row that is used up is dropped
      obtain ⟨row, hrow, hallocation⟩ := hfull
      right
      left
      have hlength : (s.eligible.map fun row => row.receive perStrategyMax
          (row.allocationAt tol s.remaining base)).length = s.eligible.length := List.length_map _
      have hlt : ((s.eligible.map fun row => row.receive perStrategyMax
          (row.allocationAt tol s.remaining base)).filter (StrategyRow.hasRoomAt tol)).length <
            s.eligible.length := by
        rw [← hlength, List.length_filter_lt_length_iff_exists]
        refine ⟨_, List.mem_map_of_mem hrow, ?_⟩
        rw [hallocation, hasRoomAt_iff, receive_full htol (heligible row hrow)]
        intro hroom
        exact absurd hroom.1 (not_lt.mpr htol)
      simp only
      omega
    · -- each row got its proposal or was skipped for less than the tolerance
      right
      right
      have hcases : ∀ row ∈ s.eligible,
          s.remaining * (row.netTotal / base) ≤ row.allocationAt tol s.remaining base + tol ∧
            (tol < row.allocationAt tol s.remaining base →
              s.remaining * (row.netTotal / base) ≤ row.allocationAt tol s.remaining base) := by
        intro row hrow
        have hnot : row.allocationAt tol s.remaining base ≠ row.headroom :=
          fun heq => hfull ⟨row, hrow, heq⟩
        have hroom := (heligible row hrow).room
        rcases allocationAt_cases tol s.remaining base row with ⟨hzero, hmin⟩ | ⟨hgiven, hmin⟩
        · rw [hzero]
          have hsmall : s.remaining * (row.netTotal / base) ≤ tol := by
            rcases min_le_iff.mp hmin with hsmall | hsmall
            · exact hsmall
            · exact absurd hsmall (not_le.mpr hroom)
          exact ⟨by linarith, fun hlt => absurd hlt (not_lt.mpr htol)⟩
        · rcases min_choice (s.remaining * (row.netTotal / base)) row.headroom with hleft | hright
          · rw [hmin, hleft]
            exact ⟨by linarith, fun _ => le_rfl⟩
          · exact absurd (hmin.trans hright) hnot
      have hgiven : ∃ row ∈ s.eligible, tol < row.allocationAt tol s.remaining base := by
        by_contra hnone
        have hzero : ∀ x ∈ s.eligible.map (fun row => row.allocationAt tol s.remaining base),
            x = 0 := by
          intro x hx
          obtain ⟨row, hrow, rfl⟩ := List.mem_map.mp hx
          rcases allocationAt_cases tol s.remaining base row with ⟨hzero, -⟩ | ⟨hlt, -⟩
          · exact hzero
          · exact absurd ⟨row, hrow, hlt⟩ hnone
        rw [List.sum_eq_zero hzero] at hlarge
        linarith
      obtain ⟨row, hrow, hrowGiven⟩ := hgiven
      have hleft := sum_le_of_skipped (fun row hrow => (hcases row hrow).1)
        ⟨row, hrow, (hcases row hrow).2 hrowGiven⟩
      rw [hproposals] at hleft
      have hcount : ((s.eligible.length - 1 : ℕ) : ℚ) ≤ n := by
        exact_mod_cast (by omega : s.eligible.length - 1 ≤ n)
      have hbound := mul_le_mul_of_nonneg_right hcount htol
      simp only
      apply max_le
      · positivity
      · linarith
  · -- each round that goes on takes more than the tolerance from what is left
    right
    right
    rw [Nat.cast_add, Nat.cast_one] at h
    simp only
    apply max_le
    · positivity
    · linarith

/-! ## All rounds -/

theorem sound_start {rows : List StrategyRow}
    (hrows : ∀ row ∈ rows, row.headroom = max 0 (perStrategyMax - row.grossTotal)) :
    (Redistribution.start tol rows).Sound tol perStrategyMax := by
  constructor
  · intro _ row hrow
    obtain ⟨hmem, hkept⟩ := List.mem_filter.mp hrow
    simp only [Bool.decide_and, Bool.and_eq_true, decide_eq_true_eq] at hkept
    exact ⟨hrows row hmem, (hasRoomAt_iff.mp hkept.2).1, (hasRoomAt_iff.mp hkept.2).2⟩
  · intro row hrow
    cases hrow
  · intro h
    cases h

/-- The rows stay the same strategies. -/
theorem strategyIds_round (tol perStrategyMax : ℚ) (s : Redistribution) :
    ((s.round tol perStrategyMax).rows.map StrategyRow.strategyId).Perm
      (s.rows.map StrategyRow.strategyId) := by
  unfold Redistribution.round Redistribution.rows
  generalize (s.eligible.map StrategyRow.netTotal).sum = base
  have hids : (s.eligible.map fun row => row.receive perStrategyMax
      (row.allocationAt tol s.remaining base)).map StrategyRow.strategyId =
        s.eligible.map StrategyRow.strategyId := by
    rw [List.map_map]
    apply List.map_congr_left
    intro row _
    exact (receive_spec _ _ _).2
  simp only
  split_ifs
  · exact .refl _
  · simp only [List.map_append, hids]
    exact .refl _
  · simp only [List.append_assoc, List.map_append]
    apply List.Perm.append_left
    rw [← List.map_append, ← hids]
    have hsplit := List.filter_append_perm (fun row => !row.hasRoomAt tol)
      (s.eligible.map fun row => row.receive perStrategyMax
        (row.allocationAt tol s.remaining base))
    simp only [Bool.not_not] at hsplit
    exact hsplit.map _

/-- At the end nothing is left to hand out, or to hand it to. -/
theorem exhausted_of_sound (hsound : s.Sound tol perStrategyMax) (h : s.running tol = false) :
    s.Exhausted tol := by
  unfold Redistribution.Exhausted
  cases hbroken : s.broken with
  | true => exact Or.inr (Or.inr (hsound.broken hbroken))
  | false =>
      by_cases hremaining : tol < s.remaining
      · have hnone : s.eligible = [] := by
          by_contra hne
          rw [running_iff.mpr ⟨hbroken, hremaining, hne⟩] at h
          cases h
        right
        left
        intro row hrow
        rw [Redistribution.rows, hnone, List.append_nil] at hrow
        exact hsound.dropped row hrow
      · exact Or.inl (not_lt.mp hremaining)

end Rounds

/-! ## The loop of the allocator -/

/-- One unfolding of `redistribute` is one round at the tolerance of the source. -/
theorem redistribute_round {perStrategyMax : ℚ} {s : Redistribution}
    (hrunning : s.running redistributeTol = true) (fuel : ℕ) :
    s.dropped ++ redistribute perStrategyMax (fuel + 1) s.remaining s.eligible =
      let next := s.round redistributeTol perStrategyMax
      if next.broken then next.rows
      else next.dropped ++ redistribute perStrategyMax fuel next.remaining next.eligible := by
  obtain ⟨hbroken, hremaining, hne⟩ := running_iff.mp hrunning
  have hgo : ¬ (s.remaining ≤ redistributeTol ∨ s.eligible = []) := by
    rw [not_or, not_le]
    exact ⟨hremaining, hne⟩
  have hallocation : ∀ (row : StrategyRow) (base : ℚ), row.allocation s.remaining base =
      row.allocationAt redistributeTol s.remaining base := fun _ _ => rfl
  have hroom : StrategyRow.hasRoom = StrategyRow.hasRoomAt redistributeTol := rfl
  rw [redistribute, if_neg hgo]
  unfold Redistribution.round
  simp only [hallocation, hroom]
  generalize (s.eligible.map StrategyRow.netTotal).sum = base
  by_cases hbase : base ≤ redistributeTol
  · simp [hbase, Redistribution.rows]
  · simp only [hbase, if_false]
    by_cases hlast : (s.eligible.map fun row =>
        row.allocationAt redistributeTol s.remaining base).sum ≤ redistributeTol
    · simp [hlast, Redistribution.rows]
    · simp [hlast]

/-- The rounds of the loop are those of `redistribute`, if it has enough of them. -/
theorem redistribute_eq_rows {perStrategyMax : ℚ} {s s' : Redistribution} {rounds fuel : ℕ}
    (h : LoopEnds (Redistribution.running redistributeTol)
      (Redistribution.round redistributeTol perStrategyMax) s rounds s')
    (hbroken : s.broken = false) (hfuel : rounds ≤ fuel) :
    s.dropped ++ redistribute perStrategyMax fuel s.remaining s.eligible = s'.rows := by
  induction h generalizing fuel with
  | @done s hdone =>
      have hstop : s.remaining ≤ redistributeTol ∨ s.eligible = [] := by
        by_contra hgo
        rw [not_or, not_le] at hgo
        rw [running_iff.mpr ⟨hbroken, hgo⟩] at hdone
        cases hdone
      cases fuel with
      | zero => rfl
      | succ fuel => rw [redistribute, if_pos hstop, Redistribution.rows]
  | @round s s' rounds hrunning rest ih =>
      cases fuel with
      | zero => omega
      | succ fuel =>
          rw [redistribute_round hrunning]
          simp only
          split_ifs with hnext
          · have hdone : (s.round redistributeTol perStrategyMax).running redistributeTol =
                false := by simp [Redistribution.running, hnext]
            rw [(rest.unique (.done hdone)).2]
          · exact ih (by simpa using hnext) (Nat.le_of_succ_le_succ hfuel)

theorem MultiAlphaAllocator.redistributed_eq_rows {allocator : MultiAlphaAllocator}
    {contributions : List Contribution} {rounds : ℕ} {s : Redistribution}
    (h : LoopEnds (Redistribution.running redistributeTol)
      (Redistribution.round redistributeTol allocator.perStrategyMax)
      (.start redistributeTol (allocator.strategyRows contributions)) rounds s) :
    allocator.redistributed contributions = s.rows := by
  have henough : allocator.remaining contributions ≤
      (maxRounds (allocator.remaining contributions) : ℕ) * redistributeTol := by
    have hfloor := Nat.lt_floor_add_one (allocator.remaining contributions / redistributeTol)
    rw [div_lt_iff₀ redistributeTol_pos] at hfloor
    rw [maxRounds, Nat.cast_add, Nat.cast_one]
    exact hfloor.le
  rw [MultiAlphaAllocator.redistributed, ← redistribute_rounds rounds (Or.inl henough)]
  exact redistribute_eq_rows h rfl (Nat.le_add_left _ _)

/-- The loop takes no more rounds than there are eligible strategies, and stops only where nothing
can be handed out. -/
theorem redistribution_ends (tol perStrategyMax : ℚ) (htol : 0 ≤ tol) (rows : List StrategyRow)
    (hrows : ∀ row ∈ rows, row.headroom = max 0 (perStrategyMax - row.grossTotal)) :
    ∃ rounds ≤ (eligibleAt tol rows).length + 1, ∃ s,
      LoopEnds (Redistribution.running tol) (Redistribution.round tol perStrategyMax)
        (.start tol rows) rounds s ∧
      (s.rows.map StrategyRow.strategyId).Perm
        ((eligibleAt tol rows).map StrategyRow.strategyId) ∧
      s.Exhausted tol := by
  have hstart : (Redistribution.start tol rows).Sound tol perStrategyMax := sound_start hrows
  have hround : ∀ s : Redistribution, s.Sound tol perStrategyMax → s.running tol = true →
      (s.round tol perStrategyMax).Sound tol perStrategyMax :=
    fun s hsound hrunning => sound_round htol hsound hrunning
  obtain ⟨rounds, hle, s, hends⟩ := exists_loopEnds hround
    (fun s _ hrunning => not_endsBy_zero hrunning)
    (fun s n hsound hrunning h => endsBy_round htol hsound hrunning h) hstart
    (Or.inr (Or.inl (le_refl (eligibleAt tol rows).length)))
  obtain ⟨hsound, hdone⟩ := hends.invariant hround hstart
  obtain ⟨hids, -⟩ := hends.invariant (I := fun s => (s.rows.map StrategyRow.strategyId).Perm
    ((eligibleAt tol rows).map StrategyRow.strategyId))
    (fun s hs _ => (strategyIds_round tol perStrategyMax s).trans hs) (.refl _)
  exact ⟨rounds, hle.trans (Nat.le_succ _), s, hends, hids, exhausted_of_sound hsound hdone⟩

/-- One strategy has little headroom and the other little exposure, under a cap of two fifths. -/
def unevenRows : List StrategyRow :=
  [⟨"momentum", 3 / 10, 3 / 10, 1, 1 / 10, 0, 3 / 10⟩,
    ⟨"alpha_baseline", 1 / 10, 1 / 10, 1, 3 / 10, 0, 1 / 10⟩]

theorem redistribution_ends_uneven :
    ∃ rounds ≤ (eligibleAt (1 / 10 ^ 12) unevenRows).length + 1, ∃ s,
      LoopEnds (Redistribution.running (1 / 10 ^ 12))
        (Redistribution.round (1 / 10 ^ 12) (2 / 5)) (.start (1 / 10 ^ 12) unevenRows) rounds s ∧
      (s.rows.map StrategyRow.strategyId).Perm
        ((eligibleAt (1 / 10 ^ 12) unevenRows).map StrategyRow.strategyId) ∧
      s.Exhausted (1 / 10 ^ 12) :=
  redistribution_ends (1 / 10 ^ 12) (2 / 5) (by decide +kernel) unevenRows (by decide +kernel)

end TradingPlatform.Portfolio
