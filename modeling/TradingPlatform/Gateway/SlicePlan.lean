import Mathlib.Algebra.BigOperators.Ring.Finset
import Mathlib.Algebra.Order.Floor.Div
import TradingPlatform.Base.Delimited
import TradingPlatform.Base.Fallible
import TradingPlatform.Gateway.OrderSlicer

/-! # The plan as a split

With the two quotients taken exactly, an accepted plan splits the quantity into
nearly equal slices within the cap and the duration, under ids that all differ.
A plan is refused for an invalid argument or because its count does not fit.
-/

namespace TradingPlatform.Gateway

open Base

/-- The quotients that the plan rounds up are exact, and within the range of a double. -/
structure ExactQuotients (qty durationMinutes intervalSeconds : ℕ) (maxSliceQty : Option ℕ) :
    Prop where
  base : overflows ((durationMinutes * 60 : ℕ) / intervalSeconds) = false ∧
    ceilQuotient (durationMinutes * 60) intervalSeconds = durationMinutes * 60 ⌈/⌉ intervalSeconds
  liquidity : ∀ c ∈ maxSliceQty, overflows (qty / c) = false ∧ ceilQuotient qty c = qty ⌈/⌉ c

def exactBase (durationMinutes intervalSeconds : ℕ) : ℕ :=
  max 1 (durationMinutes * 60 ⌈/⌉ intervalSeconds)

/-- The larger of the counts for the duration and for the cap. -/
def exactCount (qty durationMinutes intervalSeconds : ℕ) (maxSliceQty : Option ℕ) : ℕ :=
  max (exactBase durationMinutes intervalSeconds)
    (maxSliceQty.elim 0 fun c => max 1 (qty ⌈/⌉ c))

/-- The count leaves a slice without a share or, raised by the cap, slices in one second. -/
def Infeasible (qty durationMinutes intervalSeconds : ℕ) (maxSliceQty : Option ℕ) : Prop :=
  let n := exactCount qty durationMinutes intervalSeconds maxSliceQty
  qty < n ∨ (exactBase durationMinutes intervalSeconds < n ∧ durationMinutes * 60 / (n - 1) < 1)

/-- A price of more than 28 digits in cents. -/
def TooLong (price : Price) : Prop := 10 ^ 28 ≤ ⌊price.val.toRat * 100 + 1 / 2⌋

def InvalidArgument (p : OrderParams) (durationMinutes intervalSeconds : ℕ)
    (maxSliceQty : Option ℕ) : Prop :=
  p.qty < 1 ∨ durationMinutes < 1 ∨ intervalSeconds < 1 ∨ maxSliceQty = some 0 ∨
    (p.orderType ∈ [.limit, .stopLimit] ∧ p.limitPrice = none) ∨
    (p.orderType ∈ [.stop, .stopLimit] ∧ p.stopPrice = none) ∨
    (∃ price ∈ p.limitPrice, TooLong price) ∨ ∃ price ∈ p.stopPrice, TooLong price

/-- What the slices of a plan are. -/
structure FaithfulSplit (p : OrderParams) (durationMinutes : ℕ) (maxSliceQty : Option ℕ)
    (now : Timestamp) (plan : SlicingPlan) : Prop where
  positive : ∀ s ∈ plan.slices, 0 < s.qty
  total : (plan.slices.map SliceDetail.qty).sum = p.qty
  even : ∀ s ∈ plan.slices, ∀ t ∈ plan.slices, s.qty ≤ t.qty + 1
  capped : ∀ c ∈ maxSliceQty, ∀ s ∈ plan.slices, s.qty ≤ c
  numbered : plan.slices.map SliceDetail.sliceNum = List.range plan.totalSlices
  starts : (plan.slices.map SliceDetail.scheduledTime).head? = some now
  increasing : (plan.slices.map SliceDetail.scheduledTime).Pairwise (· < ·)
  within : ∀ s ∈ plan.slices, s.scheduledTime ≤ now + durationMinutes * 60 * second
  ids : (plan.parentOrderId :: plan.slices.map SliceDetail.clientOrderId).Nodup

/-! ## One share more at some indices -/

section Quantities

variable {l : List ℕ} {i j : ℕ}

theorem sum_modify (h : i < l.length) : (l.modify i (· + 1)).sum = l.sum + 1 := by
  induction l generalizing i with
  | nil => cases h
  | cons a l ih =>
      cases i with
      | zero =>
          rw [List.modify_zero_cons, List.sum_cons, List.sum_cons]
          omega
      | succ i =>
          rw [List.modify_succ_cons, List.sum_cons, List.sum_cons, ih (Nat.lt_of_succ_lt_succ h)]
          omega

theorem length_spread (is : List ℕ) :
    (is.foldl (fun qtys i => qtys.modify i (· + 1)) l).length = l.length := by
  induction is generalizing l with
  | nil => rfl
  | cons i is ih => rw [List.foldl_cons, ih, List.length_modify]

theorem sum_spread {is : List ℕ} (h : ∀ i ∈ is, i < l.length) :
    (is.foldl (fun qtys i => qtys.modify i (· + 1)) l).sum = l.sum + is.length := by
  induction is generalizing l with
  | nil => rfl
  | cons i is ih =>
      have hrest : ∀ k ∈ is, k < (l.modify i (· + 1)).length := by
        intro k hk
        rw [List.length_modify]
        exact h k (List.mem_cons_of_mem _ hk)
      rw [List.foldl_cons, ih hrest, sum_modify (h i List.mem_cons_self), List.length_cons]
      omega

theorem getElem?_spread (is : List ℕ) :
    (is.foldl (fun qtys i => qtys.modify i (· + 1)) l)[j]? = l[j]?.map (· + is.count j) := by
  induction is generalizing l with
  | nil => simp
  | cons i is ih =>
      rw [List.foldl_cons, ih, List.getElem?_modify, List.count_cons]
      cases l[j]? with
      | none => rfl
      | some q =>
          by_cases hij : i = j
          · simp [hij]
            omega
          · simp [hij]

variable {lib : Hashing} {p : OrderParams} {d : ℕ} {s : Spacing} {tradeDate : Option Date}

theorem length_sliceQtys : (sliceQtys lib p d s tradeDate).length = s.numSlices := by
  rw [sliceQtys, length_spread, List.length_replicate]

theorem sum_sliceQtys (hn : 0 < s.numSlices) : (sliceQtys lib p d s tradeDate).sum = p.qty := by
  have hrest : p.qty % s.numSlices ≤ s.numSlices := (Nat.mod_lt _ hn).le
  have hsplit := Nat.div_add_mod p.qty s.numSlices
  simp only [sliceQtys]
  split
  · rw [sum_spread]
    · rw [lib.sample_length _ _ _ hrest, List.sum_replicate, smul_eq_mul]
      exact hsplit
    · intro i hi
      rw [List.length_replicate]
      exact lib.sample_lt _ _ _ i hi
  · rw [List.foldl_nil, List.sum_replicate, smul_eq_mul]
    omega

/-- A slice has the quotient, or one share more where there is a remainder. -/
theorem mem_sliceQtys {q : ℕ} (h : q ∈ sliceQtys lib p d s tradeDate) :
    p.qty / s.numSlices ≤ q ∧ q ≤ p.qty / s.numSlices + 1 ∧
      (p.qty % s.numSlices = 0 → q = p.qty / s.numSlices) := by
  obtain ⟨j, hj⟩ := List.mem_iff_getElem?.mp h
  simp only [sliceQtys] at hj
  rw [getElem?_spread, List.getElem?_replicate] at hj
  by_cases hindex : j < s.numSlices
  · rw [if_pos hindex, Option.map_some, Option.some.injEq] at hj
    by_cases hrest : 0 < p.qty % s.numSlices
    · have honce := List.nodup_iff_count_le_one.mp
        (lib.sample_nodup (lib.seed (seedText p d s.intervalSeconds tradeDate)) s.numSlices
          (p.qty % s.numSlices)) j
      rw [if_pos hrest] at hj
      omega
    · rw [if_neg hrest, List.count_nil] at hj
      omega
  · rw [if_neg hindex] at hj
    cases hj

end Quantities

/-! ## The slices of an accepted plan -/

section Slices

variable {lib : Hashing} {p : OrderParams} {d i : ℕ} {cap : Option ℕ} {tradeDate : Option Date}
  {now : Timestamp} {today : Date} {r : SlicingPlan}

/-- The slice of a quantity at an index. -/
structure SliceOf (lib : Hashing) (p : OrderParams) (parentOrderId : String) (orderDate : Date)
    (intervalSeconds : ℕ) (now : Timestamp) (q j : ℕ) (s : SliceDetail) : Prop where
  qty : s.qty = q
  sliceNum : s.sliceNum = j
  scheduledTime : s.scheduledTime = now + j * intervalSeconds * second
  clientOrderId : reconstructOrderParamsHash lib { p with qty := q }
    ("twap_slice_" ++ parentOrderId ++ "_" ++ toString j) orderDate = .ok s.clientOrderId

theorem makeSlice_ok {parentOrderId : String} {orderDate : Date} {interval q j : ℕ}
    {s : SliceDetail}
    (h : makeSlice lib p parentOrderId orderDate interval now j q = .ok s) :
    SliceOf lib p parentOrderId orderDate interval now q j s := by
  unfold makeSlice at h
  obtain ⟨id, hid, h⟩ := Except.bind_ok h
  split at h
  · cases h
    exact ⟨rfl, rfl, rfl, hid⟩
  · cases h

/-- What an accepted plan is made of. -/
structure Planned (lib : Hashing) (p : OrderParams) (d i : ℕ) (cap : Option ℕ)
    (tradeDate : Option Date) (now : Timestamp) (today : Date) (r : SlicingPlan) (s : Spacing) :
    Prop where
  arguments : checkArguments p.qty d i = .ok ()
  spacing : spacing p.qty d i cap = .ok s
  qty : s.numSlices ≤ p.qty
  totalSlices : r.totalSlices = s.numSlices
  parent : reconstructOrderParamsHash lib p (parentStrategyId d s.intervalSeconds)
    (tradeDate.getD today) = .ok r.parentOrderId
  slices : List.Forall₂ (fun (x : ℕ × ℕ) => SliceOf lib p r.parentOrderId (tradeDate.getD today)
    s.intervalSeconds now x.1 x.2) (sliceQtys lib p d s tradeDate).zipIdx r.slices

theorem plan_planned (h : plan lib p d i cap tradeDate now today = .ok r) :
    ∃ s, Planned lib p d i cap tradeDate now today r s := by
  unfold plan at h
  obtain ⟨u, hargs, h⟩ := Except.bind_ok h
  obtain ⟨s, hspacing, h⟩ := Except.bind_ok h
  obtain ⟨u', hqty, h⟩ := Except.bind_ok h
  obtain ⟨-, -, h⟩ := Except.bind_ok h
  obtain ⟨parentOrderId, hparent, h⟩ := Except.bind_ok h
  obtain ⟨slices, hslices, h⟩ := Except.bind_ok h
  cases h
  refine ⟨s, hargs, hspacing, ?_, rfl, hparent, ?_⟩
  · unfold checkQty at hqty
    split at hqty
    · cases hqty
    · omega
  · exact (mapM_ok hslices).imp fun _ _ hslice => makeSlice_ok hslice

variable {s : Spacing}

theorem Planned.qtys (h : Planned lib p d i cap tradeDate now today r s) :
    r.slices.map SliceDetail.qty =
      (sliceQtys lib p d s tradeDate).map fun q : ℕ => (q : ℤ) := by
  rw [map_eq_of_forall₂ (f := fun x : ℕ × ℕ => (x.1 : ℤ)) h.slices fun _ _ hs => hs.qty]
  have hfst := List.zipIdx_map_fst 0 (sliceQtys lib p d s tradeDate)
  conv_rhs => rw [← hfst, List.map_map]
  rfl

theorem sliceQtys_indices : (sliceQtys lib p d s tradeDate).zipIdx.map Prod.snd =
    List.range s.numSlices := by
  rw [List.zipIdx_map_snd, length_sliceQtys, List.range_eq_range']

theorem Planned.times (h : Planned lib p d i cap tradeDate now today r s) :
    r.slices.map SliceDetail.scheduledTime =
      (List.range s.numSlices).map fun j : ℕ => now + j * s.intervalSeconds * second := by
  rw [map_eq_of_forall₂ (f := fun x : ℕ × ℕ => now + x.2 * s.intervalSeconds * second) h.slices
    fun _ _ hs => hs.scheduledTime, ← sliceQtys_indices, List.map_map]
  rfl

theorem Planned.numbers (h : Planned lib p d i cap tradeDate now today r s) :
    r.slices.map SliceDetail.sliceNum = List.range s.numSlices := by
  rw [map_eq_of_forall₂ h.slices fun _ _ hs => hs.sliceNum]
  exact sliceQtys_indices

/-! ## Ids -/

/-- The hashed text of a child ends with its index. -/
theorem child_text {q j : ℕ} {parentOrderId id : String} {orderDate : Date}
    (h : reconstructOrderParamsHash lib { p with qty := q }
      ("twap_slice_" ++ parentOrderId ++ "_" ++ toString j) orderDate = .ok id) :
    ∃ before, id = lib.orderId
      (before ++ ("_" ++ (toString j ++ ("|" ++ orderDate.isoformat)))) := by
  unfold reconstructOrderParamsHash at h
  obtain ⟨text, -, h⟩ := Except.bind_ok h
  cases h
  refine ⟨text ++ ("twap_slice_" ++ parentOrderId), congrArg lib.orderId ?_⟩
  simp only [String.append_assoc]

theorem parent_text {strategyId id : String} {orderDate : Date}
    (h : reconstructOrderParamsHash lib p strategyId orderDate = .ok id) :
    ∃ text, id = lib.orderId (text ++ (strategyId ++ ("|" ++ orderDate.isoformat))) := by
  unfold reconstructOrderParamsHash at h
  obtain ⟨text, -, h⟩ := Except.bind_ok h
  cases h
  exact ⟨text, rfl⟩

/-- The index is what stands after the last underscore. -/
theorem index_of_text {before before' : String} {j k : ℕ} {after : String}
    (h : before ++ ("_" ++ (toString j ++ after)) = before' ++ ("_" ++ (toString k ++ after))) :
    j = k := by
  simp only [← String.append_assoc, String.append_left_inj] at h
  have hlist := congrArg String.toList h
  simp only [String.toList_append, List.append_assoc] at hlist
  exact toString_toList_inj (append_cons_right_inj (d := '_') (not_mem_toString (by decide))
    (not_mem_toString (by decide)) hlist).2

/-- A child's text ends with a digit before the date, the parent's with a letter. -/
theorem child_ne_parent {before text after : String} {j d interval : ℕ} :
    before ++ ("_" ++ (toString j ++ after)) ≠
      text ++ (parentStrategyId d interval ++ after) := by
  intro h
  unfold parentStrategyId at h
  simp only [← String.append_assoc, String.append_left_inj] at h
  have hlist := congrArg String.toList h
  simp only [String.toList_append] at hlist
  have hlast := congrArg List.getLast? hlist
  have hdigits : (toString j).toList ≠ [] := by
    rw [Nat.toString_eq_ofList_toDigits, String.toList_ofList]
    exact Nat.toDigits_ne_nil
  rw [List.getLast?_append_of_ne_nil _ hdigits, List.getLast?_append_of_ne_nil _ (by decide)]
    at hlast
  have hmem := List.mem_of_getLast? hlast
  exact absurd (isDigit_of_mem_toString hmem) (by decide)

theorem Planned.child (h : Planned lib p d i cap tradeDate now today r s) {slice : SliceDetail}
    (hslice : slice ∈ r.slices) : ∃ before, slice.clientOrderId = lib.orderId
      (before ++ ("_" ++ (toString slice.sliceNum ++
        ("|" ++ (tradeDate.getD today).isoformat)))) := by
  obtain ⟨x, -, hx⟩ := exists_left_of_forall₂ h.slices hslice
  rw [hx.sliceNum]
  exact child_text hx.clientOrderId

theorem Planned.ids (injective : Function.Injective lib.orderId)
    (h : Planned lib p d i cap tradeDate now today r s) :
    (r.parentOrderId :: r.slices.map SliceDetail.clientOrderId).Nodup := by
  rw [List.nodup_cons]
  constructor
  · intro hmem
    obtain ⟨slice, hslice, heq⟩ := List.mem_map.mp hmem
    obtain ⟨before, hchild⟩ := h.child hslice
    obtain ⟨text, hparent⟩ := parent_text h.parent
    rw [hchild, hparent] at heq
    exact child_ne_parent (injective heq)
  · have hnumbers : (r.slices.map SliceDetail.sliceNum).Nodup := by
      rw [h.numbers]
      exact List.nodup_range
    rw [List.nodup_iff_pairwise_ne, List.pairwise_map] at hnumbers ⊢
    apply hnumbers.imp_of_mem
    intro slice other hslice hother hne heq
    obtain ⟨before, hchild⟩ := h.child hslice
    obtain ⟨before', hchild'⟩ := h.child hother
    rw [hchild, hchild'] at heq
    exact hne (index_of_text (injective heq))

end Slices

/-! ## Counts and times -/

section Counts

variable {lib : Hashing} {p : OrderParams} {d i : ℕ} {cap : Option ℕ} {tradeDate : Option Date}
  {now : Timestamp} {today : Date} {r : SlicingPlan} {s : Spacing}

theorem checkArguments_ok {qty : ℕ} (h : checkArguments qty d i = .ok ()) :
    0 < qty ∧ 0 < d ∧ 0 < i := by
  unfold checkArguments at h
  split at h
  · cases h
  · split at h
    · cases h
    · split at h
      · cases h
      · omega

theorem liquiditySlices_eq {qty : ℕ} (hexact : ExactQuotients qty d i cap) :
    liquiditySlices qty cap = cap.elim 0 fun c => max 1 (qty ⌈/⌉ c) := by
  cases cap with
  | none => rfl
  | some c => exact congrArg (max 1) (hexact.liquidity c rfl).2

theorem baseSlices_eq {qty : ℕ} (hexact : ExactQuotients qty d i cap) :
    baseSlices d i = exactBase d i := congrArg (max 1) hexact.base.2

/-- With exact quotients, what is capped fits: a slice is no larger than the cap. -/
theorem qty_le_of_count {qty n c : ℕ} (hc : 0 < c) (hn : qty ⌈/⌉ c ≤ n) : qty ≤ c * n :=
  (ceilDiv_le_iff_le_mul hc).mp hn

/-- One interval less than the slices fits in the duration. -/
theorem span_le {qty : ℕ} (hexact : ExactQuotients qty d i cap) (hi : 0 < i)
    (h : spacing qty d i cap = .ok s) : (s.numSlices - 1) * s.intervalSeconds ≤ d * 60 := by
  obtain ⟨hcount, hinterval⟩ := spacing_ok h
  rw [hcount, hinterval]
  split
  · rename_i hbase
    rw [Nat.max_eq_left hbase, baseSlices_eq hexact, exactBase]
    by_cases hone : d * 60 ⌈/⌉ i ≤ 1
    · rw [Nat.max_eq_left hone]
      simp
    · rw [Nat.max_eq_right (by omega)]
      -- the count less one is too small to be the rounded quotient
      have hless : ¬d * 60 ⌈/⌉ i ≤ d * 60 ⌈/⌉ i - 1 := by omega
      rw [ceilDiv_le_iff_le_mul hi] at hless
      rw [Nat.mul_comm]
      omega
  · rename_i hbase
    rw [Nat.max_eq_right (by omega)]
    exact Nat.mul_div_le _ _

/-- A plan with more than one slice leaves at least a second between two of them. -/
theorem interval_pos (hi : 0 < i) {qty : ℕ} (h : spacing qty d i cap = .ok s) :
    0 < s.intervalSeconds := by
  unfold spacing at h
  simp only at h
  split at h
  · cases h
  · split at h
    · cases h
    · split at h
      · cases h
        exact hi
      · split at h
        · cases h
        · cases h
          simp only
          omega

theorem numSlices_pos {qty : ℕ} (h : spacing qty d i cap = .ok s) : 0 < s.numSlices := by
  rw [(spacing_ok h).1]
  unfold baseSlices
  omega

theorem cap_pos {qty c : ℕ} (h : spacing qty d i (some c) = .ok s) : 0 < c := by
  rcases Nat.eq_zero_or_pos c with rfl | hpos
  · unfold spacing at h
    simp only at h
    split at h
    · cases h
    · cases h
  · exact hpos

/-- A slice is no larger than the cap. -/
theorem sliceQty_le_cap {q c : ℕ} (hexact : ExactQuotients p.qty d i (some c))
    (hspacing : spacing p.qty d i (some c) = .ok s)
    (h : q ∈ sliceQtys lib p d s tradeDate) : q ≤ c := by
  have hn := numSlices_pos hspacing
  have hcount : p.qty ⌈/⌉ c ≤ s.numSlices := by
    rw [(spacing_ok hspacing).1, liquiditySlices_eq hexact]
    exact (le_max_right _ _).trans (le_max_right _ _)
  have hfits := qty_le_of_count (cap_pos hspacing) hcount
  have hsplit := Nat.div_add_mod p.qty s.numSlices
  obtain ⟨-, hupper, hexactly⟩ := mem_sliceQtys h
  by_cases hrest : p.qty % s.numSlices = 0
  · rw [hexactly hrest]
    exact Nat.div_le_of_le_mul (by rwa [Nat.mul_comm])
  · have hless : s.numSlices * (p.qty / s.numSlices) < s.numSlices * c := by
      rw [Nat.mul_comm s.numSlices c]
      omega
    have := Nat.lt_of_mul_lt_mul_left hless
    omega

theorem faithful_of_planned (injective : Function.Injective lib.orderId)
    (hexact : ExactQuotients p.qty d i cap)
    (h : Planned lib p d i cap tradeDate now today r s) : FaithfulSplit p d cap now r := by
  obtain ⟨-, -, hi⟩ := checkArguments_ok h.arguments
  have hn := numSlices_pos h.spacing
  have hqty : ∀ slice ∈ r.slices, ∃ q ∈ sliceQtys lib p d s tradeDate, slice.qty = q := by
    intro slice hslice
    have hmem := List.mem_map_of_mem (f := SliceDetail.qty) hslice
    rw [h.qtys] at hmem
    obtain ⟨q, hq, heq⟩ := List.mem_map.mp hmem
    exact ⟨q, hq, heq.symm⟩
  constructor
  · intro slice _
    exact slice.qty_pos
  · rw [h.qtys]
    have hsum : (sliceQtys lib p d s tradeDate).sum = p.qty := sum_sliceQtys hn
    have hcast := congrArg (fun n : ℕ => (n : ℤ)) hsum
    simpa only [Nat.cast_list_sum] using hcast
  · intro slice hslice other hother
    obtain ⟨q, hq, heq⟩ := hqty slice hslice
    obtain ⟨q', hq', heq'⟩ := hqty other hother
    have hupper := (mem_sliceQtys hq).2.1
    have hlower := (mem_sliceQtys hq').1
    omega
  · intro c hc slice hslice
    rw [Option.mem_def] at hc
    subst hc
    obtain ⟨q, hq, heq⟩ := hqty slice hslice
    have hle := sliceQty_le_cap hexact h.spacing hq
    omega
  · rw [h.numbers, h.totalSlices]
  · rw [h.times, List.head?_map, List.head?_range, if_neg (by omega)]
    simp
  · rw [h.times, List.pairwise_map]
    have hinterval := interval_pos hi h.spacing
    apply List.pairwise_lt_range.imp
    intro j k hjk
    have hsecond : (0 : ℤ) < s.intervalSeconds * second :=
      mul_pos (Nat.cast_pos.mpr hinterval) (by decide)
    have hless := mul_lt_mul_of_pos_right (Nat.cast_lt (α := ℤ).mpr hjk) hsecond
    rw [mul_assoc, mul_assoc]
    exact Int.add_lt_add_left hless now
  · intro slice hslice
    have hmem := List.mem_map_of_mem (f := SliceDetail.scheduledTime) hslice
    rw [h.times] at hmem
    obtain ⟨j, hj, heq⟩ := List.mem_map.mp hmem
    rw [List.mem_range] at hj
    have hspan := span_le hexact hi h.spacing
    have hlast : j * s.intervalSeconds ≤ d * 60 :=
      (Nat.mul_le_mul_right _ (by omega)).trans hspan
    have hcast : (j : ℤ) * s.intervalSeconds ≤ d * 60 := by exact_mod_cast hlast
    rw [← heq]
    exact Int.add_le_add_left (mul_le_mul_of_nonneg_right hcast (by decide)) now
  · exact h.ids injective

end Counts

/-! ## Refusals -/

section Refusals

variable {lib : Hashing} {p : OrderParams} {d i : ℕ} {cap : Option ℕ} {tradeDate : Option Date}
  {now : Timestamp} {today : Date} {e : PlanError}

theorem formatPriceForId_error {price : Option Price} (h : formatPriceForId price = .error e) :
    ∃ x ∈ price, TooLong x := by
  cases price with
  | none => cases h
  | some price =>
      refine ⟨price, rfl, ?_⟩
      unfold formatPriceForId quantizeCents at h
      simp only at h
      split at h
      · cases h
      · rename_i hlong
        exact not_lt.mp hlong

/-- Only a price keeps the text of an order from being made, whatever the quantity. -/
theorem hash_error {q : ℕ} {strategyId : String} {orderDate : Date}
    (h : reconstructOrderParamsHash lib { p with qty := q } strategyId orderDate = .error e) :
    (∃ price ∈ p.limitPrice, TooLong price) ∨ ∃ price ∈ p.stopPrice, TooLong price := by
  unfold reconstructOrderParamsHash at h
  rcases Except.bind_error h with htext | ⟨_, _, habsurd⟩
  · unfold OrderParams.text at htext
    rcases Except.bind_error htext with hlimit | ⟨_, _, hrest⟩
    · exact Or.inl (formatPriceForId_error hlimit)
    · rcases Except.bind_error hrest with hstop | ⟨_, _, habsurd⟩
      · exact Or.inr (formatPriceForId_error hstop)
      · cases habsurd
  · cases habsurd

theorem checkArguments_error {qty : ℕ} (h : checkArguments qty d i = .error e) :
    qty < 1 ∨ d < 1 ∨ i < 1 := by
  unfold checkArguments at h
  split at h
  · rename_i hqty
    exact Or.inl hqty
  · split at h
    · rename_i hd
      exact Or.inr (Or.inl hd)
    · split at h
      · rename_i hi
        exact Or.inr (Or.inr hi)
      · cases h

theorem exactCount_eq {qty : ℕ} (hexact : ExactQuotients qty d i cap) :
    exactCount qty d i cap = max (baseSlices d i) (liquiditySlices qty cap) := by
  rw [baseSlices_eq hexact, liquiditySlices_eq hexact, exactCount]

theorem spacing_error {qty : ℕ} (hexact : ExactQuotients qty d i cap)
    (h : spacing qty d i cap = .error e) : cap = some 0 ∨ Infeasible qty d i cap := by
  unfold spacing at h
  simp only at h
  rw [if_neg (by simp only [hexact.base.1, Bool.false_eq_true, not_false_eq_true])] at h
  split at h
  · rename_i hcap
    left
    cases cap with
    | none => cases hcap
    | some c =>
        unfold checkMaxSliceQty at hcap
        simp only at hcap
        split at hcap
        · rename_i hc
          rw [Nat.lt_one_iff.mp hc]
        · rw [if_neg (by simp only [(hexact.liquidity c rfl).1, Bool.false_eq_true,
            not_false_eq_true])] at hcap
          cases hcap
  · right
    split at h
    · cases h
    · rename_i hbase
      split at h
      · rename_i hinterval
        right
        rw [exactCount_eq hexact, ← baseSlices_eq hexact]
        exact ⟨not_le.mp hbase, hinterval⟩
      · cases h

theorem checkPrices_error (h : checkPrices p = .error e) :
    (p.orderType ∈ [.limit, .stopLimit] ∧ p.limitPrice = none) ∨
      (p.orderType ∈ [.stop, .stopLimit] ∧ p.stopPrice = none) := by
  unfold checkPrices at h
  split at h
  · rename_i hlimit
    exact Or.inl hlimit
  · split at h
    · rename_i hstop
      exact Or.inr hstop
    · cases h

theorem makeSlice_error {parentOrderId : String} {orderDate : Date} {interval q j : ℕ}
    (hq : 0 < q) (h : makeSlice lib p parentOrderId orderDate interval now j q = .error e) :
    (∃ price ∈ p.limitPrice, TooLong price) ∨ ∃ price ∈ p.stopPrice, TooLong price := by
  unfold makeSlice at h
  rcases Except.bind_error h with hid | ⟨_, _, hrest⟩
  · exact hash_error hid
  · rw [dif_pos (Int.natCast_pos.mpr hq)] at hrest
    cases hrest

/-- A plan is refused for one of its arguments, or because no count fits. -/
theorem invalid_or_infeasible (hexact : ExactQuotients p.qty d i cap)
    (h : plan lib p d i cap tradeDate now today = .error e) :
    InvalidArgument p d i cap ∨ Infeasible p.qty d i cap := by
  unfold plan at h
  rcases Except.bind_error h with hargs | ⟨_, hargs, h⟩
  · rcases checkArguments_error hargs with hqty | hd | hi
    · exact Or.inl (Or.inl hqty)
    · exact Or.inl (Or.inr (Or.inl hd))
    · exact Or.inl (Or.inr (Or.inr (Or.inl hi)))
  have hlong : (∃ price ∈ p.limitPrice, TooLong price) ∨ (∃ price ∈ p.stopPrice, TooLong price) →
      InvalidArgument p d i cap := fun hprice =>
    Or.inr (Or.inr (Or.inr (Or.inr (Or.inr (Or.inr hprice)))))
  rcases Except.bind_error h with hspacing | ⟨s, hspacing, h⟩
  · rcases spacing_error hexact hspacing with hcap | hinfeasible
    · exact Or.inl (Or.inr (Or.inr (Or.inr (Or.inl hcap))))
    · exact Or.inr hinfeasible
  rcases Except.bind_error h with hqty | ⟨_, hqty, h⟩
  · unfold checkQty at hqty
    split at hqty
    · rename_i hless
      rw [(spacing_ok hspacing).1] at hless
      exact Or.inr (Or.inl (by rwa [exactCount_eq hexact]))
    · cases hqty
  rcases Except.bind_error h with hprices | ⟨_, _, h⟩
  · rcases checkPrices_error hprices with hlimit | hstop
    · exact Or.inl (Or.inr (Or.inr (Or.inr (Or.inr (Or.inl hlimit)))))
    · exact Or.inl (Or.inr (Or.inr (Or.inr (Or.inr (Or.inr (Or.inl hstop))))))
  rcases Except.bind_error h with hparent | ⟨parentOrderId, _, h⟩
  · exact Or.inl (hlong (hash_error hparent))
  rcases Except.bind_error h with hslices | ⟨_, _, habsurd⟩
  · obtain ⟨x, hx, hslice⟩ := mapM_error hslices
    have hroom : s.numSlices ≤ p.qty := by
      unfold checkQty at hqty
      split at hqty
      · cases hqty
      · omega
    have hpos : 0 < x.1 := by
      have hquotient := Nat.div_pos hroom (numSlices_pos hspacing)
      have hmem := (mem_sliceQtys (List.fst_mem_of_mem_zipIdx hx)).1
      omega
    exact Or.inl (hlong (makeSlice_error hpos hslice))
  · cases habsurd

end Refusals

/-- A hundred and three shares over five minutes. -/
def oddLot : OrderParams := ⟨"AAPL", .buy, 103, none, none, .market, .day⟩

end TradingPlatform.Gateway
