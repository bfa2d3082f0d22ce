import Mathlib.Algebra.BigOperators.Ring.Finset
import Mathlib.Algebra.Order.Floor.Ring
import Mathlib.Data.Rat.Floor
import Mathlib.Tactic.FieldSimp
import Mathlib.Tactic.Linarith
import Mathlib.Tactic.Ring
import TradingPlatform.Base.Frames
import TradingPlatform.Base.OrdinalRank
import TradingPlatform.Base.Scaling

/-! # Signals into portfolio weights

Each date's cross section of signals is scored by one of three methods and scaled to the target
leverage. The quantile method holds the top bucket long and the bottom bucket short, one unit for
each security, and the two buckets need not be of one size.
-/

namespace TradingPlatform.Alpha

open Base

/-! ## Frames -/

structure SignalRow (δ V : Type*) where
  permno : ℤ
  date : δ
  signal : V
  deriving DecidableEq, Repr

structure WeightRow (δ K : Type*) where
  permno : ℤ
  date : δ
  weight : K
  deriving DecidableEq, Repr

inductive WeightMethod
  | zscore
  | quantile
  | rank
  deriving DecidableEq, Repr

structure SignalToWeight (K : Type*) where
  method : WeightMethod
  longOnly : Bool
  targetLeverage : K
  nQuantiles : ℕ

variable {δ K : Type*} [LinearOrder δ] [Field K] [LinearOrder K]

/-- `std()`, null below two values and positive where two values differ. -/
structure SampleStd (K : Type*) [Field K] [LinearOrder K] where
  std : List K → Option K
  pos_of_ne : ∀ {xs x y}, x ∈ xs → y ∈ xs → x ≠ y → ∃ s, std xs = some s ∧ 0 < s

/-! ## Scores of a cross section -/

def mean (xs : List K) : K := xs.sum / xs.length

/-- Null where the deviation is, and `0 / 0`, which is NaN, where it is zero. -/
def zscore (std : Option K) (mean x : K) : Option K :=
  match std with
  | none => none
  | some s => if s = 0 then none else some ((x - mean) / s)

def zscores (sample : SampleStd K) (signals : List K) : List K :=
  signals.map fun x => (zscore (sample.std signals) (mean signals) x).getD 0

/-- `ceil(rank / count * n_quantiles)`, clipped. -/
def quantileOf (nQuantiles count rank : ℕ) : ℤ :=
  max 1 (min nQuantiles ⌈(rank : ℚ) / count * nQuantiles⌉)

def rawWeight (longOnly : Bool) (nQuantiles : ℕ) (quantile : ℤ) : K :=
  if quantile = nQuantiles then 1
  else if quantile = 1 then (if longOnly then 0 else -1)
  else 0

def rawWeights (longOnly : Bool) (nQuantiles : ℕ) (signals : List K) : List K :=
  (ordinalRanks signals).map fun rank =>
    rawWeight longOnly nQuantiles (quantileOf nQuantiles signals.length rank)

def demeanedRanks (signals : List K) : List K :=
  (ordinalRanks signals).map fun rank : ℕ =>
    (rank : K) - ((signals.length + 1 : ℕ) : K) / (2 : ℕ)

/-! ## The converter -/

namespace SignalToWeight

variable (self : SignalToWeight K)

/-- The scores of `self.method`, over the date. -/
def scored (f : List K → List K) (signals : List (SignalRow δ K)) : List (SignalRow δ K × K) :=
  withColumn SignalRow.date (fun group => f (group.map SignalRow.signal)) signals

def clip (w : K) : K := if w < 0 then 0 else w

/-- Shorts are dropped and the longs scaled up to the target. -/
def longs (weights : List K) : List K :=
  (weights.map clip).map (rescale (weights.map clip).sum self.targetLeverage)

def renormalized (frame : List (SignalRow δ K × K)) : List (SignalRow δ K × K) :=
  if self.longOnly then replaceColumn SignalRow.date self.longs frame else frame

def zscoreWeights (sample : SampleStd K) (signals : List (SignalRow δ K)) :
    List (SignalRow δ K × K) :=
  self.renormalized
    (replaceColumn SignalRow.date (scaleTo self.targetLeverage) (scored (zscores sample) signals))

/-- A raw weight over an absolute sum of zero is NaN, which is filled by zero as well. -/
def quantileWeights (signals : List (SignalRow δ K)) : List (SignalRow δ K × K) :=
  replaceColumn SignalRow.date (scaleTo self.targetLeverage)
    (scored (rawWeights self.longOnly self.nQuantiles) signals)

def rankWeights (signals : List (SignalRow δ K)) : List (SignalRow δ K × K) :=
  self.renormalized
    (replaceColumn SignalRow.date (scaleTo self.targetLeverage) (scored demeanedRanks signals))

/-- The rows whose signal is not null. -/
def validRows (signals : List (SignalRow δ (Option K))) : List (SignalRow δ K) :=
  signals.filterMap fun r => r.signal.map fun x => ⟨r.permno, r.date, x⟩

/-- `select(["permno", "date", "weight"])` -/
def selectWeights (frame : List (SignalRow δ K × K)) : List (WeightRow δ K) :=
  frame.map fun p => ⟨p.1.permno, p.1.date, p.2⟩

def convert (sample : SampleStd K) (signals : List (SignalRow δ (Option K))) :
    List (WeightRow δ K) :=
  if signals = [] then []
  else
    let valid := validRows signals
    if valid = [] then []
    else
      match self.method with
      | .zscore => selectWeights (self.zscoreWeights sample valid)
      | .quantile => selectWeights (self.quantileWeights valid)
      | .rank => selectWeights (self.rankWeights valid)

/-- The last step of two of the methods, on the weights of one date. -/
def finish (weights : List K) : List K := if self.longOnly then self.longs weights else weights

/-- What `convert` does to the signals of one date. -/
def crossSection (sample : SampleStd K) (signals : List K) : List K :=
  match self.method with
  | .zscore => self.finish (scaleTo self.targetLeverage (zscores sample signals))
  | .quantile => scaleTo self.targetLeverage (rawWeights self.longOnly self.nQuantiles signals)
  | .rank => self.finish (scaleTo self.targetLeverage (demeanedRanks signals))

end SignalToWeight

/-! ## The contract -/

def weightsOn (weights : List (WeightRow δ K)) (d : δ) : List K :=
  (withKey WeightRow.date weights d).map WeightRow.weight

/-- The weights of each date are neutral and levered, and follow the order of the signals. -/
structure WeightContract (converter : SignalToWeight K) (signals : List (SignalRow δ (Option K)))
    (weights : List (WeightRow δ K)) : Prop where
  neutral : converter.longOnly = false → ∀ d, (weightsOn weights d).sum = 0
  levered : converter.longOnly = false → ∀ d,
    grossTotal (weightsOn weights d) = converter.targetLeverage ∨ ∀ w ∈ weightsOn weights d, w = 0
  longs_nonneg : converter.longOnly = true → ∀ d, ∀ w ∈ weightsOn weights d, 0 ≤ w
  longs_levered : converter.longOnly = true → ∀ d,
    (weightsOn weights d).sum = converter.targetLeverage ∨ ∀ w ∈ weightsOn weights d, w = 0
  ordered : ∀ r ∈ signals, ∀ s ∈ signals, r.date = s.date →
    ∀ x y, r.signal = some x → s.signal = some y → x < y →
      ∀ w ∈ weights, w.permno = r.permno → w.date = r.date →
        ∀ v ∈ weights, v.permno = s.permno → v.date = s.date → w.weight ≤ v.weight

/-- Short buckets of the size of the long ones. -/
def SignalToWeight.Balanced (self : SignalToWeight K) (count : ℕ) : Prop :=
  self.method = .quantile → self.longOnly = false → self.nQuantiles ∣ count

/-! ## Order within a cross section -/

/-- A greater signal has no smaller value. -/
def Ordered (signals values : List K) : Prop :=
  ∀ p ∈ signals.zip values, ∀ q ∈ signals.zip values, p.1 < q.1 → p.2 ≤ q.2

section Lists

variable [IsStrictOrderedRing K] {signals values : List K}

omit [Field K] [IsStrictOrderedRing K] in
theorem Ordered.map {f : K → K} (hf : ∀ x y, x ≤ y → f x ≤ f y) (h : Ordered signals values) :
    Ordered signals (values.map f) := by
  intro p hp q hq hlt
  rw [List.zip_map_right] at hp hq
  obtain ⟨p', hp', rfl⟩ := List.mem_map.mp hp
  obtain ⟨q', hq', rfl⟩ := List.mem_map.mp hq
  exact hf _ _ (h p' hp' q' hq' hlt)

omit [Field K] [IsStrictOrderedRing K] in
/-- Values that depend on the signal alone. -/
theorem ordered_map_self {f : K → K}
    (hf : ∀ x ∈ signals, ∀ y ∈ signals, x < y → f x ≤ f y) : Ordered signals (signals.map f) := by
  intro p hp q hq hlt
  rw [← List.map_id signals, List.map_map, List.zip_map'] at hp hq
  obtain ⟨x, hx, rfl⟩ := List.mem_map.mp hp
  obtain ⟨y, hy, rfl⟩ := List.mem_map.mp hq
  exact hf x hx y hy hlt

omit [Field K] [IsStrictOrderedRing K] in
/-- Values that depend on the rank alone. -/
theorem ordered_ranks {f : ℕ → K} (hf : ∀ r s : ℕ, r < s → f r ≤ f s) :
    Ordered signals ((ordinalRanks signals).map f) := by
  intro p hp q hq hlt
  rw [List.zip_map_right] at hp hq
  obtain ⟨⟨x, r⟩, hr, rfl⟩ := List.mem_map.mp hp
  obtain ⟨⟨y, s⟩, hs, rfl⟩ := List.mem_map.mp hq
  exact hf r s (ordinalRanks_lt hr hs hlt)

theorem Ordered.scaleTo {target : K} (htarget : 0 ≤ target) (h : Ordered signals values) :
    Ordered signals (scaleTo target values) :=
  h.map fun _ _ => rescale_mono (grossTotal_nonneg values) htarget

/-! ## Z-scores -/

theorem sum_sub_mean (xs : List K) : (xs.map fun x => x - mean xs).sum = 0 := by
  cases xs with
  | nil => rfl
  | cons x xs =>
    have hlength : ((x :: xs).length : K) ≠ 0 := by
      rw [List.length_cons]
      positivity
    rw [sum_map_sub_const (fun x => x), List.map_id', mean, mul_div_cancel₀ _ hlength, sub_self]

theorem sum_zscores (sample : SampleStd K) (xs : List K) : (zscores sample xs).sum = 0 := by
  unfold zscores zscore
  cases hstd : sample.std xs with
  | none => simp
  | some s =>
    by_cases hs : s = 0
    · simp [hs]
    · simp only [hs, if_false, Option.getD_some, div_eq_mul_inv]
      rw [List.sum_map_mul_right, sum_sub_mean, zero_mul]

theorem ordered_zscores (sample : SampleStd K) (xs : List K) :
    Ordered xs (zscores sample xs) := by
  apply ordered_map_self
  intro x hx y hy hlt
  obtain ⟨s, hstd, hs⟩ := sample.pos_of_ne hx hy hlt.ne
  simp only [zscore, hstd, hs.ne', if_false, Option.getD_some]
  gcongr

/-! ## Demeaned ranks -/

theorem two_mul_sum_range' (n : ℕ) : 2 * (List.range' 1 n).sum = n * (n + 1) := by
  induction n with
  | zero => rfl
  | succ n ih =>
    rw [List.range'_concat, List.sum_append, Nat.mul_add, ih]
    simp
    ring

theorem sum_demeanedRanks (xs : List K) : (demeanedRanks xs).sum = 0 := by
  have hsum : 2 * ((ordinalRanks xs).map fun rank : ℕ => (rank : K)).sum =
      xs.length * (xs.length + 1) := by
    have hranks : (ordinalRanks xs).sum = (List.range' 1 xs.length).sum :=
      (ordinalRanks_perm xs).sum_eq
    have htwo := two_mul_sum_range' xs.length
    rw [← hranks] at htwo
    rw [← Nat.cast_list_sum]
    exact_mod_cast htwo
  unfold demeanedRanks
  rw [sum_map_sub_const (fun rank : ℕ => (rank : K)), length_ordinalRanks]
  push_cast
  linarith

theorem ordered_demeanedRanks (xs : List K) : Ordered xs (demeanedRanks xs) := by
  apply ordered_ranks
  intro r s hlt
  have hcast : (r : K) ≤ s := by exact_mod_cast hlt.le
  linarith

/-! ## Quantiles -/

theorem quantileOf_eq_top {n m r : ℕ} (hn : 2 ≤ n) (hm : 0 < m) :
    quantileOf n m r = n ↔ m * (n - 1) < r * n := by
  have hcount : (0 : ℚ) < m := by exact_mod_cast hm
  have hceil : quantileOf n m r = n ↔ (n : ℤ) - 1 < ⌈(r : ℚ) / m * n⌉ := by
    unfold quantileOf
    omega
  rw [hceil, Int.lt_ceil, div_mul_eq_mul_div, lt_div_iff₀ hcount]
  have hpred : ((n - 1 : ℕ) : ℚ) = (n : ℚ) - 1 := by
    push_cast [Nat.cast_sub (show 1 ≤ n by omega)]
    ring
  rw [← Nat.cast_lt (α := ℚ)]
  push_cast
  rw [hpred, mul_comm]

theorem quantileOf_eq_one {n m r : ℕ} (hn : 2 ≤ n) (hm : 0 < m) :
    quantileOf n m r = 1 ↔ r * n ≤ m := by
  have hcount : (0 : ℚ) < m := by exact_mod_cast hm
  have hceil : quantileOf n m r = 1 ↔ ⌈(r : ℚ) / m * n⌉ ≤ 1 := by
    unfold quantileOf
    omega
  rw [hceil, Int.ceil_le, div_mul_eq_mul_div, div_le_iff₀ hcount]
  rw [← Nat.cast_le (α := ℚ)]
  push_cast
  rw [one_mul]

theorem quantileOf_mono {n m r s : ℕ} (h : r ≤ s) : quantileOf n m r ≤ quantileOf n m s := by
  have hceil : ⌈(r : ℚ) / m * n⌉ ≤ ⌈(s : ℚ) / m * n⌉ := by
    apply Int.ceil_mono
    gcongr
  unfold quantileOf
  omega

theorem rawWeight_mono {longOnly : Bool} {n : ℕ} {q q' : ℤ} (hn : 2 ≤ n) (hq : 1 ≤ q)
    (h : q ≤ q') (hq' : q' ≤ n) : rawWeight (K := K) longOnly n q ≤ rawWeight longOnly n q' := by
  unfold rawWeight
  cases longOnly with
  | false =>
    simp only [Bool.false_eq_true, if_false]
    split_ifs <;> first | omega | norm_num
  | true =>
    simp only [if_true]
    split_ifs <;> first | omega | norm_num

theorem ordered_rawWeights {longOnly : Bool} {n : ℕ} (hn : 2 ≤ n) (xs : List K) :
    Ordered xs (rawWeights longOnly n xs) := by
  apply ordered_ranks
  intro r s hlt
  apply rawWeight_mono hn _ (quantileOf_mono hlt.le)
  · unfold quantileOf
    omega
  · unfold quantileOf
    omega

theorem countP_le_range' (t m : ℕ) : (List.range' 1 m).countP (fun r => r ≤ t) = min t m := by
  induction m with
  | zero => simp
  | succ m ih =>
    rw [List.range'_concat, List.countP_append, ih, List.countP_singleton]
    simp only [decide_eq_true_eq]
    split_ifs <;> omega

/-- The ranks of the bottom bucket. -/
theorem countP_bottom {n m : ℕ} (hn : 0 < n) :
    (List.range' 1 m).countP (fun r => r * n ≤ m) = m / n := by
  have hle : ∀ r, r * n ≤ m ↔ r ≤ m / n := fun r => (Nat.le_div_iff_mul_le hn).symm
  simp only [hle]
  rw [countP_le_range', min_eq_left (Nat.div_le_self m n)]

/-- The ranks of the top bucket. -/
theorem countP_top {n m : ℕ} (hn : 0 < n) :
    (List.range' 1 m).countP (fun r => m * (n - 1) < r * n) = m - m * (n - 1) / n := by
  have hle : ∀ r, m * (n - 1) < r * n ↔ ¬ r ≤ m * (n - 1) / n := by
    intro r
    rw [Nat.le_div_iff_mul_le hn]
    omega
  have hbound : m * (n - 1) / n ≤ m := by
    apply Nat.div_le_of_le_mul
    rw [Nat.mul_comm n m]
    exact Nat.mul_le_mul_left m (Nat.sub_le n 1)
  have hsplit := List.length_eq_countP_add_countP (l := List.range' 1 m)
    (fun r => decide (r ≤ m * (n - 1) / n))
  rw [countP_le_range', List.length_range', min_eq_left hbound] at hsplit
  simp only [hle]
  simp only [Bool.not_eq_true, decide_eq_false_iff_not] at hsplit
  omega

/-- The two buckets are of one size for the multiples of the number of quantiles. -/
theorem bottom_eq_top_iff {n m : ℕ} (hn : 0 < n) :
    m / n = m - m * (n - 1) / n ↔ n ∣ m := by
  obtain ⟨q, r, hr, rfl⟩ : ∃ q r, r < n ∧ m = n * q + r :=
    ⟨m / n, m % n, Nat.mod_lt m hn, (Nat.div_add_mod m n).symm⟩
  have hdiv : (n * q + r) / n = q := by
    rw [Nat.mul_add_div hn, Nat.div_eq_of_lt hr, Nat.add_zero]
  have hscaled : (n * q + r) * (n - 1) / n = q * (n - 1) + r * (n - 1) / n := by
    rw [Nat.add_mul, Nat.mul_assoc, Nat.mul_add_div hn]
  have htotal : n * q = q * (n - 1) + q := by
    obtain ⟨k, rfl⟩ : ∃ k, n = k + 1 := ⟨n - 1, by omega⟩
    simp
    ring
  rw [hdiv, hscaled, Nat.dvd_add_right (Nat.dvd_mul_right n q)]
  rcases Nat.eq_zero_or_pos r with rfl | hpos
  · simp
    omega
  · have hlast : r * (n - 1) / n = r - 1 := by
      obtain ⟨k, rfl⟩ : ∃ k, n = k + 1 := ⟨n - 1, by omega⟩
      obtain ⟨j, rfl⟩ : ∃ j, r = j + 1 := ⟨r - 1, by omega⟩
      have hexpand : (j + 1) * (k + 1 - 1) = (k + 1) * j + (k - j) := by
        have hjk : j ≤ k := by omega
        obtain ⟨i, rfl⟩ := Nat.exists_eq_add_of_le hjk
        simp
        ring
      rw [hexpand, Nat.mul_add_div hn, Nat.div_eq_of_lt (by omega)]
      omega
    have hnot : ¬ n ∣ r := fun hdvd => absurd (Nat.le_of_dvd hpos hdvd) (by omega)
    rw [hlast]
    simp only [hnot, iff_false]
    omega

omit [LinearOrder K] [IsStrictOrderedRing K] in
theorem sum_indicators {p q : ℕ → Prop} [DecidablePred p] [DecidablePred q] {xs : List ℕ}
    (h : ∀ x ∈ xs, p x → ¬ q x) :
    (xs.map fun x => if p x then (1 : K) else if q x then -1 else 0).sum =
      xs.countP (fun x => p x) - xs.countP (fun x => q x) := by
  induction xs with
  | nil => simp
  | cons x xs ih =>
    have hrest := ih fun y hy => h y (by simp [hy])
    have hx := h x (by simp)
    simp only [List.map_cons, List.sum_cons, hrest, List.countP_cons, decide_eq_true_eq]
    by_cases hp : p x
    · simp only [hp, hx hp, if_true, if_false]
      push_cast
      ring
    · by_cases hq : q x
      · simp only [hp, hq, if_true, if_false]
        push_cast
        ring
      · simp [hp, hq]

omit [IsStrictOrderedRing K] in
theorem sum_rawWeights {n : ℕ} (hn : 2 ≤ n) (xs : List K) :
    (rawWeights false n xs).sum =
      ((xs.length - xs.length * (n - 1) / n : ℕ) : K) - ((xs.length / n : ℕ) : K) := by
  cases hxs : xs.length with
  | zero =>
    rw [List.length_eq_zero_iff] at hxs
    subst hxs
    simp [rawWeights, ordinalRanks, ordinalRanksFrom]
  | succ m =>
    have hm : 0 < m + 1 := by omega
    have hn' : ((n : ℤ) = 1) = False := by
      simp
      omega
    rw [rawWeights, ((ordinalRanks_perm xs).map _).sum_eq, hxs, ← countP_top (m := m + 1)
      (by omega : 0 < n), ← countP_bottom (m := m + 1) (by omega : 0 < n), ← sum_indicators]
    · congr 1
      apply List.map_congr_left
      intro r _
      simp only [rawWeight, quantileOf_eq_top hn hm, quantileOf_eq_one hn hm, Bool.false_eq_true,
        if_false]
    · intro r _ htop hbottom
      rw [← quantileOf_eq_top hn hm] at htop
      rw [← quantileOf_eq_one hn hm, htop] at hbottom
      omega

/-- The raw weights of a cross section cancel if it divides into the quantiles. -/
theorem sum_rawWeights_eq_zero_iff {n : ℕ} (hn : 2 ≤ n) (xs : List K) :
    (rawWeights false n xs).sum = 0 ↔ n ∣ xs.length := by
  rw [sum_rawWeights hn, sub_eq_zero, Nat.cast_inj, ← bottom_eq_top_iff (by omega : 0 < n)]
  exact eq_comm

theorem rawWeights_nonneg {n : ℕ} (xs : List K) : ∀ w ∈ rawWeights true n xs, 0 ≤ w := by
  intro w hw
  obtain ⟨r, -, rfl⟩ := List.mem_map.mp hw
  unfold rawWeight
  simp only [if_true]
  split_ifs <;> norm_num

/-! ## Long-only weights -/

omit [IsStrictOrderedRing K] in
theorem clip_mono {x y : K} (h : x ≤ y) : SignalToWeight.clip x ≤ SignalToWeight.clip y := by
  unfold SignalToWeight.clip
  split_ifs with hx hy hy
  · exact le_rfl
  · exact not_lt.mp hy
  · exact absurd (h.trans_lt hy) hx
  · exact h

omit [IsStrictOrderedRing K] in
theorem clip_nonneg (x : K) : 0 ≤ SignalToWeight.clip x := by
  unfold SignalToWeight.clip
  split_ifs with hx
  · exact le_rfl
  · exact not_lt.mp hx

theorem longs_eq_scaleTo (self : SignalToWeight K) (weights : List K) :
    self.longs weights = scaleTo self.targetLeverage (weights.map SignalToWeight.clip) := by
  have hnonneg : ∀ w ∈ weights.map SignalToWeight.clip, 0 ≤ w := by
    intro w hw
    obtain ⟨x, -, rfl⟩ := List.mem_map.mp hw
    exact clip_nonneg x
  rw [SignalToWeight.longs, scaleTo, grossTotal_of_nonneg hnonneg]

/-! ## The contract within a cross section -/

variable (self : SignalToWeight K) (sample : SampleStd K)

/-- What is scaled when shorts are allowed. -/
def SignalToWeight.scores (signals : List K) : List K :=
  match self.method with
  | .zscore => zscores sample signals
  | .quantile => rawWeights self.longOnly self.nQuantiles signals
  | .rank => demeanedRanks signals

omit [IsStrictOrderedRing K] in
theorem crossSection_of_shorts (h : self.longOnly = false) (xs : List K) :
    self.crossSection sample xs = scaleTo self.targetLeverage (self.scores sample xs) := by
  unfold SignalToWeight.crossSection SignalToWeight.scores SignalToWeight.finish
  cases self.method <;> simp [h]

theorem crossSection_of_longs (h : self.longOnly = true) (xs : List K) :
    ∃ ys, (∀ y ∈ ys, 0 ≤ y) ∧ self.crossSection sample xs = scaleTo self.targetLeverage ys := by
  have hclip : ∀ ws : List K, ∀ y ∈ ws.map SignalToWeight.clip, 0 ≤ y := by
    intro ws y hy
    obtain ⟨x, -, rfl⟩ := List.mem_map.mp hy
    exact clip_nonneg x
  unfold SignalToWeight.crossSection SignalToWeight.finish
  cases self.method with
  | zscore =>
    refine ⟨_, hclip (scaleTo self.targetLeverage (zscores sample xs)), ?_⟩
    simp only [h, if_true]
    exact longs_eq_scaleTo self _
  | quantile =>
    refine ⟨rawWeights true self.nQuantiles xs, rawWeights_nonneg xs, ?_⟩
    simp only [h]
  | rank =>
    refine ⟨_, hclip (scaleTo self.targetLeverage (demeanedRanks xs)), ?_⟩
    simp only [h, if_true]
    exact longs_eq_scaleTo self _

@[simp] theorem length_crossSection (xs : List K) :
    (self.crossSection sample xs).length = xs.length := by
  have hz : (zscores sample xs).length = xs.length := List.length_map _
  have hd : (demeanedRanks xs).length = xs.length := by simp [demeanedRanks]
  have hr : ∀ longOnly, (rawWeights (K := K) longOnly self.nQuantiles xs).length = xs.length :=
    fun longOnly => by simp [rawWeights]
  unfold SignalToWeight.crossSection SignalToWeight.finish
  cases self.method <;> cases self.longOnly <;> simp_all [longs_eq_scaleTo]

variable {self}

theorem sum_crossSection_eq_zero_iff (hleverage : 0 < self.targetLeverage)
    (hn : 2 ≤ self.nQuantiles) (h : self.longOnly = false) (xs : List K) :
    (self.crossSection sample xs).sum = 0 ↔ self.Balanced xs.length := by
  rw [crossSection_of_shorts self sample h, sum_scaleTo_eq_zero_iff hleverage]
  unfold SignalToWeight.scores SignalToWeight.Balanced
  cases self.method with
  | zscore => simp [sum_zscores]
  | quantile => simpa [h] using sum_rawWeights_eq_zero_iff hn xs
  | rank => simp [sum_demeanedRanks]

theorem ordered_crossSection (hleverage : 0 < self.targetLeverage) (hn : 2 ≤ self.nQuantiles)
    (xs : List K) : Ordered xs (self.crossSection sample xs) := by
  have hfinish : ∀ ws, Ordered xs ws → Ordered xs (self.finish ws) := by
    intro ws hws
    unfold SignalToWeight.finish
    split_ifs with hlong
    · rw [longs_eq_scaleTo]
      exact (hws.map fun _ _ => clip_mono).scaleTo hleverage.le
    · exact hws
  unfold SignalToWeight.crossSection
  cases self.method with
  | zscore => exact hfinish _ ((ordered_zscores sample xs).scaleTo hleverage.le)
  | quantile => exact (ordered_rawWeights hn xs).scaleTo hleverage.le
  | rank => exact hfinish _ ((ordered_demeanedRanks xs).scaleTo hleverage.le)

end Lists

/-! ## The contract over frames -/

section Frames

variable (self : SignalToWeight K) (sample : SampleStd K)

def signalsOn (rows : List (SignalRow δ K)) (d : δ) : List K :=
  (withKey SignalRow.date rows d).map SignalRow.signal

omit [Field K] [LinearOrder K] in
theorem hasColumn_scored {f : List K → List K} (hf : ∀ xs, (f xs).length = xs.length)
    (rows : List (SignalRow δ K)) :
    HasColumn SignalRow.date rows (SignalToWeight.scored f rows) fun d => f (signalsOn rows d) := by
  apply hasColumn_withColumn
  intro d
  rw [hf, List.length_map]

theorem hasColumn_renormalized {rows : List (SignalRow δ K)} {frame : List (SignalRow δ K × K)}
    {column : δ → List K} (h : HasColumn SignalRow.date rows frame column) :
    HasColumn SignalRow.date rows (self.renormalized frame) fun d => self.finish (column d) := by
  unfold SignalToWeight.renormalized SignalToWeight.finish
  cases self.longOnly with
  | false => exact h
  | true => exact h.replaceColumn fun d => by simp [SignalToWeight.longs]

/-- The weights of the rows, whatever the method. -/
def SignalToWeight.weighted (rows : List (SignalRow δ K)) : List (SignalRow δ K × K) :=
  match self.method with
  | .zscore => self.zscoreWeights sample rows
  | .quantile => self.quantileWeights rows
  | .rank => self.rankWeights rows

theorem hasColumn_weighted (rows : List (SignalRow δ K)) :
    HasColumn SignalRow.date rows (self.weighted sample rows) fun d =>
      self.crossSection sample (signalsOn rows d) := by
  have hscaled : ∀ {f : List K → List K}, (∀ xs, (f xs).length = xs.length) →
      HasColumn SignalRow.date rows (replaceColumn SignalRow.date (scaleTo self.targetLeverage)
        (SignalToWeight.scored f rows)) fun d =>
          scaleTo self.targetLeverage (f (signalsOn rows d)) :=
    fun hf => (hasColumn_scored hf rows).replaceColumn fun d => length_scaleTo _ _
  unfold SignalToWeight.weighted SignalToWeight.crossSection
  cases self.method with
  | zscore => exact hasColumn_renormalized self (hscaled fun xs => by simp [zscores])
  | quantile => exact hscaled fun xs => by simp [rawWeights]
  | rank => exact hasColumn_renormalized self (hscaled fun xs => by simp [demeanedRanks])

theorem convert_eq (signals : List (SignalRow δ (Option K))) :
    self.convert sample signals =
      SignalToWeight.selectWeights (self.weighted sample (SignalToWeight.validRows signals)) := by
  have hempty : self.weighted sample ([] : List (SignalRow δ K)) = [] := by
    have hcolumn := hasColumn_weighted self sample ([] : List (SignalRow δ K))
    by_contra hne
    obtain ⟨p, rest, hp⟩ := List.exists_cons_of_ne_nil hne
    have hfilter := (hcolumn p.1.date).2
    simp [hp, withKey] at hfilter
  unfold SignalToWeight.convert
  by_cases hsignals : signals = []
  · simp [hsignals, SignalToWeight.validRows, hempty, SignalToWeight.selectWeights]
  · by_cases hvalid : SignalToWeight.validRows signals = []
    · simp [hsignals, hvalid, hempty, SignalToWeight.selectWeights]
    · simp only [hsignals, hvalid, if_false]
      unfold SignalToWeight.weighted
      cases self.method <;> rfl

omit [LinearOrder δ] [Field K] [LinearOrder K] in
theorem mem_validRows {signals : List (SignalRow δ (Option K))} {v : SignalRow δ K} :
    v ∈ SignalToWeight.validRows signals ↔
      ∃ r ∈ signals, r.permno = v.permno ∧ r.date = v.date ∧ r.signal = some v.signal := by
  unfold SignalToWeight.validRows
  rw [List.mem_filterMap]
  constructor
  · rintro ⟨r, hr, hv⟩
    obtain ⟨x, hx, rfl⟩ := Option.map_eq_some_iff.mp hv
    exact ⟨r, hr, rfl, rfl, hx⟩
  · rintro ⟨r, hr, hpermno, hdate, hsignal⟩
    refine ⟨r, hr, ?_⟩
    rw [hsignal, hpermno, hdate]
    rfl

/-- The weights of a date are made of the signals of that date alone. -/
theorem weightsOn_convert (signals : List (SignalRow δ (Option K))) (d : δ) :
    weightsOn (self.convert sample signals) d =
      self.crossSection sample (signalsOn (SignalToWeight.validRows signals) d) := by
  obtain ⟨hlength, hframe⟩ := hasColumn_weighted self sample (SignalToWeight.validRows signals) d
  have hselect : ∀ frame : List (SignalRow δ K × K),
      withKey WeightRow.date (SignalToWeight.selectWeights frame) d =
        SignalToWeight.selectWeights (frame.filter fun p => p.1.date = d) := by
    intro frame
    unfold SignalToWeight.selectWeights withKey
    rw [List.filter_map]
    rfl
  rw [weightsOn, convert_eq, hselect, hframe, SignalToWeight.selectWeights, List.map_map]
  exact List.map_snd_zip hlength.le

/-- The signal of a row and its weight stand at one place of the cross section. -/
theorem mem_zip_of_mem_convert {signals : List (SignalRow δ (Option K))}
    (hunique : (signals.map fun r => (r.permno, r.date)).Nodup) {r : SignalRow δ (Option K)}
    (hr : r ∈ signals) {x : K} (hx : r.signal = some x) {w : WeightRow δ K}
    (hw : w ∈ self.convert sample signals) (hpermno : w.permno = r.permno)
    (hdate : w.date = r.date) :
    (x, w.weight) ∈ (signalsOn (SignalToWeight.validRows signals) r.date).zip
      (self.crossSection sample (signalsOn (SignalToWeight.validRows signals) r.date)) := by
  rw [convert_eq] at hw
  obtain ⟨p, hp, rfl⟩ := List.mem_map.mp hw
  obtain ⟨-, hframe⟩ := hasColumn_weighted self sample (SignalToWeight.validRows signals) r.date
  have hzip : p ∈ (self.weighted sample (SignalToWeight.validRows signals)).filter
      fun p => p.1.date = r.date :=
    List.mem_filter.mpr ⟨hp, decide_eq_true hdate⟩
  rw [hframe] at hzip
  obtain ⟨v, weight⟩ := p
  have hv : v ∈ SignalToWeight.validRows signals :=
    (List.mem_filter.mp (List.of_mem_zip hzip).1).1
  obtain ⟨r', hr', hpermno', hdate', hsignal⟩ := mem_validRows.mp hv
  have hsame : r' = r := by
    apply List.inj_on_of_nodup_map hunique hr' hr
    rw [hpermno', hdate']
    exact Prod.ext hpermno hdate
  rw [hsame, hx, Option.some.injEq] at hsignal
  rw [signalsOn, List.zip_map_left, hsignal]
  exact List.mem_map_of_mem (f := Prod.map SignalRow.signal id) hzip

variable {self} [IsStrictOrderedRing K]

/-- The weights keep the contract on the dates whose cross sections the quantiles divide. -/
theorem weightContract_iff (hleverage : 0 < self.targetLeverage) (hn : 2 ≤ self.nQuantiles)
    {signals : List (SignalRow δ (Option K))}
    (hunique : (signals.map fun r => (r.permno, r.date)).Nodup) :
    WeightContract self signals (self.convert sample signals) ↔
      ∀ d, self.Balanced (signalsOn (SignalToWeight.validRows signals) d).length := by
  constructor
  · intro hcontract d hmethod hlong
    have hsum := hcontract.neutral hlong d
    rw [weightsOn_convert, sum_crossSection_eq_zero_iff sample hleverage hn hlong] at hsum
    exact hsum hmethod hlong
  · intro hbalanced
    refine ⟨?_, ?_, ?_, ?_, ?_⟩
    · intro hlong d
      rw [weightsOn_convert, sum_crossSection_eq_zero_iff sample hleverage hn hlong]
      exact hbalanced d
    · intro hlong d
      rw [weightsOn_convert, crossSection_of_shorts self sample hlong]
      exact grossTotal_scaleTo hleverage.le
    · intro hlong d
      obtain ⟨ys, hys, hcross⟩ := crossSection_of_longs self sample hlong
        (signalsOn (SignalToWeight.validRows signals) d)
      rw [weightsOn_convert, hcross]
      exact scaleTo_nonneg hleverage.le hys
    · intro hlong d
      obtain ⟨ys, hys, hcross⟩ := crossSection_of_longs self sample hlong
        (signalsOn (SignalToWeight.validRows signals) d)
      rw [weightsOn_convert, hcross, ← grossTotal_of_nonneg (scaleTo_nonneg hleverage.le hys)]
      exact grossTotal_scaleTo hleverage.le
    · intro r hr s hs hdate x y hx hy hlt w hw hwpermno hwdate v hv hvpermno hvdate
      have hplace := mem_zip_of_mem_convert self sample hunique hr hx hw hwpermno hwdate
      have hplace' := mem_zip_of_mem_convert self sample hunique hs hy hv hvpermno hvdate
      rw [← hdate] at hplace'
      exact ordered_crossSection sample hleverage hn _ _ hplace _ hplace' hlt

end Frames

/-- Of each list whose values differ, what the deviation of 1, 2, 3 is. -/
def unitStd : SampleStd ℚ where
  std xs :=
    if xs.length < 2 then none
    else if ∀ x ∈ xs, ∀ y ∈ xs, x = y then some 0 else some 1
  pos_of_ne := by
    intro xs x y hx hy hne
    have hlength : ¬ xs.length < 2 := by
      match xs with
      | [] => simp at hx
      | [z] =>
        rw [List.mem_singleton] at hx hy
        exact absurd (hx.trans hy.symm) hne
      | z :: z' :: zs => simp
    have hdiffer : ¬ ∀ x ∈ xs, ∀ y ∈ xs, x = y := fun hall => hne (hall x hx y hy)
    refine ⟨1, ?_, one_pos⟩
    simp only [hlength, hdiffer, if_false]

/-- Two halves, long and short. -/
def halves : SignalToWeight ℚ where
  method := .quantile
  longOnly := false
  targetLeverage := 1
  nQuantiles := 2

def threeSignals : List (SignalRow ℕ (Option ℚ)) :=
  [⟨10, 1, some 1⟩, ⟨11, 1, some 2⟩, ⟨12, 1, some 3⟩]

/-- Of three securities two are bought and one is sold. -/
theorem weightContract_fails_three :
    ¬ WeightContract halves threeSignals (halves.convert unitStd threeSignals) := by
  intro hcontract
  have hsum := hcontract.neutral rfl 1
  revert hsum
  decide +kernel

def fourSignals : List (SignalRow ℕ (Option ℚ)) := ⟨13, 1, some 0⟩ :: threeSignals

theorem weightContract_four :
    WeightContract halves fourSignals (halves.convert unitStd fourSignals) := by
  refine (weightContract_iff unitStd (by decide) (by decide) (by decide)).mpr fun d _ _ => ?_
  by_cases hd : 1 = d
  · subst hd
    decide
  · have hnone : signalsOn (SignalToWeight.validRows fourSignals) d = [] := by
      simp [signalsOn, withKey, SignalToWeight.validRows, fourSignals, threeSignals, hd]
    rw [hnone]
    exact dvd_zero _

end TradingPlatform.Alpha
