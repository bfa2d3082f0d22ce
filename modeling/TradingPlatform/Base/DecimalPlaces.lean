import TradingPlatform.Base.Rounding
import Mathlib.Algebra.Order.Field.Power
import Mathlib.Tactic.FieldSimp
import Mathlib.Tactic.Linarith
import Mathlib.Tactic.Positivity
import Mathlib.Tactic.Ring

/-! # Numbers with a fixed number of places

What a numeric column holds is a multiple of its last place. Adding such a number
moves a rounding along, as long as neither of the two is negative, and a
difference of half a place at most is rounded away.
-/

namespace TradingPlatform.Base

variable {places : ℕ} {a q δ : ℚ}

def AtScale (places : ℕ) (q : ℚ) : Prop := ∃ n : ℤ, q = n / 10 ^ places

/-- Half of the last place. -/
def halfPlace (places : ℕ) : ℚ := 1 / (2 * 10 ^ places)

theorem halfPlace_pos (places : ℕ) : 0 < halfPlace places := by
  unfold halfPlace
  positivity

theorem unit_mul_halfPlace (places : ℕ) : halfPlace places * 10 ^ places = 1 / 2 := by
  have hunit : (10 : ℚ) ^ places ≠ 0 := by positivity
  unfold halfPlace
  field_simp

theorem atScale_toScale (places : ℕ) (q : ℚ) : AtScale places (toScale places q) := by
  unfold toScale
  dsimp only
  split
  · exact ⟨_, rfl⟩
  · refine ⟨-⌊-q * 10 ^ places + 1 / 2⌋, ?_⟩
    push_cast
    ring

theorem AtScale.add (ha : AtScale places a) (hq : AtScale places q) : AtScale places (a + q) := by
  obtain ⟨m, rfl⟩ := ha
  obtain ⟨n, rfl⟩ := hq
  refine ⟨m + n, ?_⟩
  push_cast
  ring

theorem AtScale.sub (ha : AtScale places a) (hq : AtScale places q) : AtScale places (a - q) := by
  obtain ⟨m, rfl⟩ := ha
  obtain ⟨n, rfl⟩ := hq
  refine ⟨m - n, ?_⟩
  push_cast
  ring

theorem atScale_zero : AtScale places 0 := ⟨0, by simp⟩

theorem toScale_of_nonneg (h : 0 ≤ q) :
    toScale places q = ⌊q * 10 ^ places + 1 / 2⌋ / 10 ^ places := if_pos h

theorem toScale_of_neg (h : q < 0) :
    toScale places q = -(⌊-q * 10 ^ places + 1 / 2⌋ / 10 ^ places) := if_neg (not_le.mpr h)

/-- The floor in a rounding, of a number that lies within half a place of `n` places. -/
theorem floor_near {n : ℤ} {x : ℚ} (hlow : -(1 / 2) ≤ x) (hhigh : x < 1 / 2) :
    ⌊(n : ℚ) + x + 1 / 2⌋ = n := by
  rw [Int.floor_eq_iff]
  constructor <;> linarith

/-- What lies within half a place of a positive number of places is rounded to it, and so is what
lies less than half a place from any other. -/
theorem toScale_near (ha : AtScale places a) (hlow : -halfPlace places ≤ δ)
    (hhigh : δ < halfPlace places) (htie : δ = -halfPlace places → 0 < a) :
    toScale places (a + δ) = a := by
  obtain ⟨n, rfl⟩ := ha
  have hunit : (0 : ℚ) < 10 ^ places := by positivity
  have hhalf := unit_mul_halfPlace places
  have hlow' : -(1 / 2) ≤ δ * 10 ^ places := by
    have := mul_le_mul_of_nonneg_right hlow hunit.le
    linarith
  have hhigh' : δ * 10 ^ places < 1 / 2 := by
    have := mul_lt_mul_of_pos_right hhigh hunit
    linarith
  have hscale : ((n : ℚ) / 10 ^ places + δ) * 10 ^ places = n + δ * 10 ^ places := by
    field_simp
  rcases lt_or_ge ((n : ℚ) / 10 ^ places + δ) 0 with hneg | hpos
  · have hstrict : -(1 / 2) < δ * 10 ^ places := by
      apply lt_of_le_of_ne hlow'
      intro heq
      have hδ : δ = -halfPlace places := by
        apply mul_right_cancel₀ hunit.ne'
        linarith
      have hn : (0 : ℚ) < n := by
        have := mul_pos (htie hδ) hunit
        rwa [div_mul_cancel₀ _ hunit.ne'] at this
      have hone : (1 : ℚ) ≤ n := by exact_mod_cast Int.cast_pos.mp hn
      have := mul_neg_of_neg_of_pos hneg hunit
      rw [hscale] at this
      linarith
    rw [toScale_of_neg hneg, neg_mul, hscale]
    have hfloor : ⌊-((n : ℚ) + δ * 10 ^ places) + 1 / 2⌋ = -n := by
      rw [Int.floor_eq_iff]
      push_cast
      constructor <;> linarith
    rw [hfloor]
    push_cast
    ring
  · rw [toScale_of_nonneg hpos, hscale, floor_near hlow' hhigh']

/-- Half a place below a number that is not positive the next place is reached. -/
theorem toScale_sub_halfPlace (ha : AtScale places a) (hneg : a ≤ 0) :
    toScale places (a + -halfPlace places) < a := by
  obtain ⟨n, rfl⟩ := ha
  have hunit : (0 : ℚ) < 10 ^ places := by positivity
  have hhalf := unit_mul_halfPlace places
  have hpos := halfPlace_pos places
  have hsum : (n : ℚ) / 10 ^ places + -halfPlace places < 0 := by linarith
  have hscale : -((n : ℚ) / 10 ^ places + -halfPlace places) * 10 ^ places + 1 / 2 =
      ((-n + 1 : ℤ) : ℚ) := by
    push_cast
    have : (n : ℚ) / 10 ^ places * 10 ^ places = n := div_mul_cancel₀ _ hunit.ne'
    linarith
  rw [toScale_of_neg hsum, hscale, Int.floor_intCast, ← neg_div]
  apply div_lt_div_of_pos_right _ hunit
  push_cast
  linarith

theorem toScale_eq_self (h : AtScale places q) : toScale places q = q := by
  have hpos := halfPlace_pos places
  have hnear := toScale_near (δ := 0) h (by linarith) hpos (by
    intro heq
    linarith)
  rwa [add_zero] at hnear

theorem toScale_nonneg (h : 0 ≤ q) : 0 ≤ toScale places q := by
  rw [toScale_of_nonneg h]
  have hfloor : 0 ≤ ⌊q * 10 ^ places + 1 / 2⌋ := Int.floor_nonneg.mpr (by positivity)
  positivity

/-- A rounding differs by half a place at most, and upwards if by so much. -/
theorem toScale_bounds (h : 0 ≤ q) :
    -halfPlace places ≤ q - toScale places q ∧ q - toScale places q < halfPlace places := by
  have hunit : (0 : ℚ) < 10 ^ places := by positivity
  have hhalf := unit_mul_halfPlace places
  rw [toScale_of_nonneg h]
  have hle := Int.floor_le (q * 10 ^ places + 1 / 2)
  have hlt := Int.lt_floor_add_one (q * 10 ^ places + 1 / 2)
  have hcancel : (⌊q * 10 ^ places + 1 / 2⌋ : ℚ) / 10 ^ places * 10 ^ places =
      ⌊q * 10 ^ places + 1 / 2⌋ := div_mul_cancel₀ _ hunit.ne'
  constructor
  · apply le_of_mul_le_mul_right _ hunit
    rw [sub_mul, hcancel]
    linarith
  · apply lt_of_mul_lt_mul_right _ hunit.le
    rw [sub_mul, hcancel]
    linarith

/-- Places that are added move a rounding along. -/
theorem toScale_add (ha : AtScale places a) (hnonneg : 0 ≤ a) (hq : 0 ≤ toScale places q) :
    toScale places (a + q) = a + toScale places q := by
  have hunit : (0 : ℚ) < 10 ^ places := by positivity
  have hhalf := unit_mul_halfPlace places
  rcases lt_or_ge q 0 with hneg | hpos
  · -- the rounding of a negative number is not, so that it is next to nothing
    have hfloor : ⌊-q * 10 ^ places + 1 / 2⌋ ≤ 0 := by
      rw [toScale_of_neg hneg, ← neg_div] at hq
      have := mul_nonneg hq hunit.le
      rw [div_mul_cancel₀ _ hunit.ne'] at this
      have hcast : (⌊-q * 10 ^ places + 1 / 2⌋ : ℚ) ≤ 0 := by linarith
      exact_mod_cast hcast
    have hsmall : -q * 10 ^ places + 1 / 2 < 1 := by
      have := Int.floor_lt.mp (Int.lt_add_one_of_le hfloor)
      simpa using this
    have hlow : -halfPlace places < q := by
      apply lt_of_mul_lt_mul_right _ hunit.le
      linarith
    have hpos := halfPlace_pos places
    have hzero := toScale_near (a := 0) atScale_zero hlow.le (by linarith)
      fun heq => absurd heq hlow.ne'
    rw [zero_add] at hzero
    rw [hzero, add_zero]
    exact toScale_near ha hlow.le (by linarith) fun heq => absurd heq hlow.ne'
  · obtain ⟨n, rfl⟩ := ha
    have hscale : ((n : ℚ) / 10 ^ places + q) * 10 ^ places + 1 / 2 =
        n + (q * 10 ^ places + 1 / 2) := by
      field_simp
      ring
    rw [toScale_of_nonneg (add_nonneg hnonneg hpos), toScale_of_nonneg hpos, hscale,
      Int.floor_intCast_add]
    push_cast
    ring

/-! ## Significant digits -/

/-- A number that an arithmetic context of that many digits does not round. -/
def FitsDigits (digits : ℕ) (q : ℚ) : Prop :=
  ∃ k e : ℤ, q = k * 10 ^ e ∧ |k| < 10 ^ digits

variable {digits : ℕ}

theorem roundHalfEven_intCast (n : ℤ) : roundHalfEven n = n := by
  unfold roundHalfEven
  simp

theorem roundHalfEven_bounds (x : ℚ) : ⌊x⌋ ≤ roundHalfEven x ∧ roundHalfEven x ≤ ⌊x⌋ + 1 := by
  unfold roundHalfEven
  dsimp only
  split <;> omega

theorem roundHalfEven_error (x : ℚ) : |roundHalfEven x - x| ≤ 1 / 2 := by
  have hlower := Int.floor_le x
  have hupper := Int.lt_floor_add_one x
  unfold roundHalfEven
  dsimp only
  split
  · rename_i hdown
    have hle : x - ⌊x⌋ ≤ 1 / 2 := by
      rcases hdown with hlt | heq
      · exact hlt.le
      · exact heq.1.le
    rw [abs_le]
    constructor <;> linarith
  · rename_i hup
    have hge : 1 / 2 ≤ x - ⌊x⌋ := by
      by_contra hlt
      exact hup (.inl (not_le.1 hlt))
    push_cast
    rw [abs_le]
    constructor <;> linarith

/-- A context of that many digits is off by half a unit of the last one at most. -/
theorem toPrecision_error (digits : ℕ) (q : ℚ) :
    |toPrecision digits q - q| ≤ |q| * (10 / 10 ^ digits) / 2 := by
  by_cases hzero : q = 0
  · rw [hzero]
    simp [toPrecision, roundHalfEven]
  have hunit : (0 : ℚ) < 10 ^ (Int.log 10 |q| + 1 - digits) := by positivity
  have hlog : (10 : ℚ) ^ Int.log 10 |q| ≤ |q| := by
    have hle := Int.zpow_log_le_self (b := 10) (by norm_num) (abs_pos.mpr hzero)
    exact_mod_cast hle
  have hsplit : (10 : ℚ) ^ (Int.log 10 |q| + 1 - digits) =
      10 ^ Int.log 10 |q| * (10 / 10 ^ digits) := by
    rw [zpow_sub₀ (by norm_num), zpow_add₀ (by norm_num), zpow_one, zpow_natCast]
    ring
  have hround := roundHalfEven_error (q / 10 ^ (Int.log 10 |q| + 1 - digits))
  have hscaled : toPrecision digits q - q =
      (roundHalfEven (q / 10 ^ (Int.log 10 |q| + 1 - digits)) -
        q / 10 ^ (Int.log 10 |q| + 1 - digits)) * 10 ^ (Int.log 10 |q| + 1 - digits) := by
    rw [sub_mul, div_mul_cancel₀ _ hunit.ne']
    rfl
  rw [hscaled, abs_mul, abs_of_pos hunit]
  calc _ ≤ 1 / 2 * (10 : ℚ) ^ (Int.log 10 |q| + 1 - digits) :=
        mul_le_mul_of_nonneg_right hround hunit.le
    _ = 10 ^ Int.log 10 |q| * (10 / 10 ^ digits) / 2 := by
        rw [hsplit]
        ring
    _ ≤ |q| * (10 / 10 ^ digits) / 2 := by
        have hpos : (0 : ℚ) ≤ 10 / 10 ^ digits := by positivity
        have hmul := mul_le_mul_of_nonneg_right hlog hpos
        linarith

theorem toPrecision_nonneg {q : ℚ} (h : 0 ≤ q) : 0 ≤ toPrecision digits q := by
  have hunit : (0 : ℚ) < 10 ^ (Int.log 10 |q| + 1 - digits) := by positivity
  have hfloor := Int.floor_nonneg.mpr (div_nonneg h hunit.le)
  have hround := hfloor.trans (roundHalfEven_bounds _).1
  exact mul_nonneg (by exact_mod_cast hround) hunit.le

theorem toPrecision_nonpos {q : ℚ} (h : q ≤ 0) : toPrecision digits q ≤ 0 := by
  rcases eq_or_lt_of_le h with hzero | hneg
  · rw [hzero]
    simp [toPrecision, roundHalfEven]
  · have hunit : (0 : ℚ) < 10 ^ (Int.log 10 |q| + 1 - digits) := by positivity
    have hfloor : ⌊q / 10 ^ (Int.log 10 |q| + 1 - digits)⌋ < 0 := by
      apply Int.floor_lt.mpr
      exact_mod_cast div_neg_of_neg_of_pos hneg hunit
    have hround : roundHalfEven (q / 10 ^ (Int.log 10 |q| + 1 - digits)) ≤ 0 := by
      have hbound := (roundHalfEven_bounds (q / 10 ^ (Int.log 10 |q| + 1 - digits))).2
      omega
    exact mul_nonpos_of_nonpos_of_nonneg (by exact_mod_cast hround) hunit.le

theorem fitsDigits_of_le {k e : ℤ} (hdigits : 0 < digits) (hk : |k| ≤ 10 ^ digits) :
    FitsDigits digits (k * 10 ^ e) := by
  rcases lt_or_eq_of_le hk with hlt | heq
  · exact ⟨k, e, rfl, hlt⟩
  · -- a power of ten has one digit
    have hone : |k.sign| < (10 : ℤ) ^ digits := by
      have hsign : |k.sign| ≤ 1 := by
        rcases Int.sign_trichotomy k with h | h | h <;> simp [h]
      exact lt_of_le_of_lt hsign (one_lt_pow₀ (by norm_num) hdigits.ne')
    refine ⟨k.sign, digits + e, ?_, hone⟩
    have hk' : (k : ℚ) = k.sign * 10 ^ (digits : ℤ) := by
      have hsplit : k = k.sign * 10 ^ digits := by
        rw [← heq, Int.sign_mul_abs]
      have hcast : (k : ℚ) = ((k.sign * 10 ^ digits : ℤ) : ℚ) := congrArg Int.cast hsplit
      rw [hcast]
      push_cast
      rw [zpow_natCast]
    rw [zpow_add₀ (by norm_num), hk']
    ring

theorem fitsDigits_toPrecision (hdigits : 0 < digits) (q : ℚ) :
    FitsDigits digits (toPrecision digits q) := by
  unfold toPrecision
  dsimp only
  apply fitsDigits_of_le hdigits
  have hunit : (0 : ℚ) < 10 ^ (Int.log 10 |q| + 1 - digits) := by positivity
  have hlog : |q| < (10 : ℚ) ^ (Int.log 10 |q| + 1) := by
    have := Int.lt_zpow_succ_log_self (b := 10) (by norm_num) |q|
    exact_mod_cast this
  have hquot : |q / 10 ^ (Int.log 10 |q| + 1 - digits)| < 10 ^ digits := by
    rw [abs_div, abs_of_pos hunit, div_lt_iff₀ hunit, ← zpow_natCast,
      ← zpow_add₀ (by norm_num), add_sub_cancel]
    exact hlog
  obtain ⟨hlow, hhigh⟩ := abs_lt.mp hquot
  obtain ⟨hfloor, hceil⟩ := roundHalfEven_bounds (q / 10 ^ (Int.log 10 |q| + 1 - digits))
  have hfloorLow : -(10 : ℤ) ^ digits ≤ ⌊q / 10 ^ (Int.log 10 |q| + 1 - digits)⌋ := by
    apply Int.le_floor.mpr
    push_cast
    exact hlow.le
  have hfloorHigh : ⌊q / 10 ^ (Int.log 10 |q| + 1 - digits)⌋ < (10 : ℤ) ^ digits := by
    apply Int.floor_lt.mpr
    push_cast
    exact hhigh
  rw [abs_le]
  constructor <;> omega

theorem toPrecision_eq_self (h : FitsDigits digits q) : toPrecision digits q = q := by
  obtain ⟨k, e, hq, hk⟩ := h
  by_cases hzero : q = 0
  · rw [hzero]
    simp [toPrecision, roundHalfEven]
  have hlog : Int.log 10 |q| < digits + e := by
    have hle := Int.zpow_log_le_self (b := 10) (by norm_num) (abs_pos.mpr hzero)
    have hlt : |q| < (10 : ℚ) ^ ((digits : ℤ) + e) := by
      have hten : (0 : ℚ) < 10 ^ e := by positivity
      rw [hq, abs_mul, abs_of_pos hten, zpow_add₀ (by norm_num), zpow_natCast]
      apply mul_lt_mul_of_pos_right _ hten
      exact_mod_cast hk
    have := lt_of_le_of_lt hle hlt
    push_cast at this
    exact (zpow_lt_zpow_iff_right₀ (by norm_num)).mp this
  obtain ⟨n, hn⟩ := Int.eq_ofNat_of_zero_le
    (show 0 ≤ e - (Int.log 10 |q| + 1 - digits) by omega)
  have hunit : (10 : ℚ) ^ (Int.log 10 |q| + 1 - digits) ≠ 0 := by positivity
  have hquot : q / 10 ^ (Int.log 10 |q| + 1 - digits) = ((k * 10 ^ n : ℤ) : ℚ) := by
    have hsplit : e = (n : ℤ) + (Int.log 10 |q| + 1 - digits) := by omega
    rw [div_eq_iff hunit]
    push_cast
    conv_lhs => rw [hq, hsplit, zpow_add₀ (by norm_num), zpow_natCast]
    ring
  unfold toPrecision
  dsimp only
  rw [hquot, roundHalfEven_intCast, ← hquot, div_mul_cancel₀ _ hunit]

/-- A running sum that the context rounds after each term. -/
def contextSum (digits : ℕ) (start : ℚ) (terms : List ℚ) : ℚ :=
  terms.foldl (fun total x => toPrecision digits (total + x)) start

/-- A running sum is exact as long as each of its values fits the digits. -/
theorem contextSum_eq_sum {start : ℚ} {terms : List ℚ}
    (h : ∀ n, FitsDigits digits (start + (terms.take n).sum)) :
    contextSum digits start terms = start + terms.sum := by
  induction terms generalizing start with
  | nil => simp [contextSum]
  | cons x terms ih =>
      have hfirst : toPrecision digits (start + x) = start + x := by
        apply toPrecision_eq_self
        simpa using h 1
      have hfits : ∀ n, FitsDigits digits (start + x + (terms.take n).sum) := fun n => by
        simpa [add_assoc] using h (n + 1)
      have hrest := ih hfits
      rw [List.sum_cons, ← add_assoc, ← hrest]
      show contextSum digits (toPrecision digits (start + x)) terms = _
      rw [hfirst]

/-- What a number has beyond its places fits the digits that the number fits. -/
theorem fitsDigits_sub_toScale (hdigits : 0 < digits) (h : FitsDigits digits q) (hq : 0 ≤ q) :
    FitsDigits digits (q - toScale places q) := by
  have hfits := h
  obtain ⟨k, e, hqe, hk⟩ := h
  rcases le_or_gt (-(places : ℤ)) e with hle | hlt
  · obtain ⟨n, hn⟩ := Int.eq_ofNat_of_zero_le (show 0 ≤ e + places by omega)
    have hscale : AtScale places q := by
      refine ⟨k * 10 ^ n, ?_⟩
      have hunit : (10 : ℚ) ^ places ≠ 0 := by positivity
      rw [eq_div_iff hunit, hqe, mul_assoc, ← zpow_natCast (10 : ℚ) places,
        ← zpow_add₀ (by norm_num), hn]
      push_cast
      rfl
    rw [toScale_eq_self hscale, sub_self]
    exact ⟨0, 0, by simp, by positivity⟩
  · obtain ⟨n, hn⟩ := Int.eq_ofNat_of_zero_le (show 0 ≤ -(places : ℤ) - e by omega)
    have hten : (0 : ℚ) < 10 ^ e := by positivity
    have hplaces : (1 : ℚ) / 10 ^ places = 10 ^ n * 10 ^ e := by
      rw [← zpow_natCast, ← zpow_natCast, ← zpow_add₀ (by norm_num), one_div, ← zpow_neg]
      congr 1
      omega
    have hhalf : halfPlace places = 10 ^ n * 10 ^ e / 2 := by
      rw [← hplaces]
      unfold halfPlace
      field_simp
    by_cases hmany : n ≤ digits
    · obtain ⟨r, hr⟩ := atScale_toScale places q
      have hdiff : q - toScale places q = ((k - r * 10 ^ n : ℤ) : ℚ) * 10 ^ e := by
        rw [hr, div_eq_mul_one_div, hplaces]
        nth_rewrite 1 [hqe]
        push_cast
        ring
      rw [hdiff]
      apply fitsDigits_of_le hdigits
      have hbounds := @toScale_bounds places q hq
      have habs : |((k - r * 10 ^ n : ℤ) : ℚ)| ≤ 10 ^ n / 2 := by
        rw [hdiff, hhalf] at hbounds
        rw [abs_le]
        constructor
        · apply le_of_mul_le_mul_right _ hten
          linarith [hbounds.1]
        · apply le_of_mul_le_mul_right _ hten
          linarith [hbounds.2]
      have hpow : (10 : ℚ) ^ n ≤ 10 ^ digits := pow_le_pow_right₀ (by norm_num) hmany
      have hpos : (0 : ℚ) < 10 ^ n := by positivity
      have hcast : ((|k - r * 10 ^ n| : ℤ) : ℚ) ≤ ((10 ^ digits : ℤ) : ℚ) := by
        push_cast at habs ⊢
        linarith
      exact_mod_cast hcast
    · have hsmall : q < halfPlace places := by
        have hk' : (k : ℚ) < 10 ^ digits := by
          have := lt_of_abs_lt hk
          exact_mod_cast this
        have hqlt : q < 10 ^ digits * 10 ^ e := by
          rw [hqe]
          exact mul_lt_mul_of_pos_right hk' hten
        have hpow : (10 : ℚ) ^ (digits + 1) ≤ 10 ^ n :=
          pow_le_pow_right₀ (by norm_num) (by omega)
        have hstep : (10 : ℚ) ^ digits * 10 * 10 ^ e ≤ 10 ^ n * 10 ^ e := by
          rw [← pow_succ]
          exact mul_le_mul_of_nonneg_right hpow hten.le
        have hpos : (0 : ℚ) < 10 ^ digits * 10 ^ e := by positivity
        rw [hhalf]
        linarith
      have hzero := @toScale_near places 0 q atScale_zero
        (by linarith [halfPlace_pos places]) hsmall (by
          intro heq
          linarith [halfPlace_pos places])
      rw [zero_add] at hzero
      rwa [hzero, sub_zero]

end TradingPlatform.Base
