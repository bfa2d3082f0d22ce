import TradingPlatform.Base.Run
import TradingPlatform.Gateway.Positions
import Mathlib.Data.List.MinMax
import Mathlib.Tactic.FieldSimp
import Mathlib.Tactic.Linarith

/-! # What a history of fills realises

Any list of fills replayed over a flat position. Money that came in and went out
is accounted for by the realised profit and the open quantity at its average
price, so what a flat position has realised does not depend on the order of its
fills.
-/

namespace TradingPlatform.Gateway

open Base

/-- A fill as the position arithmetic takes it. -/
structure PricedFill where
  fillQty : Int
  fillPrice : ℚ
  side : Side
  qty_pos : 0 < fillQty
  price_pos : 0 < fillPrice

def applyFill (position : Int × ℚ × ℚ) (fill : PricedFill) : Int × ℚ × ℚ :=
  calculatePositionUpdate position.1 position.2.1 position.2.2 fill.fillQty fill.fillPrice
    fill.side

def positionAfterFills (fills : List PricedFill) : Int × ℚ × ℚ := run applyFill (0, 0, 0) fills

/-! ## What goes in and out -/

def sharesOf (side : Side) (fills : List PricedFill) : Int :=
  ((fills.filter (·.side = side)).map (·.fillQty)).sum

def moneyOf (side : Side) (fills : List PricedFill) : ℚ :=
  ((fills.filter (·.side = side)).map fun f => (f.fillQty : ℚ) * f.fillPrice).sum

def signedQty (fill : PricedFill) : Int := fill.side.sign * fill.fillQty

def cashFlow (fill : PricedFill) : ℚ := -((signedQty fill : ℚ) * fill.fillPrice)

theorem sum_signedQty (fills : List PricedFill) :
    (fills.map signedQty).sum = sharesOf .buy fills - sharesOf .sell fills := by
  induction fills with
  | nil => rfl
  | cons f fills ih =>
      simp only [sharesOf] at ih
      cases hside : f.side <;> simp [sharesOf, signedQty, hside, ih, Side.sign] <;> omega

theorem sum_cashFlow (fills : List PricedFill) :
    (fills.map cashFlow).sum = moneyOf .sell fills - moneyOf .buy fills := by
  induction fills with
  | nil => simp [moneyOf]
  | cons f fills ih =>
      simp only [moneyOf] at ih
      cases hside : f.side <;> simp [moneyOf, cashFlow, signedQty, hside, ih, Side.sign] <;> ring

/-! ## One fill -/

/-- Realised profit less the open quantity at its average price: the money that came in. -/
def bookValue (position : Int × ℚ × ℚ) : ℚ := position.2.2 - position.1 * position.2.1

/-- The fill goes against an open position. -/
def Closing (side : Side) (oldQty : Int) : Prop :=
  (side = .buy ∧ oldQty < 0) ∨ (side = .sell ∧ 0 < oldQty)

theorem closing_of_not_adding {side : Side} {oldQty : Int} (hopen : oldQty ≠ 0)
    (hadd : ¬((0 < oldQty ∧ side = .buy) ∨ (oldQty < 0 ∧ side = .sell))) :
    Closing side oldQty := by
  cases side with
  | buy =>
      left
      refine ⟨rfl, ?_⟩
      simp at hadd
      omega
  | sell =>
      right
      refine ⟨rfl, ?_⟩
      simp at hadd
      omega

theorem Closing.sign_mul_abs {side : Side} {oldQty : Int} (h : Closing side oldQty) :
    side.sign * |oldQty| = -oldQty := by
  rcases h with ⟨rfl, hold⟩ | ⟨rfl, hold⟩
  · rw [abs_of_neg hold]
    simp [Side.sign]
  · rw [abs_of_pos hold]
    simp [Side.sign]

theorem sign_mul_abs_fill (side : Side) {fillQty : Int} (hfill : 0 < fillQty) :
    side.sign * |side.sign * fillQty| = side.sign * fillQty := by
  cases side <;> simp [Side.sign, abs_of_pos hfill]

/-- Against an open position, profit is the price difference on the closed shares. -/
theorem getRealizedPnl_closing {side : Side} {oldQty : Int} (h : Closing side oldQty)
    (oldAvg price : ℚ) (qtyClosed : Int) :
    getRealizedPnl oldQty oldAvg price side qtyClosed =
      (oldAvg - price) * ((side.sign * qtyClosed : Int) : ℚ) := by
  rcases h with ⟨rfl, hold⟩ | ⟨rfl, hold⟩
  · simp [getRealizedPnl, hold, Side.sign]
  · simp [getRealizedPnl, hold, Side.sign]
    ring

/-- Shares added to a position keep its sign, so quantities add up without it. -/
theorem adding_spec {side : Side} {oldQty fillQty : Int} (hfill : 0 < fillQty)
    (hadd : (0 < oldQty ∧ side = .buy) ∨ (oldQty < 0 ∧ side = .sell)) :
    oldQty = side.sign * |oldQty| ∧ |side.sign * fillQty| = fillQty ∧
      |oldQty + side.sign * fillQty| = |oldQty| + fillQty := by
  rcases hadd with ⟨hold, rfl⟩ | ⟨hold, rfl⟩
  · simp only [Side.sign, one_mul]
    rw [abs_of_pos hold, abs_of_pos hfill, abs_of_pos (by omega)]
    exact ⟨rfl, rfl, rfl⟩
  · simp only [Side.sign]
    rw [abs_of_neg hold, abs_of_neg (by omega), abs_of_neg (by omega)]
    omega

/-- The weighted average accounts for both lots at their prices. -/
theorem weighted_average_mul {a f : ℚ} (ha : 0 < a) (hf : 0 < f) (oldAvg price : ℚ) :
    (a + f) * ((oldAvg * a + price * f) / (a + f)) = oldAvg * a + price * f := by
  have hsum : a + f ≠ 0 := by positivity
  rw [mul_div_cancel₀ _ hsum]

theorem weighted_average_between {a f : ℚ} (ha : 0 < a) (hf : 0 < f) {lo hi oldAvg price : ℚ}
    (hold : lo ≤ oldAvg ∧ oldAvg ≤ hi) (hprice : lo ≤ price ∧ price ≤ hi) :
    lo ≤ (oldAvg * a + price * f) / (a + f) ∧ (oldAvg * a + price * f) / (a + f) ≤ hi := by
  have hsum : 0 < a + f := by positivity
  constructor
  · rw [le_div_iff₀ hsum, mul_add]
    exact add_le_add (mul_le_mul_of_nonneg_right hold.1 ha.le)
      (mul_le_mul_of_nonneg_right hprice.1 hf.le)
  · rw [div_le_iff₀ hsum, mul_add]
    exact add_le_add (mul_le_mul_of_nonneg_right hold.2 ha.le)
      (mul_le_mul_of_nonneg_right hprice.2 hf.le)

/-- A fill adds its cash flow to the book value, whichever branch it takes. -/
theorem bookValue_applyFill (oldQty : Int) (oldAvg oldPl : ℚ) (fill : PricedFill) :
    bookValue (applyFill (oldQty, oldAvg, oldPl) fill) =
      bookValue (oldQty, oldAvg, oldPl) + cashFlow fill := by
  obtain ⟨fillQty, price, side, hfill, -⟩ := fill
  by_cases hclose : oldQty + side.sign * fillQty = 0
  · have hpl := calculatePositionUpdate_close oldQty oldAvg oldPl fillQty price side hfill hclose
    have hqty := calculatePositionUpdate_qty oldQty oldAvg oldPl fillQty price side
    have hsigned : side.sign * fillQty = -oldQty := by omega
    simp only [bookValue, applyFill, hpl, hqty, cashFlow, signedQty, hsigned]
    push_cast
    ring
  · simp only [bookValue, applyFill, cashFlow, signedQty, calculatePositionUpdate, if_neg hclose]
    split_ifs with hopen hadd hflip
    · rw [hopen]
      push_cast
      ring
    · obtain ⟨hold, habs, hnew⟩ := adding_spec hfill hadd
      have hpos : (0 : ℚ) < ((|oldQty| : Int) : ℚ) := by
        exact_mod_cast abs_pos.mpr (show oldQty ≠ 0 from hopen)
      have hfillPos : (0 : ℚ) < (fillQty : ℚ) := by exact_mod_cast hfill
      have hmean := weighted_average_mul hpos hfillPos oldAvg price
      have hqty : oldQty + side.sign * fillQty = side.sign * (|oldQty| + fillQty) := by
        rw [mul_add, ← hold]
      rw [habs, hnew, hqty]
      have hbook : ((side.sign * (|oldQty| + fillQty) : Int) : ℚ) *
          ((oldAvg * ((|oldQty| : Int) : ℚ) + price * fillQty) / ((|oldQty| + fillQty : Int) : ℚ)) =
          side.sign * (oldAvg * ((|oldQty| : Int) : ℚ) + price * fillQty) := by
        rw [Int.cast_mul, mul_assoc, Int.cast_add, hmean]
      have hcast : (oldQty : ℚ) = side.sign * ((|oldQty| : Int) : ℚ) := by exact_mod_cast hold
      rw [hbook, hcast]
      push_cast
      ring
    · have hclosing := closing_of_not_adding hopen hadd
      rw [getRealizedPnl_closing hclosing, hclosing.sign_mul_abs]
      push_cast
      ring
    · have hclosing := closing_of_not_adding hopen hadd
      rw [getRealizedPnl_closing hclosing, sign_mul_abs_fill side hfill]
      push_cast
      ring

/-- An open position has an average price between the bounds, a flat one the price zero. -/
def AvgWithin (lo hi : ℚ) (position : Int × ℚ × ℚ) : Prop :=
  if position.1 = 0 then position.2.1 = 0 else lo ≤ position.2.1 ∧ position.2.1 ≤ hi

theorem avgWithin_applyFill {lo hi : ℚ} {position : Int × ℚ × ℚ} {fill : PricedFill}
    (h : AvgWithin lo hi position) (hprice : lo ≤ fill.fillPrice ∧ fill.fillPrice ≤ hi) :
    AvgWithin lo hi (applyFill position fill) := by
  obtain ⟨oldQty, oldAvg, oldPl⟩ := position
  obtain ⟨fillQty, price, side, hfill, hpos⟩ := fill
  change lo ≤ price ∧ price ≤ hi at hprice
  simp only [AvgWithin] at h
  by_cases hclose : oldQty + side.sign * fillQty = 0
  · simp only [AvgWithin, applyFill, calculatePositionUpdate, if_pos hclose]
  · simp only [AvgWithin, applyFill, calculatePositionUpdate, if_neg hclose]
    split_ifs with hopen hadd hflip
    · exact hprice
    · rw [if_neg hopen] at h
      obtain ⟨-, habs, hnew⟩ := adding_spec hfill hadd
      have hpos : (0 : ℚ) < ((|oldQty| : Int) : ℚ) := by
        exact_mod_cast abs_pos.mpr (show oldQty ≠ 0 from hopen)
      have hfillPos : (0 : ℚ) < (fillQty : ℚ) := by exact_mod_cast hfill
      rw [habs, hnew, Int.cast_add]
      exact weighted_average_between hpos hfillPos h hprice
    · exact hprice
    · rw [if_neg hopen] at h
      exact h

/-! ## A history -/

theorem positionAfterFills_qty (fills : List PricedFill) :
    (positionAfterFills fills).1 = sharesOf .buy fills - sharesOf .sell fills := by
  have hstep : ∀ p f, (applyFill p f).1 = p.1 + signedQty f := by
    intro p f
    rw [applyFill, calculatePositionUpdate_qty, signedQty]
  rw [positionAfterFills, run_accounts_const hstep, sum_signedQty, zero_add]

theorem positionAfterFills_bookValue (fills : List PricedFill) :
    bookValue (positionAfterFills fills) = moneyOf .sell fills - moneyOf .buy fills := by
  have hstep : ∀ p f, bookValue (applyFill p f) = bookValue p + cashFlow f := by
    intro p f
    exact bookValue_applyFill p.1 p.2.1 p.2.2 f
  rw [positionAfterFills, run_accounts_const hstep, sum_cashFlow]
  simp [bookValue]

theorem positionAfterFills_avgWithin {fills : List PricedFill} {lo hi : ℚ}
    (h : ∀ f ∈ fills, lo ≤ f.fillPrice ∧ f.fillPrice ≤ hi) :
    AvgWithin lo hi (positionAfterFills fills) := by
  have hrun : EveryState applyFill (AvgWithin lo hi) (0, 0, 0) fills := by
    apply everyState_of_eachStep (C := fun _ f => lo ≤ f.fillPrice ∧ f.fillPrice ≤ hi)
    · exact fun _ _ hp hf => avgWithin_applyFill hp hf
    · simp [AvgWithin]
    · exact eachStep_of_forall h _
  exact hrun.last

/-- Some fill has the smallest price and some fill the largest. -/
theorem exists_price_bounds {fills : List PricedFill} (h : fills ≠ []) :
    ∃ lo ∈ fills, ∃ hi ∈ fills,
      ∀ f ∈ fills, lo.fillPrice ≤ f.fillPrice ∧ f.fillPrice ≤ hi.fillPrice := by
  obtain ⟨lo, hlo⟩ := Option.ne_none_iff_exists'.mp
    (show fills.argmin (·.fillPrice) ≠ none by simpa using h)
  obtain ⟨hi, hhi⟩ := Option.ne_none_iff_exists'.mp
    (show fills.argmax (·.fillPrice) ≠ none by simpa using h)
  refine ⟨lo, List.argmin_mem hlo, hi, List.argmax_mem hhi, ?_⟩
  intro f hf
  exact ⟨List.le_of_mem_argmin hf hlo, List.le_of_mem_argmax hf hhi⟩

theorem moneyOf_perm (side : Side) {fills reordered : List PricedFill}
    (h : reordered.Perm fills) : moneyOf side reordered = moneyOf side fills :=
  ((h.filter _).map _).sum_eq

theorem sharesOf_perm (side : Side) {fills reordered : List PricedFill}
    (h : reordered.Perm fills) : sharesOf side reordered = sharesOf side fills :=
  ((h.filter _).map _).sum_eq

/-- Quantity, realised profit and average price after any list of fills; and a reordering of
fills that leave the position flat leaves it flat with the same profit. -/
theorem cost_accounting (fills : List PricedFill) :
    let position := positionAfterFills fills
    position.1 = sharesOf .buy fills - sharesOf .sell fills ∧
      position.2.2 = moneyOf .sell fills - moneyOf .buy fills + position.1 * position.2.1 ∧
      (position.2.1 = 0 ↔ position.1 = 0) ∧
      (position.1 ≠ 0 → ∃ lo ∈ fills, ∃ hi ∈ fills,
        (∀ f ∈ fills, lo.fillPrice ≤ f.fillPrice ∧ f.fillPrice ≤ hi.fillPrice) ∧
        lo.fillPrice ≤ position.2.1 ∧ position.2.1 ≤ hi.fillPrice) ∧
      ∀ reordered, reordered.Perm fills → position.1 = 0 →
        (positionAfterFills reordered).1 = 0 ∧
          (positionAfterFills reordered).2.2 = position.2.2 := by
  intro position
  have hqty : position.1 = sharesOf .buy fills - sharesOf .sell fills :=
    positionAfterFills_qty fills
  have hvalue : ∀ l, (positionAfterFills l).2.2 = moneyOf .sell l - moneyOf .buy l +
      (positionAfterFills l).1 * (positionAfterFills l).2.1 := by
    intro l
    have hbook := positionAfterFills_bookValue l
    rw [bookValue] at hbook
    linarith
  have hbounds : position.1 ≠ 0 → ∃ lo ∈ fills, ∃ hi ∈ fills,
      (∀ f ∈ fills, lo.fillPrice ≤ f.fillPrice ∧ f.fillPrice ≤ hi.fillPrice) ∧
      lo.fillPrice ≤ position.2.1 ∧ position.2.1 ≤ hi.fillPrice := by
    intro hopen
    have hsome : fills ≠ [] := by
      rintro rfl
      exact hopen rfl
    obtain ⟨lo, hlo, hi, hhi, hprices⟩ := exists_price_bounds hsome
    have hwithin := positionAfterFills_avgWithin hprices
    rw [AvgWithin, if_neg hopen] at hwithin
    exact ⟨lo, hlo, hi, hhi, hprices, hwithin⟩
  refine ⟨hqty, hvalue fills, ?_, hbounds, ?_⟩
  · constructor
    · -- An open position has the price of some fill as a lower bound, which is positive.
      intro hzero
      by_contra hopen
      obtain ⟨lo, -, -, -, -, hle, -⟩ := hbounds hopen
      have hpos := lo.price_pos
      rw [hzero] at hle
      linarith
    · intro hflat
      by_cases hempty : fills = []
      · subst hempty
        rfl
      · obtain ⟨lo, -, hi, -, hprices⟩ := exists_price_bounds hempty
        have hwithin := positionAfterFills_avgWithin hprices
        rw [AvgWithin, if_pos hflat] at hwithin
        exact hwithin
  · intro reordered hperm hflat
    have hsame : (positionAfterFills reordered).1 = position.1 := by
      rw [hqty, positionAfterFills_qty, sharesOf_perm _ hperm, sharesOf_perm _ hperm]
    refine ⟨hsame.trans hflat, ?_⟩
    have hflat' : ((positionAfterFills fills).1 : ℚ) = 0 := by exact_mod_cast hflat
    have hflat'' : ((positionAfterFills reordered).1 : ℚ) = 0 := by exact_mod_cast hsame.trans hflat
    rw [hvalue, hvalue fills, moneyOf_perm _ hperm, moneyOf_perm _ hperm, hflat', hflat'',
      zero_mul, zero_mul]

end TradingPlatform.Gateway
