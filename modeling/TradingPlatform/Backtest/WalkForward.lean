import TradingPlatform.Base.Months
import Mathlib.Algebra.Order.Ring.Int
import Mathlib.Data.List.Range
import Mathlib.Tactic.Linarith
import Mathlib.Tactic.Ring

/-! # Windows of the walk-forward optimization

A window is a range of days to train on and one to test on, right after it. The next window starts a
number of months after the one before; every date is clamped to its month, and the start of a window
goes on from the clamped start before.
-/

namespace TradingPlatform.Backtest

open Base

structure WalkForwardConfig where
  trainMonths : ℤ
  testMonths : ℤ
  stepMonths : ℤ
  minTrainSamples : ℤ

structure Window where
  trainStart : ℤ
  trainEnd : ℤ
  testStart : ℤ
  testEnd : ℤ
  deriving DecidableEq, Repr

inductive WindowError where
  | overlappingTests | trainTooShort | yearOutOfRange
  deriving DecidableEq, Repr

/-- `date.max`, the last of December 9999. -/
def maxDate : ℤ := 3652059

def plusMonths (day months : ℤ) : Except WindowError ℤ :=
  if addMonths day months ≤ maxDate then .ok (addMonths day months) else .error .yearOutOfRange

section

-- unfolding the calendar does not help to reduce the loop
attribute [local irreducible] addMonths

/-- A round of the loop, which ends it or appends a window and moves the cursor. -/
def nextWindow (config : WalkForwardConfig) (endDate cursor : ℤ) :
    Except WindowError (Option (Window × ℤ)) := do
  let afterTrain ← plusMonths cursor config.trainMonths
  let trainEnd := afterTrain - 1
  let testStart := trainEnd + 1
  let afterTest ← plusMonths testStart config.testMonths
  let testEnd := afterTest - 1
  if endDate < testEnd then return none
  else if trainEnd - cursor + 1 < config.minTrainSamples then throw .trainTooShort
  else
    let next ← plusMonths cursor config.stepMonths
    return some (⟨cursor, trainEnd, testStart, testEnd⟩, next)

/-- The loop, of so many rounds at most. -/
def windowsFrom (config : WalkForwardConfig) (endDate : ℤ) :
    ℕ → ℤ → Option (Except WindowError (List Window))
  | 0, _ => none
  | fuel + 1, cursor =>
      match nextWindow config endDate cursor with
      | .error e => some (.error e)
      | .ok none => some (.ok [])
      | .ok (some (window, next)) =>
          (windowsFrom config endDate fuel next).map (Except.map (window :: ·))

def generateWindows (config : WalkForwardConfig) (startDate endDate : ℤ) (fuel : ℕ) :
    Option (Except WindowError (List Window)) :=
  if config.stepMonths < config.testMonths then some (.error .overlappingTests)
  else windowsFrom config endDate fuel startDate

/-! ## What windows promise -/

structure Separated (startDate endDate : ℤ) (windows : List Window) : Prop where
  adjacent : ∀ w ∈ windows, w.trainEnd + 1 = w.testStart ∧ w.testStart ≤ w.testEnd
  inside : ∀ w ∈ windows, startDate ≤ w.trainStart ∧ w.trainStart ≤ w.trainEnd ∧
    w.testEnd ≤ endDate
  tests : windows.Pairwise fun w w' => w.testEnd < w'.testStart
  trains : windows.Pairwise fun w w' => w.trainStart < w'.trainStart

/-- The loop ends, with windows that are separated. -/
def NeverLeaks (config : WalkForwardConfig) (startDate endDate : ℤ) : Prop :=
  ∃ windows, (∃ n, ∀ fuel, n ≤ fuel →
    generateWindows config startDate endDate fuel = some (.ok windows)) ∧
      Separated startDate endDate windows

/-- A configuration that the optimizer accepts. -/
structure WalkForwardConfig.Positive (config : WalkForwardConfig) : Prop where
  train : 1 ≤ config.trainMonths
  test : 1 ≤ config.testMonths
  step : config.testMonths ≤ config.stepMonths

/-! ## The windows by their number -/

def trainStartAt (config : WalkForwardConfig) (startDate : ℤ) : ℕ → ℤ
  | 0 => startDate
  | k + 1 => addMonths (trainStartAt config startDate k) config.stepMonths

def testStartAt (config : WalkForwardConfig) (startDate : ℤ) (k : ℕ) : ℤ :=
  addMonths (trainStartAt config startDate k) config.trainMonths

def testEndAt (config : WalkForwardConfig) (startDate : ℤ) (k : ℕ) : ℤ :=
  addMonths (testStartAt config startDate k) config.testMonths - 1

def windowAt (config : WalkForwardConfig) (startDate : ℤ) (k : ℕ) : Window where
  trainStart := trainStartAt config startDate k
  trainEnd := testStartAt config startDate k - 1
  testStart := testStartAt config startDate k
  testEnd := testEndAt config startDate k

/-- No window is refused for its length. -/
def EnoughSamples (config : WalkForwardConfig) (startDate endDate : ℤ) : Prop :=
  ∀ k, testEndAt config startDate k ≤ endDate →
    config.minTrainSamples ≤ testStartAt config startDate k - trainStartAt config startDate k

/-- The steps are as long as the tests, and the start of the next window is clamped in a month
shorter than the day of the start before and than the months of both test starts. -/
def Overlaps (config : WalkForwardConfig) (startDate : ℤ) (k : ℕ) : Prop :=
  config.stepMonths = config.testMonths ∧
    monthLength (monthOf startDate + (k + 1) * config.stepMonths) <
      min (dayOf (trainStartAt config startDate k))
        (min (monthLength (monthOf startDate + k * config.stepMonths + config.trainMonths))
          (monthLength (monthOf startDate + (k + 1) * config.stepMonths + config.trainMonths)))

variable {config : WalkForwardConfig} {startDate endDate : ℤ} {k j n : ℕ}

theorem monthOf_trainStartAt (config : WalkForwardConfig) (startDate : ℤ) (k : ℕ) :
    monthOf (trainStartAt config startDate k) = monthOf startDate + k * config.stepMonths := by
  induction k with
  | zero => simp [trainStartAt]
  | succ k ih =>
      rw [trainStartAt, monthOf_addMonths, ih]
      push_cast
      ring

theorem monthOf_testStartAt (config : WalkForwardConfig) (startDate : ℤ) (k : ℕ) :
    monthOf (testStartAt config startDate k) =
      monthOf startDate + k * config.stepMonths + config.trainMonths := by
  rw [testStartAt, monthOf_addMonths, monthOf_trainStartAt]

theorem monthOf_testEndAt (config : WalkForwardConfig) (startDate : ℤ) (k : ℕ) :
    monthOf (testEndAt config startDate k + 1) =
      monthOf startDate + k * config.stepMonths + config.trainMonths + config.testMonths := by
  rw [testEndAt, Int.sub_add_cancel, monthOf_addMonths, monthOf_testStartAt]

theorem dayOf_trainStartAt_le (config : WalkForwardConfig) (startDate : ℤ) (k : ℕ) :
    dayOf (trainStartAt config startDate k) ≤ dayOf startDate := by
  induction k with
  | zero => exact le_rfl
  | succ k ih =>
      rw [trainStartAt, dayOf_addMonths]
      omega

theorem lt_of_lt_succ {f : ℕ → ℤ} (h : ∀ k, f k < f (k + 1)) (hjk : j < k) : f j < f k := by
  induction k with
  | zero => omega
  | succ k ih =>
      have hstep := h k
      by_cases hsame : j = k
      · rw [hsame]
        exact hstep
      · have hearlier := ih (by omega)
        omega

theorem trainStartAt_lt (h : config.Positive) (hjk : j < k) :
    trainStartAt config startDate j < trainStartAt config startDate k := by
  apply lt_of_lt_succ _ hjk
  intro k
  have htest := h.test
  have hstep := h.step
  exact lt_addMonths (by omega)

theorem add_le_trainStartAt (h : config.Positive) (startDate : ℤ) (k : ℕ) :
    startDate + k ≤ trainStartAt config startDate k := by
  induction k with
  | zero => simp [trainStartAt]
  | succ k ih =>
      have hlt : trainStartAt config startDate k < trainStartAt config startDate (k + 1) :=
        trainStartAt_lt h (Nat.lt_succ_self k)
      push_cast
      omega

theorem trainStartAt_lt_testStartAt (h : config.Positive) (startDate : ℤ) (k : ℕ) :
    trainStartAt config startDate k < testStartAt config startDate k := lt_addMonths h.train

theorem testStartAt_le_testEndAt (h : config.Positive) (startDate : ℤ) (k : ℕ) :
    testStartAt config startDate k ≤ testEndAt config startDate k := by
  have hlt : testStartAt config startDate k <
      addMonths (testStartAt config startDate k) config.testMonths := lt_addMonths h.test
  unfold testEndAt
  omega

theorem testEndAt_lt (h : config.Positive) (hjk : j < k) :
    testEndAt config startDate j < testEndAt config startDate k := by
  apply lt_of_lt_succ _ hjk
  intro k
  have hmonth : monthOf (testEndAt config startDate k + 1) <
      monthOf (testEndAt config startDate (k + 1) + 1) := by
    have htest := h.test
    have hstep := h.step
    rw [monthOf_testEndAt, monthOf_testEndAt]
    push_cast
    linarith
  have hlt := lt_of_monthOf_lt hmonth
  omega

theorem testEndAt_le (h : config.Positive) (hjk : j ≤ k) :
    testEndAt config startDate j ≤ testEndAt config startDate k := by
  by_cases hsame : j = k
  · rw [hsame]
  · have hlt : testEndAt config startDate j < testEndAt config startDate k :=
      testEndAt_lt h (by omega)
    omega

/-! ## The loop -/

section

attribute [local irreducible] trainStartAt testStartAt testEndAt

theorem plusMonths_of_le {day months next : ℤ} (hnext : addMonths day months = next)
    (h : next ≤ maxDate) : plusMonths day months = .ok next := by
  rw [← hnext] at h ⊢
  exact if_pos h

theorem plusMonths_of_lt {day months next : ℤ} (hnext : addMonths day months = next)
    (h : maxDate < next) : plusMonths day months = .error .yearOutOfRange := by
  rw [← hnext] at h
  exact if_neg (Int.not_le.mpr h)

theorem addMonths_trainMonths (config : WalkForwardConfig) (startDate : ℤ) (k : ℕ) :
    addMonths (trainStartAt config startDate k) config.trainMonths =
      testStartAt config startDate k := by
  rw [testStartAt]

theorem addMonths_stepMonths (config : WalkForwardConfig) (startDate : ℤ) (k : ℕ) :
    addMonths (trainStartAt config startDate k) config.stepMonths =
      trainStartAt config startDate (k + 1) := by
  rw [trainStartAt]

theorem addMonths_testMonths (config : WalkForwardConfig) (startDate : ℤ) (k : ℕ) :
    addMonths (testStartAt config startDate k) config.testMonths =
      testEndAt config startDate k + 1 := by
  rw [testEndAt, Int.sub_add_cancel]

theorem nextWindow_of_late (hlate : maxDate ≤ testEndAt config startDate k) :
    nextWindow config endDate (trainStartAt config startDate k) = .error .yearOutOfRange := by
  unfold nextWindow
  by_cases htrain : testStartAt config startDate k ≤ maxDate
  · have htest := plusMonths_of_lt (addMonths_testMonths config startDate k) (by omega)
    rw [plusMonths_of_le (addMonths_trainMonths config startDate k) htrain]
    simp only [bind, Except.bind, Int.sub_add_cancel, htest]
  · rw [plusMonths_of_lt (addMonths_trainMonths config startDate k) (Int.not_le.mp htrain)]
    rfl

/-- A round in which all dates of the window are in range. -/
theorem nextWindow_of_range (h : config.Positive)
    (hrange : testEndAt config startDate k < maxDate) :
    nextWindow config endDate (trainStartAt config startDate k) =
      if endDate < testEndAt config startDate k then .ok none
      else if testStartAt config startDate k - 1 - trainStartAt config startDate k + 1 <
        config.minTrainSamples then .error .trainTooShort
      else (plusMonths (trainStartAt config startDate k) config.stepMonths).map fun next =>
        some (windowAt config startDate k, next) := by
  have htest := testStartAt_le_testEndAt h startDate k
  have hafter := plusMonths_of_le (addMonths_testMonths config startDate k) (by omega)
  unfold nextWindow
  rw [plusMonths_of_le (addMonths_trainMonths config startDate k) (by omega)]
  simp only [bind, Except.bind, Int.sub_add_cancel, hafter, Int.add_sub_cancel]
  cases plusMonths (trainStartAt config startDate k) config.stepMonths <;> rfl

theorem nextWindow_of_inside (h : config.Positive)
    (hrange : testEndAt config startDate k < maxDate)
    (hinside : testEndAt config startDate k ≤ endDate)
    (hsamples : EnoughSamples config startDate endDate) :
    nextWindow config endDate (trainStartAt config startDate k) =
      (plusMonths (trainStartAt config startDate k) config.stepMonths).map fun next =>
        some (windowAt config startDate k, next) := by
  have hlength := hsamples k hinside
  rw [nextWindow_of_range h hrange, if_neg (Int.not_lt.mpr hinside), if_neg (by omega)]

/-- The loop up to the first window that ends too late. -/
theorem windowsFrom_of_last (h : config.Positive)
    (hsamples : EnoughSamples config startDate endDate) (n : ℕ) {k : ℕ}
    (hinside : ∀ j, j < k + n → testEndAt config startDate j ≤ endDate)
    (hlast : endDate < testEndAt config startDate (k + n))
    (hrange : testEndAt config startDate (k + n) < maxDate) (fuel : ℕ) (hfuel : n < fuel) :
    windowsFrom config endDate fuel (trainStartAt config startDate k) =
      some (.ok ((List.range' k n).map (windowAt config startDate))) := by
  induction n generalizing k fuel with
  | zero =>
      rw [Nat.add_zero] at hlast hrange
      obtain ⟨rest, rfl⟩ : ∃ rest, fuel = rest + 1 := ⟨fuel - 1, by omega⟩
      rw [windowsFrom, nextWindow_of_range h hrange, if_pos hlast]
      rfl
  | succ n ih =>
      obtain ⟨rest, rfl⟩ : ∃ rest, fuel = rest + 1 := ⟨fuel - 1, by omega⟩
      have hmono : testEndAt config startDate (k + 1) ≤ testEndAt config startDate (k + (n + 1)) :=
        testEndAt_le h (by omega)
      have hhere : testEndAt config startDate k < testEndAt config startDate (k + 1) :=
        testEndAt_lt h (Nat.lt_succ_self k)
      have hnext : trainStartAt config startDate (k + 1) ≤ maxDate := by
        have htrain := trainStartAt_lt_testStartAt h startDate (k + 1)
        have htest := testStartAt_le_testEndAt h startDate (k + 1)
        omega
      have hrest := ih (k := k + 1) (fun j hj => hinside j (by omega))
        (by rwa [show k + 1 + n = k + (n + 1) by omega])
        (by rwa [show k + 1 + n = k + (n + 1) by omega]) rest (by omega)
      rw [windowsFrom, nextWindow_of_inside h (by omega) (hinside k (by omega)) hsamples,
        plusMonths_of_le (addMonths_stepMonths config startDate k) hnext]
      simp only [Except.map, hrest]
      rfl

/-- The loop runs out of the calendar before a window ends too late. -/
theorem windowsFrom_of_late (hsamples : EnoughSamples config startDate endDate)
    (h : config.Positive) (n : ℕ) {k : ℕ}
    (hinside : ∀ j, j < k + n → testEndAt config startDate j ≤ endDate)
    (hlate : maxDate ≤ testEndAt config startDate (k + n)) (fuel : ℕ) (hfuel : n < fuel) :
    windowsFrom config endDate fuel (trainStartAt config startDate k) =
      some (.error .yearOutOfRange) := by
  induction n generalizing k fuel with
  | zero =>
      rw [Nat.add_zero] at hlate
      obtain ⟨rest, rfl⟩ : ∃ rest, fuel = rest + 1 := ⟨fuel - 1, by omega⟩
      rw [windowsFrom, nextWindow_of_late hlate]
  | succ n ih =>
      obtain ⟨rest, rfl⟩ : ∃ rest, fuel = rest + 1 := ⟨fuel - 1, by omega⟩
      by_cases hrange : testEndAt config startDate k < maxDate
      · rw [windowsFrom, nextWindow_of_inside h hrange (hinside k (by omega)) hsamples]
        by_cases hnext : trainStartAt config startDate (k + 1) ≤ maxDate
        · have hrest := ih (k := k + 1) (fun j hj => hinside j (by omega))
            (by rwa [show k + 1 + n = k + (n + 1) by omega]) rest (by omega)
          rw [plusMonths_of_le (addMonths_stepMonths config startDate k) hnext]
          simp only [Except.map, hrest]
          rfl
        · rw [plusMonths_of_lt (addMonths_stepMonths config startDate k)
            (Int.not_le.mp hnext)]
          rfl
      · rw [windowsFrom, nextWindow_of_late (Int.not_lt.mp hrange)]

end

/-- There is a first window that ends too late. -/
theorem exists_last (h : config.Positive) (startDate endDate : ℤ) :
    ∃ n, (∀ j, j < n → testEndAt config startDate j ≤ endDate) ∧
      endDate < testEndAt config startDate n := by
  have hsome : ∃ n, endDate < testEndAt config startDate n := by
    refine ⟨(endDate - startDate).toNat, ?_⟩
    have hstart := add_le_trainStartAt h startDate (endDate - startDate).toNat
    have htrain := trainStartAt_lt_testStartAt h startDate
      (endDate - startDate).toNat
    have htest := testStartAt_le_testEndAt h startDate (endDate - startDate).toNat
    omega
  refine ⟨Nat.find hsome, fun j hj => Int.not_lt.mp (Nat.find_min hsome hj), Nat.find_spec hsome⟩

theorem generateWindows_of_last (h : config.Positive)
    (hsamples : EnoughSamples config startDate endDate)
    (hinside : ∀ j, j < n → testEndAt config startDate j ≤ endDate)
    (hlast : endDate < testEndAt config startDate n)
    (hrange : testEndAt config startDate n < maxDate) (fuel : ℕ) (hfuel : n < fuel) :
    generateWindows config startDate endDate fuel =
      some (.ok ((List.range n).map (windowAt config startDate))) := by
  have hloop := windowsFrom_of_last (k := 0) h hsamples n (by simpa using hinside)
    (by simpa using hlast) (by simpa using hrange) fuel hfuel
  rw [generateWindows, if_neg (Int.not_lt.mpr h.step), List.range_eq_range']
  exact hloop

theorem generateWindows_of_late (h : config.Positive)
    (hsamples : EnoughSamples config startDate endDate)
    (hinside : ∀ j, j < n → testEndAt config startDate j ≤ endDate)
    (hlate : maxDate ≤ testEndAt config startDate n) (fuel : ℕ) (hfuel : n < fuel) :
    generateWindows config startDate endDate fuel = some (.error .yearOutOfRange) := by
  have hloop := windowsFrom_of_late (k := 0) hsamples h n (by simpa using hinside)
    (by simpa using hlate) fuel hfuel
  rw [generateWindows, if_neg (Int.not_lt.mpr h.step)]
  exact hloop

/-! ## When windows are separated -/

/-- Both dates are in one month if the steps are as long as the tests. -/
theorem testEndAt_lt_testStartAt_succ_iff (h : config.Positive) (k : ℕ) :
    testEndAt config startDate k < testStartAt config startDate (k + 1) ↔
      ¬Overlaps config startDate k := by
  have hend := monthOf_testEndAt config startDate k
  have hstart := monthOf_testStartAt config startDate (k + 1)
  push_cast at hstart
  by_cases hstep : config.stepMonths = config.testMonths
  · have hmonth : monthOf (testEndAt config startDate k + 1) =
        monthOf (testStartAt config startDate (k + 1)) := by
      rw [hend, hstart, ← hstep]
      ring
    have hdayEnd : dayOf (testEndAt config startDate k + 1) =
        min (min (dayOf (trainStartAt config startDate k))
          (monthLength (monthOf startDate + k * config.stepMonths + config.trainMonths)))
          (monthLength (monthOf startDate + (k + 1) * config.stepMonths + config.trainMonths)) := by
      rw [testEndAt, Int.sub_add_cancel, dayOf_addMonths, testStartAt, dayOf_addMonths,
        ← testStartAt, monthOf_testStartAt, monthOf_trainStartAt, ← hstep]
      ring_nf
    have hdayStart : dayOf (testStartAt config startDate (k + 1)) =
        min (min (dayOf (trainStartAt config startDate k))
          (monthLength (monthOf startDate + (k + 1) * config.stepMonths)))
          (monthLength (monthOf startDate + (k + 1) * config.stepMonths + config.trainMonths)) := by
      rw [testStartAt, dayOf_addMonths, trainStartAt, dayOf_addMonths, ← trainStartAt,
        monthOf_trainStartAt, monthOf_trainStartAt]
      push_cast
      ring_nf
    have hle := le_iff_dayOf_le hmonth
    rw [hdayEnd, hdayStart] at hle
    simp only [Overlaps, hstep, true_and] at hle ⊢
    omega
  · have hlt : config.testMonths < config.stepMonths := by
      have hle := h.step
      omega
    have hmonth : monthOf (testEndAt config startDate k + 1) <
        monthOf (testStartAt config startDate (k + 1)) := by
      rw [hend, hstart]
      linarith
    have hearlier := lt_of_monthOf_lt hmonth
    constructor
    · intro _ hoverlaps
      exact hstep hoverlaps.1
    · intro _
      omega

theorem testEndAt_lt_testStartAt (h : config.Positive) (hjk : j + 2 ≤ k) :
    testEndAt config startDate j < testStartAt config startDate k := by
  have hmonth : monthOf (testEndAt config startDate j + 1) <
      monthOf (testStartAt config startDate k) := by
    have htest := h.test
    have hstep := h.step
    have hcast : (j : ℤ) + 2 ≤ k := by exact_mod_cast hjk
    have hmul := Int.mul_le_mul_of_nonneg_right hcast (show 0 ≤ config.stepMonths by omega)
    rw [monthOf_testEndAt, monthOf_testStartAt]
    linarith
  have hearlier := lt_of_monthOf_lt hmonth
  omega

theorem separated_iff (h : config.Positive) (hinside : ∀ j, j < n →
    testEndAt config startDate j ≤ endDate) :
    Separated startDate endDate ((List.range n).map (windowAt config startDate)) ↔
      ∀ k, k + 1 < n → ¬Overlaps config startDate k := by
  constructor
  · intro hseparated k hk
    rw [← testEndAt_lt_testStartAt_succ_iff h]
    have htests := List.pairwise_map.mp hseparated.tests
    have hpair := List.pairwise_iff_getElem.mp htests k (k + 1) (by simp; omega) (by simp; omega)
      (by omega)
    simpa [windowAt] using hpair
  · intro hoverlaps
    constructor
    · simp only [List.forall_mem_map]
      intro k _
      have htest := testStartAt_le_testEndAt h startDate k
      simp [windowAt, htest]
    · simp only [List.forall_mem_map, List.mem_range]
      intro k hk
      have hstart := add_le_trainStartAt h startDate k
      have htrain := trainStartAt_lt_testStartAt h startDate k
      have hend := hinside k hk
      simp only [windowAt]
      omega
    · rw [List.pairwise_map]
      apply List.Pairwise.imp_of_mem _ List.pairwise_lt_range
      intro j k _ hk hlt
      rw [List.mem_range] at hk
      by_cases hnext : k = j + 1
      · rw [hnext]
        exact (testEndAt_lt_testStartAt_succ_iff h j).mpr (hoverlaps j (by omega))
      · exact testEndAt_lt_testStartAt h (by omega)
    · rw [List.pairwise_map]
      exact List.pairwise_lt_range.imp fun hlt => trainStartAt_lt h hlt

theorem neverLeaks_of_separated (h : config.Positive)
    (hsamples : EnoughSamples config startDate endDate)
    (hrange : ∃ k, endDate < testEndAt config startDate k ∧ testEndAt config startDate k < maxDate)
    (hoverlaps : ∀ k, testEndAt config startDate (k + 1) ≤ endDate →
      ¬Overlaps config startDate k) : NeverLeaks config startDate endDate := by
  obtain ⟨k, hlate, hmax⟩ := hrange
  obtain ⟨n, hinside, hlast⟩ := exists_last h startDate endDate
  have hfirst : n ≤ k := by
    by_contra hlt
    have hle := hinside k (by omega)
    omega
  have hle : testEndAt config startDate n ≤ testEndAt config startDate k :=
    testEndAt_le h hfirst
  refine ⟨_, ⟨n + 1, fun fuel hfuel => generateWindows_of_last h hsamples hinside hlast
    (by omega) fuel hfuel⟩, (separated_iff h hinside).mpr ?_⟩
  intro k hk
  exact hoverlaps k (hinside (k + 1) hk)

theorem separated_of_neverLeaks (h : config.Positive)
    (hsamples : EnoughSamples config startDate endDate)
    (hleaks : NeverLeaks config startDate endDate) :
    (∃ k, endDate < testEndAt config startDate k ∧ testEndAt config startDate k < maxDate) ∧
      ∀ k, testEndAt config startDate (k + 1) ≤ endDate → ¬Overlaps config startDate k := by
  obtain ⟨windows, ⟨m, hwindows⟩, hseparated⟩ := hleaks
  obtain ⟨n, hinside, hlast⟩ := exists_last h startDate endDate
  have hresult := hwindows (max m (n + 1)) (le_max_left _ _)
  have hfuel : n < max m (n + 1) := le_max_right m (n + 1)
  by_cases hrange : testEndAt config startDate n < maxDate
  · rw [generateWindows_of_last h hsamples hinside hlast hrange _ hfuel, Option.some.injEq,
      Except.ok.injEq] at hresult
    rw [← hresult, separated_iff h hinside] at hseparated
    refine ⟨⟨n, hlast, hrange⟩, ?_⟩
    intro k hk
    apply hseparated
    by_contra hlt
    have hle : testEndAt config startDate n ≤ testEndAt config startDate (k + 1) :=
      testEndAt_le h (by omega)
    omega
  · rw [generateWindows_of_late h hsamples hinside (Int.not_lt.mp hrange) _ hfuel] at hresult
    cases hresult

/-- The windows are separated exactly if one ends after the last day and before the calendar does,
and no start is clamped between two tests that touch. -/
theorem neverLeaks_iff (h : config.Positive) (hsamples : EnoughSamples config startDate endDate) :
    NeverLeaks config startDate endDate ↔
      (∃ k, endDate < testEndAt config startDate k ∧
        testEndAt config startDate k < maxDate) ∧
      ∀ k, testEndAt config startDate (k + 1) ≤ endDate → ¬Overlaps config startDate k :=
  ⟨separated_of_neverLeaks h hsamples, fun hsep => neverLeaks_of_separated h hsamples hsep.1 hsep.2⟩

end

theorem enoughSamples_of_one (h : config.Positive) (hone : config.minTrainSamples = 1) :
    EnoughSamples config startDate endDate := by
  intro k _
  have hlt := trainStartAt_lt_testStartAt h startDate k
  omega

/-- From the first of January 2023 to the end of June. -/
theorem neverLeaks_firstOfMonth : NeverLeaks ⟨2, 1, 1, 1⟩ 738521 738701 := by
  have hpositive : WalkForwardConfig.Positive ⟨2, 1, 1, 1⟩ := ⟨by decide, by decide, by decide⟩
  refine (neverLeaks_iff hpositive (enoughSamples_of_one hpositive rfl)).mpr
    ⟨⟨4, by decide +kernel, by decide +kernel⟩, ?_⟩
  intro k _ hoverlaps
  have hday := dayOf_trainStartAt_le ⟨2, 1, 1, 1⟩ 738521 k
  have hfirst : dayOf 738521 = 1 := by decide
  have hlength := monthLength_bounds (monthOf 738521 + (k + 1) * 1)
  have hclamped := hoverlaps.2
  dsimp only at hclamped
  omega

/-- From the last of January 2023 the test from the end of March reaches over the start of the
next, on the 28th of April. -/
theorem not_neverLeaks_lastOfMonth : WalkForwardConfig.Positive ⟨2, 1, 1, 1⟩ ∧
    EnoughSamples ⟨2, 1, 1, 1⟩ 738551 738701 ∧ ¬NeverLeaks ⟨2, 1, 1, 1⟩ 738551 738701 := by
  have hpositive : WalkForwardConfig.Positive ⟨2, 1, 1, 1⟩ := ⟨by decide, by decide, by decide⟩
  have hsamples : EnoughSamples ⟨2, 1, 1, 1⟩ 738551 738701 := enoughSamples_of_one hpositive rfl
  refine ⟨hpositive, hsamples, ?_⟩
  intro hleaks
  have hseparated := (separated_of_neverLeaks hpositive hsamples hleaks).2 0 (by decide +kernel)
  apply hseparated
  unfold Overlaps
  decide +kernel

end TradingPlatform.Backtest
