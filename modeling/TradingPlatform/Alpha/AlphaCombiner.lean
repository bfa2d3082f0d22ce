import Mathlib.Data.Prod.Lex
import Mathlib.Data.Rat.Sqrt
import TradingPlatform.Alpha.SignalWeights
import TradingPlatform.Base.CellColumns
import TradingPlatform.Base.DatedFrames
import TradingPlatform.Base.Fallible
import TradingPlatform.Base.GroupedSums

/-! # Combination of alpha signals

Signals are aligned on their common dates and securities, normalized date by date, and combined
with weights from a trailing window. Production mode combines one date; backtest mode runs over
the eligible dates and computes the weights of each anew.
-/

namespace TradingPlatform.Alpha

open Base

/-! ## Configuration and results -/

inductive WeightingMethod
  | equal
  | ic
  | ir
  | volParity
  deriving DecidableEq, Repr

def WeightingMethod.value : WeightingMethod → String
  | .equal => "equal"
  | .ic => "ic"
  | .ir => "ir"
  | .volParity => "vol_parity"

structure CombinerConfig where
  weighting : WeightingMethod
  lookbackDays : ℤ
  minLookbackDays : ℤ
  normalize : Bool

inductive CombineError
  | valueError (message : String)
  | zeroDivision
  deriving DecidableEq, Repr

structure ReturnRow (K : Type) where
  permno : ℤ
  date : ℤ
  return_ : Cell K
  deriving DecidableEq, Repr

structure WeightHistoryRow (K : Type) where
  date : ℤ
  signalName : String
  weight : K
  deriving DecidableEq, Repr

/-- The dict of signals, in the order of insertion. -/
abbrev Signals (K : Type) := List (String × List (SignalRow ℤ (Cell K)))

structure CombineResult (K : Type) where
  compositeSignal : List (SignalRow ℤ (Cell K))
  signalWeights : List (String × K)
  weightHistory : Option (List (WeightHistoryRow K))
  coveragePct : K
  weightingMethod : WeightingMethod
  lookbackDays : ℤ
  nSignalsCombined : ℕ
  dateRange : ℤ × ℤ
  deriving DecidableEq

variable {K : Type}

def Signals.onDates (p : ℤ → Bool) (signals : Signals K) : Signals K :=
  signals.map fun q => (q.1, Base.onDates SignalRow.date p q.2)

/-! ## Alignment -/

def pairKey (r : SignalRow ℤ (Cell K)) : ℤ ×ₗ ℤ := toLex (r.date, r.permno)

def commonPairs : Signals K → List (ℤ ×ₗ ℤ)
  | [] => []
  | first :: rest =>
    rest.foldl (fun keys q => (innerJoin id id keys (q.2.map pairKey)).map Prod.fst)
      (first.2.map pairKey)

def alignSignals (signals : Signals K) : Signals K :=
  if signals.length < 2 then signals
  else if commonPairs signals = [] then signals.map fun q => (q.1, [])
  else
    signals.map fun q => (q.1, (innerJoin pairKey id q.2 (commonPairs signals)).map Prod.fst)

/-- `today` is read where no signal has a row. -/
def resolveDefaultAsOfDate (today : ℤ) (signals : Signals K) : ℤ :=
  ((signals.filterMap fun q => (q.2.map SignalRow.date).max?).min?).getD today

section Combiner

variable [Field K] [LinearOrder K]

/-! ## Normalization -/

def normalizedSignal (mean std x : Cell K) : Cell K :=
  if std = .num 0 then .num 0 else (x.sub mean).div std

def normalizedRow (root : Root K) (r : SignalRow ℤ (Cell K)) (group : List (SignalRow ℤ (Cell K))) :
    SignalRow ℤ (Cell K) :=
  let column := group.map SignalRow.signal
  { r with signal := normalizedSignal (Cell.mean column) (Cell.std root column) r.signal }

def normalizeSignals (root : Root K) (signals : Signals K) : Signals K :=
  signals.map fun q =>
    (q.1, q.2.map fun r => normalizedRow root r (withKey SignalRow.date q.2 r.date))

/-! ## Weights -/

def inWindow (asOfDate lookbackDays d : ℤ) : Bool := asOfDate - lookbackDays ≤ d && d < asOfDate

def computeEqualWeights (signalNames : List String) : List (String × K) :=
  signalNames.map fun name => (name, 1 / signalNames.length)

/-- The scores by their total, or equal weights where it is zero. -/
def weightsFromScores (signals : Signals K) (scores : List (String × K)) : List (String × K) :=
  let total := (scores.map Prod.snd).sum
  if total = 0 then computeEqualWeights (signals.map Prod.fst)
  else scores.map fun q => (q.1, q.2 / total)

/-- `computeIc` is the rank IC of two frames, `none` where it is NaN. -/
def dailyIcValues (computeIc : List (SignalRow ℤ (Cell K)) → List (ReturnRow K) → Option K)
    (frame : List (SignalRow ℤ (Cell K))) (returns : List (ReturnRow K))
    (asOfDate lookbackDays : ℤ) : List K :=
  let window := onDates SignalRow.date (inWindow asOfDate lookbackDays) frame
  (sortByKey id (window.map SignalRow.date).dedup).filterMap fun day =>
    computeIc (withKey SignalRow.date window day) (withKey ReturnRow.date returns day)

def collectDailyIcValues (computeIc : List (SignalRow ℤ (Cell K)) → List (ReturnRow K) → Option K)
    (signals : Signals K) (returns : List (ReturnRow K)) (asOfDate lookbackDays : ℤ) :
    List (String × List K) :=
  signals.map fun q => (q.1, dailyIcValues computeIc q.2 returns asOfDate lookbackDays)

def computeIcScore (values : List K) : Except CombineError K :=
  if values = [] then .error .zeroDivision else .ok (values.sum / values.length)

def computeIrScore (root : Root K) (values : List K) : Except CombineError K :=
  if values.length < 2 then .ok 0
  else
    let icMean := values.sum / values.length
    let icStd := root.sqrt (Cell.variance values)
    if icStd = 0 then .ok 0 else .ok (icMean / icStd)

def icScore (config : CombinerConfig) (scoreFn : List K → Except CombineError K)
    (q : String × List K) : Except CombineError (String × K) :=
  if (q.2.length : ℤ) < config.minLookbackDays then .ok (q.1, 0)
  else do
    let score ← scoreFn q.2
    return (q.1, score)

def computeWeightsFromDailyIc (config : CombinerConfig)
    (computeIc : List (SignalRow ℤ (Cell K)) → List (ReturnRow K) → Option K)
    (scoreFn : List K → Except CombineError K) (signals : Signals K) (returns : List (ReturnRow K))
    (asOfDate lookbackDays : ℤ) : Except CombineError (List (String × K)) := do
  let dailyIc := collectDailyIcValues computeIc signals returns asOfDate lookbackDays
  let scores ← dailyIc.mapM (icScore config scoreFn)
  return weightsFromScores signals (scores.map fun q => (q.1, max q.2 0))

/-- The volatility of each security with two observations at least, and their number. -/
def perStockVol (root : Root K) (window : List (SignalRow ℤ (Cell K))) : List (Cell K × ℕ) :=
  ((groupKeys SignalRow.permno window).map fun permno =>
    let column := (withKey SignalRow.permno window permno).map SignalRow.signal
    (Cell.std root column, (Cell.present column).length)).filter fun q => 2 ≤ q.2

def weightedVol (vols : List (Cell K × ℕ)) : Cell K :=
  (Cell.sum (vols.map fun q => q.1.mul (.num q.2))).div (.num ((vols.map Prod.snd).sum : ℕ))

def inverseVol (root : Root K) (frame : List (SignalRow ℤ (Cell K)))
    (asOfDate lookbackDays : ℤ) : K :=
  let vols := perStockVol root (onDates SignalRow.date (inWindow asOfDate lookbackDays) frame)
  if vols = [] then 0
  else
    match weightedVol vols with
    | .num vol => if vol = 0 then 0 else 1 / vol
    | _ => 0

def computeVolParityWeights (root : Root K) (signals : Signals K) (asOfDate lookbackDays : ℤ) :
    List (String × K) :=
  weightsFromScores signals
    (signals.map fun q => (q.1, inverseVol root q.2 asOfDate lookbackDays))

def computeSignalWeights (config : CombinerConfig) (root : Root K)
    (computeIc : List (SignalRow ℤ (Cell K)) → List (ReturnRow K) → Option K) (signals : Signals K)
    (returns : Option (List (ReturnRow K))) (asOfDate lookbackDays : ℤ) :
    Except CombineError (List (String × K)) :=
  match config.weighting, returns with
  | .equal, _ => .ok (computeEqualWeights (signals.map Prod.fst))
  | .ic, none => .error (.valueError "Returns required for IC weighting")
  | .ic, some returns => computeWeightsFromDailyIc config computeIc computeIcScore signals returns
      asOfDate lookbackDays
  | .ir, none => .error (.valueError "Returns required for IR weighting")
  | .ir, some returns => computeWeightsFromDailyIc config computeIc (computeIrScore root) signals
      returns asOfDate lookbackDays
  | .volParity, _ => .ok (computeVolParityWeights root signals asOfDate lookbackDays)

/-! ## Combination -/

def scaledBy (weight : K) (r : SignalRow ℤ (Cell K)) : SignalRow ℤ (Cell K) :=
  { r with signal := r.signal.mul (.num weight) }

def weightOf (weights : List (String × K)) (name : String) : K := (weights.lookup name).getD 0

/-- One signal more, on the rows that it shares. -/
def addWeighted (weights : List (String × K)) (composite : List (SignalRow ℤ (Cell K)))
    (q : String × List (SignalRow ℤ (Cell K))) : List (SignalRow ℤ (Cell K)) :=
  if q.2 = [] then composite
  else
    (innerJoin pairKey pairKey composite (q.2.map (scaledBy (weightOf weights q.1)))).map
      fun p => { p.1 with signal := p.1.signal.add p.2.signal }

def weightedCombine (signals : Signals K) (weights : List (String × K)) :
    List (SignalRow ℤ (Cell K)) :=
  match signals with
  | [] => []
  | first :: rest =>
    if weights = [] then []
    else if first.2 = [] then []
    else rest.foldl (addWeighted weights) (first.2.map (scaledBy (weightOf weights first.1)))

def onDay (d : ℤ) : ℤ → Bool := fun d' => d' = d

def combineStatic (config : CombinerConfig) (root : Root K)
    (computeIc : List (SignalRow ℤ (Cell K)) → List (ReturnRow K) → Option K) (signals : Signals K)
    (returns : Option (List (ReturnRow K))) (asOfDate lookbackDays : ℤ) :
    Except CombineError (List (SignalRow ℤ (Cell K)) × List (String × K)) := do
  let weights ← computeSignalWeights config root computeIc signals returns asOfDate lookbackDays
  return (weightedCombine (signals.onDates (onDay asOfDate)) weights, weights)

structure Rolling (K : Type) where
  compositeParts : List (List (SignalRow ℤ (Cell K)))
  weightHistoryRows : List (WeightHistoryRow K)
  finalWeights : List (String × K)

/-- The body of the loop over the eligible dates. -/
def combineDate (config : CombinerConfig) (root : Root K)
    (computeIc : List (SignalRow ℤ (Cell K)) → List (ReturnRow K) → Option K) (signals : Signals K)
    (returns : Option (List (ReturnRow K))) (lookbackDays : ℤ) (rolling : Rolling K) (d : ℤ) :
    Except CombineError (Rolling K) := do
  let weights ← computeSignalWeights config root computeIc signals returns d lookbackDays
  let dayComposite := weightedCombine (signals.onDates (onDay d)) weights
  return {
    compositeParts :=
      if dayComposite = [] then rolling.compositeParts
      else rolling.compositeParts ++ [dayComposite]
    weightHistoryRows :=
      rolling.weightHistoryRows ++ weights.map fun q => ⟨d, q.1, q.2⟩
    finalWeights := weights }

def sortedDates (signals : Signals K) : List ℤ :=
  sortByKey id (signals.flatMap fun q => q.2.map SignalRow.date).dedup

def eligibleDates (signals : Signals K) (asOfDate lookbackDays : ℤ) : List ℤ :=
  match sortedDates signals with
  | [] => []
  | minDate :: rest =>
    (minDate :: rest).filter fun d => minDate + lookbackDays ≤ d && d ≤ asOfDate

def combineRolling (config : CombinerConfig) (root : Root K)
    (computeIc : List (SignalRow ℤ (Cell K)) → List (ReturnRow K) → Option K) (signals : Signals K)
    (returns : Option (List (ReturnRow K))) (asOfDate lookbackDays : ℤ) :
    Except CombineError
      (List (SignalRow ℤ (Cell K)) × List (WeightHistoryRow K) × List (String × K)) := do
  let rolling ← (eligibleDates signals asOfDate lookbackDays).foldlM
    (combineDate config root computeIc signals returns lookbackDays) ⟨[], [], []⟩
  return (rolling.compositeParts.flatten, rolling.weightHistoryRows, rolling.finalWeights)

def permnosOn (d : ℤ) (frame : List (SignalRow ℤ (Cell K))) : ℕ :=
  (groupKeys SignalRow.permno (withKey SignalRow.date frame d)).length

def computeCoverage (composite : List (SignalRow ℤ (Cell K))) (alignedSignals : Signals K)
    (asOfDate : ℤ) : K :=
  if composite = [] then 0
  else
    let maxPermnos := (alignedSignals.map fun q => permnosOn asOfDate q.2).foldl max 0
    if maxPermnos = 0 then 0 else (permnosOn asOfDate composite : K) / maxPermnos

def dateRange (composite : List (SignalRow ℤ (Cell K))) (asOfDate : ℤ) : ℤ × ℤ :=
  let dates := composite.map SignalRow.date
  (dates.min?.getD asOfDate, dates.max?.getD asOfDate)

def validateSignals (signals : Signals K) : Except CombineError Unit :=
  if signals = [] then .error (.valueError "At least one signal required") else .ok ()

def validateReturnsIfNeeded (config : CombinerConfig) (returns : Option (List (ReturnRow K))) :
    Except CombineError Unit :=
  if (config.weighting = .ic ∨ config.weighting = .ir) ∧ returns.isNone then
    .error (.valueError ("Returns required for " ++ config.weighting.value ++ " weighting"))
  else .ok ()

/-- `lookback_days or self.config.lookback_days` -/
def resolveLookback (config : CombinerConfig) (lookbackDays : Option ℤ) : ℤ :=
  match lookbackDays with
  | none => config.lookbackDays
  | some days => if days = 0 then config.lookbackDays else days

/-- The signals as they are combined. -/
def prepareSignals (config : CombinerConfig) (root : Root K) (signals : Signals K) : Signals K :=
  if config.normalize then normalizeSignals root (alignSignals signals) else alignSignals signals

/-- The composite, the history of the weights in backtest mode, and the last weights. -/
def combineMode (config : CombinerConfig) (root : Root K)
    (computeIc : List (SignalRow ℤ (Cell K)) → List (ReturnRow K) → Option K) (signals : Signals K)
    (returns : Option (List (ReturnRow K))) (asOfDate lookbackDays : ℤ) (rollingWeights : Bool) :
    Except CombineError
      (List (SignalRow ℤ (Cell K)) × Option (List (WeightHistoryRow K)) × List (String × K)) :=
  if rollingWeights then do
    let (composite, weightHistory, weights) ←
      combineRolling config root computeIc signals returns asOfDate lookbackDays
    return (composite, some weightHistory, weights)
  else do
    let (composite, weights) ←
      combineStatic config root computeIc signals returns asOfDate lookbackDays
    return (composite, none, weights)

def combine (today : ℤ) (config : CombinerConfig) (root : Root K)
    (computeIc : List (SignalRow ℤ (Cell K)) → List (ReturnRow K) → Option K) (signals : Signals K)
    (returns : Option (List (ReturnRow K))) (asOfDate lookbackDays : Option ℤ)
    (rollingWeights : Bool) : Except CombineError (CombineResult K) := do
  validateSignals signals
  validateReturnsIfNeeded config returns
  let lookback := resolveLookback config lookbackDays
  let asOfDate := asOfDate.getD (resolveDefaultAsOfDate today (alignSignals signals))
  let prepared := prepareSignals config root signals
  let (composite, weightHistory, signalWeights) ←
    combineMode config root computeIc prepared returns asOfDate lookback rollingWeights
  return {
    compositeSignal := composite
    signalWeights
    weightHistory
    coveragePct := computeCoverage composite prepared asOfDate
    weightingMethod := config.weighting
    lookbackDays := lookback
    nSignalsCombined := signals.length
    dateRange := dateRange composite asOfDate }

/-! ## Two modes -/

/-- The weights that a rolling run records for a date. -/
def CombineResult.weightsOn (result : CombineResult K) (d : ℤ) : List (String × K) :=
  (withKey WeightHistoryRow.date (result.weightHistory.getD []) d).map fun r =>
    (r.signalName, r.weight)

/-- The dates that have a row or a weight. -/
def CombineResult.dates (result : CombineResult K) : List ℤ :=
  result.compositeSignal.map SignalRow.date ++
    (result.weightHistory.getD []).map WeightHistoryRow.date

/-- A run for one date gives what another has for that date. -/
structure Reproduces (result rolling : CombineResult K) (d : ℤ) : Prop where
  rows : result.compositeSignal = withKey SignalRow.date rolling.compositeSignal d
  weights : result.signalWeights = rolling.weightsOn d

structure ValidWeights (weights : List (String × K)) : Prop where
  nonneg : ∀ q ∈ weights, 0 ≤ q.2
  total : (weights.map Prod.snd).sum = 1

/-! ## Operations date by date -/

section Local

variable {config : CombinerConfig} {root : Root K} {signals : Signals K} {p : ℤ → Bool}

def pairDate (k : ℤ ×ₗ ℤ) : ℤ := (ofLex k).1

omit [Field K] [LinearOrder K] in
theorem commonPairs_onDates (p : ℤ → Bool) (signals : Signals K) :
    commonPairs (signals.onDates p) = Base.onDates pairDate p (commonPairs signals) := by
  have hkeys : DateLocal SignalRow.date pairDate (List.map (pairKey (K := K))) :=
    dateLocal_map fun _ => rfl
  have hfirst : DateLocal (fun q : (ℤ ×ₗ ℤ) × (ℤ ×ₗ ℤ) => pairDate q.1) pairDate
      (List.map Prod.fst) := dateLocal_map fun _ => rfl
  cases signals with
  | nil => rfl
  | cons first rest =>
      unfold Signals.onDates commonPairs
      simp only [List.map_cons, hkeys p]
      generalize first.2.map pairKey = keys
      induction rest generalizing keys with
      | nil => rfl
      | cons q rest ih =>
          have hsame : ∀ k k' : ℤ ×ₗ ℤ, id k' = id k → pairDate k' = pairDate k :=
            fun _ _ h => congrArg pairDate h
          have hjoin := innerJoin_onDates hsame p keys (q.2.map pairKey)
          simp only [List.map_cons, List.foldl_cons, hkeys p, hjoin]
          rw [hfirst p, ih]

omit [Field K] [LinearOrder K] in
theorem onDates_map {f : List (SignalRow ℤ (Cell K)) → List (SignalRow ℤ (Cell K))}
    (hf : DateLocal SignalRow.date SignalRow.date f) :
    (Signals.onDates p signals).map (fun q => (q.1, f q.2)) =
      Signals.onDates p (signals.map fun q => (q.1, f q.2)) := by
  unfold Signals.onDates
  rw [List.map_map, List.map_map]
  apply List.map_congr_left
  intro q _
  simp only [Function.comp_apply]
  rw [hf p q.2]

omit [Field K] [LinearOrder K] in
/-- With more signals than one, alignment is the join with the common pairs, if any. -/
theorem alignSignals_eq (h : ¬ signals.length < 2) : alignSignals signals =
    signals.map fun q => (q.1, (innerJoin pairKey id q.2 (commonPairs signals)).map Prod.fst) := by
  rw [alignSignals, if_neg h]
  split_ifs with hnone
  · apply List.map_congr_left
    intro q _
    simp [hnone, innerJoin, withKey]
  · rfl

omit [Field K] [LinearOrder K] in
theorem alignSignals_onDates (p : ℤ → Bool) (signals : Signals K) :
    alignSignals (signals.onDates p) = (alignSignals signals).onDates p := by
  have hlength : (signals.onDates p).length = signals.length := List.length_map _
  by_cases hshort : signals.length < 2
  · rw [alignSignals, alignSignals, if_pos hshort, if_pos (hlength ▸ hshort)]
  · rw [alignSignals_eq hshort, alignSignals_eq (hlength ▸ hshort), commonPairs_onDates]
    unfold Signals.onDates
    rw [List.map_map, List.map_map]
    apply List.map_congr_left
    intro q _
    have hsame : ∀ (r : SignalRow ℤ (Cell K)) (k : ℤ ×ₗ ℤ), id k = pairKey r →
        pairDate k = r.date := fun r k h => congrArg pairDate h
    have hfirst : DateLocal (fun q : SignalRow ℤ (Cell K) × (ℤ ×ₗ ℤ) => q.1.date) SignalRow.date
        (List.map Prod.fst) := dateLocal_map fun _ => rfl
    simp only [Function.comp_apply, innerJoin_onDates hsame]
    rw [hfirst p]

theorem prepareSignals_onDates (p : ℤ → Bool) (signals : Signals K) :
    prepareSignals config root (signals.onDates p) =
      (prepareSignals config root signals).onDates p := by
  have hlocal : DateLocal SignalRow.date SignalRow.date fun frame : List (SignalRow ℤ (Cell K)) =>
      frame.map fun r => normalizedRow root r (withKey SignalRow.date frame r.date) :=
    dateLocal_overDates fun _ _ => rfl
  unfold prepareSignals
  rw [alignSignals_onDates]
  split_ifs
  · exact onDates_map hlocal
  · rfl

theorem prepareSignals_ne_nil (h : signals ≠ []) : prepareSignals config root signals ≠ [] := by
  have haligned : alignSignals signals ≠ [] := by
    unfold alignSignals
    split_ifs <;> simpa using h
  unfold prepareSignals normalizeSignals
  split_ifs <;> simpa using haligned

end Local

/-! ## Windows -/

section Windows

variable {config : CombinerConfig} {root : Root K} {signals : Signals K}
variable {computeIc : List (SignalRow ℤ (Cell K)) → List (ReturnRow K) → Option K}
variable {returns : List (ReturnRow K)} {asOfDate lookbackDays : ℤ} {p q : ℤ → Bool}

omit [Field K] [LinearOrder K] in
theorem window_onDates (hp : ∀ d < asOfDate, p d = true) (frame : List (SignalRow ℤ (Cell K))) :
    onDates SignalRow.date (inWindow asOfDate lookbackDays) (onDates SignalRow.date p frame) =
      onDates SignalRow.date (inWindow asOfDate lookbackDays) frame := by
  apply onDates_onDates
  intro d hd
  simp only [inWindow, Bool.and_eq_true, decide_eq_true_eq] at hd
  exact hp d hd.2

omit [Field K] [LinearOrder K] in
theorem dailyIcValues_onDates (hp : ∀ d < asOfDate, p d = true) (hq : ∀ d < asOfDate, q d = true)
    (frame : List (SignalRow ℤ (Cell K))) :
    dailyIcValues computeIc (onDates SignalRow.date p frame) (onDates ReturnRow.date q returns)
        asOfDate lookbackDays =
      dailyIcValues computeIc frame returns asOfDate lookbackDays := by
  unfold dailyIcValues
  rw [window_onDates hp]
  apply List.filterMap_congr
  intro day hday
  have hbefore : day < asOfDate := by
    simp only [mem_sortByKey, List.mem_dedup, List.mem_map, mem_onDates] at hday
    obtain ⟨r, ⟨-, hr⟩, rfl⟩ := hday
    simp only [inWindow, Bool.and_eq_true, decide_eq_true_eq] at hr
    exact hr.2
  rw [withKey_onDates (hq day hbefore)]

theorem computeWeightsFromDailyIc_onDates {scoreFn : List K → Except CombineError K}
    (hp : ∀ d < asOfDate, p d = true) (hq : ∀ d < asOfDate, q d = true) :
    computeWeightsFromDailyIc config computeIc scoreFn (signals.onDates p)
        (onDates ReturnRow.date q returns) asOfDate lookbackDays =
      computeWeightsFromDailyIc config computeIc scoreFn signals returns asOfDate
        lookbackDays := by
  have hvalues : collectDailyIcValues computeIc (signals.onDates p)
      (onDates ReturnRow.date q returns) asOfDate lookbackDays =
        collectDailyIcValues computeIc signals returns asOfDate lookbackDays := by
    unfold collectDailyIcValues Signals.onDates
    rw [List.map_map]
    apply List.map_congr_left
    intro r _
    rw [Function.comp_apply, dailyIcValues_onDates hp hq]
  unfold computeWeightsFromDailyIc
  rw [hvalues]
  simp only [weightsFromScores, Signals.onDates, List.map_map, Function.comp_def]

/-- The weights see no signal and no return of the date or of later ones. -/
theorem computeSignalWeights_onDates {returns : Option (List (ReturnRow K))}
    (hp : ∀ d < asOfDate, p d = true) (hq : ∀ d < asOfDate, q d = true) :
    computeSignalWeights config root computeIc (signals.onDates p)
        (returns.map (onDates ReturnRow.date q)) asOfDate lookbackDays =
      computeSignalWeights config root computeIc signals returns asOfDate lookbackDays := by
  have hnames : (signals.onDates p).map Prod.fst = signals.map Prod.fst := by
    simp only [Signals.onDates, List.map_map, Function.comp_def]
  have hvols : (signals.onDates p).map (fun s => (s.1, inverseVol root s.2 asOfDate lookbackDays)) =
      signals.map fun s => (s.1, inverseVol root s.2 asOfDate lookbackDays) := by
    unfold Signals.onDates
    rw [List.map_map]
    apply List.map_congr_left
    intro s _
    simp only [Function.comp_apply, inverseVol, window_onDates hp]
  unfold computeSignalWeights
  cases config.weighting with
  | equal => simp only [hnames]
  | ic =>
      cases returns with
      | none => rfl
      | some returns => exact computeWeightsFromDailyIc_onDates hp hq
  | ir =>
      cases returns with
      | none => rfl
      | some returns => exact computeWeightsFromDailyIc_onDates hp hq
  | volParity => simp only [computeVolParityWeights, weightsFromScores, hvols, hnames]

end Windows

/-! ## Weights that sum to one -/

section Valid

variable [IsStrictOrderedRing K] {config : CombinerConfig} {root : Root K} {signals : Signals K}
variable {computeIc : List (SignalRow ℤ (Cell K)) → List (ReturnRow K) → Option K}
variable {returns : Option (List (ReturnRow K))} {asOfDate lookbackDays : ℤ}

theorem validWeights_equal {names : List String} (h : names ≠ []) :
    ValidWeights (K := K) (computeEqualWeights names) := by
  have hlength : 0 < names.length := List.length_pos_of_ne_nil h
  have hpos : (0 : K) < names.length := by exact_mod_cast hlength
  constructor
  · intro q hq
    obtain ⟨name, -, rfl⟩ := List.mem_map.mp hq
    exact div_nonneg zero_le_one hpos.le
  · unfold computeEqualWeights
    rw [List.map_map]
    simp only [Function.comp_def, List.map_const', List.sum_replicate, nsmul_eq_mul]
    exact mul_one_div_cancel hpos.ne'

theorem validWeights_fromScores {scores : List (String × K)} (hsignals : signals ≠ [])
    (hscores : ∀ q ∈ scores, 0 ≤ q.2) : ValidWeights (weightsFromScores signals scores) := by
  have hnonneg : ∀ x ∈ scores.map Prod.snd, 0 ≤ x := by
    intro x hx
    obtain ⟨q, hq, rfl⟩ := List.mem_map.mp hx
    exact hscores q hq
  unfold weightsFromScores
  by_cases htotal : (scores.map Prod.snd).sum = 0
  · rw [if_pos htotal]
    exact validWeights_equal (by simpa using hsignals)
  · rw [if_neg htotal]
    constructor
    · intro q hq
      obtain ⟨score, hscore, rfl⟩ := List.mem_map.mp hq
      exact div_nonneg (hscores score hscore) (List.sum_nonneg hnonneg)
    · rw [List.map_map]
      simp only [Function.comp_def, div_eq_mul_inv, List.sum_map_mul_right]
      exact mul_inv_cancel₀ htotal

theorem inverseVol_nonneg (frame : List (SignalRow ℤ (Cell K))) :
    0 ≤ inverseVol root frame asOfDate lookbackDays := by
  unfold inverseVol
  simp only
  generalize hvols : perStockVol root
    (onDates SignalRow.date (inWindow asOfDate lookbackDays) frame) = vols
  have hstock : ∀ q ∈ vols, q.1.NotNegative ∧ 2 ≤ q.2 := by
    intro q hq
    rw [← hvols, perStockVol, List.mem_filter, List.mem_map] at hq
    obtain ⟨⟨permno, -, rfl⟩, hcount⟩ := hq
    exact ⟨Cell.notNegative_std root _, of_decide_eq_true hcount⟩
  by_cases hnone : vols = []
  · rw [if_pos hnone]
  · have hsum : (Cell.sum (vols.map fun q => q.1.mul (.num q.2))).NotNegative := by
      apply Cell.notNegative_sum
      intro c hc
      obtain ⟨q, hq, rfl⟩ := List.mem_map.mp hc
      exact (hstock q hq).1.mul_num (Nat.cast_nonneg _)
    have hcount : 0 < (vols.map Prod.snd).sum := by
      obtain ⟨q, hq⟩ := List.exists_mem_of_ne_nil vols hnone
      have hle := List.single_le_sum (fun n _ => Nat.zero_le n) q.2
        (List.mem_map_of_mem (f := Prod.snd) hq)
      have htwo := (hstock q hq).2
      omega
    have hvol : (weightedVol vols).NotNegative := hsum.div_num (Nat.cast_pos.mpr hcount)
    rw [if_neg hnone]
    cases hcell : weightedVol vols with
    | num vol =>
        rw [hcell] at hvol
        simp only
        split_ifs
        · exact le_rfl
        · exact div_nonneg zero_le_one hvol
    | null => exact le_rfl
    | nan => exact le_rfl
    | posInf => exact le_rfl
    | negInf => exact le_rfl

theorem validWeights_dailyIc {scoreFn : List K → Except CombineError K}
    {returns : List (ReturnRow K)} {weights : List (String × K)} (hsignals : signals ≠ [])
    (h : computeWeightsFromDailyIc config computeIc scoreFn signals returns asOfDate lookbackDays =
      .ok weights) : ValidWeights weights := by
  obtain ⟨scores, -, h⟩ := Except.bind_ok h
  cases h
  apply validWeights_fromScores hsignals
  intro q hq
  obtain ⟨score, -, rfl⟩ := List.mem_map.mp hq
  exact le_max_right _ _

/-- Whatever the method and the window, the weights are shares of one. -/
theorem validWeights_signal {weights : List (String × K)} (hsignals : signals ≠ [])
    (h : computeSignalWeights config root computeIc signals returns asOfDate lookbackDays =
      .ok weights) : ValidWeights weights := by
  unfold computeSignalWeights at h
  cases hmethod : config.weighting with
  | equal =>
      simp only [hmethod, Except.ok.injEq] at h
      rw [← h]
      exact validWeights_equal (by simpa using hsignals)
  | ic =>
      cases returns with
      | none => simp [hmethod] at h
      | some returns =>
          simp only [hmethod] at h
          exact validWeights_dailyIc hsignals h
  | ir =>
      cases returns with
      | none => simp [hmethod] at h
      | some returns =>
          simp only [hmethod] at h
          exact validWeights_dailyIc hsignals h
  | volParity =>
      simp only [hmethod, Except.ok.injEq] at h
      rw [← h]
      apply validWeights_fromScores hsignals
      intro q hq
      obtain ⟨s, -, rfl⟩ := List.mem_map.mp hq
      exact inverseVol_nonneg s.2

end Valid

/-! ## The loop over the dates -/

section Runs

variable {today : ℤ} {config : CombinerConfig} {root : Root K} {signals : Signals K}
variable {computeIc : List (SignalRow ℤ (Cell K)) → List (ReturnRow K) → Option K}
variable {returns : Option (List (ReturnRow K))} {lookbackDays : ℤ} {d : ℤ}

/-- What is combined on a day is of that day. -/
theorem date_of_mem_weightedCombine {weights : List (String × K)} :
    ∀ r ∈ weightedCombine (signals.onDates (onDay d)) weights, r.date = d := by
  have hscaled : ∀ (weight : K) (frame : List (SignalRow ℤ (Cell K))),
      (∀ r ∈ frame, r.date = d) → ∀ r ∈ frame.map (scaledBy weight), r.date = d := by
    intro weight frame hframe r hr
    obtain ⟨s, hs, rfl⟩ := List.mem_map.mp hr
    exact hframe s hs
  unfold Signals.onDates weightedCombine
  cases signals with
  | nil => simp
  | cons first rest =>
      simp only [List.map_cons]
      split_ifs
      · simp
      · simp
      · have hfirst := hscaled (weightOf weights first.1)
          (onDates SignalRow.date (onDay d) first.2) (by simp [onDay])
        generalize (onDates SignalRow.date (onDay d) first.2).map
          (scaledBy (weightOf weights first.1)) = composite at hfirst ⊢
        generalize rest.map (fun q => (q.1, onDates SignalRow.date (onDay d) q.2)) = others
        induction others generalizing composite with
        | nil => exact hfirst
        | cons q others ih =>
            apply ih
            intro r hr
            unfold addWeighted at hr
            split_ifs at hr
            · exact hfirst r hr
            · obtain ⟨joined, hjoined, rfl⟩ := List.mem_map.mp hr
              exact hfirst joined.1 (mem_innerJoin.mp hjoined).1

/-- The weights of a date, of which there are none where they fail. -/
def dayWeights (config : CombinerConfig) (root : Root K)
    (computeIc : List (SignalRow ℤ (Cell K)) → List (ReturnRow K) → Option K) (signals : Signals K)
    (returns : Option (List (ReturnRow K))) (lookbackDays d : ℤ) : List (String × K) :=
  (computeSignalWeights config root computeIc signals returns d lookbackDays).toOption.getD []

def dayComposite (config : CombinerConfig) (root : Root K)
    (computeIc : List (SignalRow ℤ (Cell K)) → List (ReturnRow K) → Option K) (signals : Signals K)
    (returns : Option (List (ReturnRow K))) (lookbackDays d : ℤ) : List (SignalRow ℤ (Cell K)) :=
  weightedCombine (signals.onDates (onDay d))
    (dayWeights config root computeIc signals returns lookbackDays d)

def dayHistory (config : CombinerConfig) (root : Root K)
    (computeIc : List (SignalRow ℤ (Cell K)) → List (ReturnRow K) → Option K) (signals : Signals K)
    (returns : Option (List (ReturnRow K))) (lookbackDays d : ℤ) : List (WeightHistoryRow K) :=
  (dayWeights config root computeIc signals returns lookbackDays d).map fun q => ⟨d, q.1, q.2⟩

theorem combineDate_ok {rolling rolling' : Rolling K}
    (h : combineDate config root computeIc signals returns lookbackDays rolling d =
      .ok rolling') :
    computeSignalWeights config root computeIc signals returns d lookbackDays =
        .ok (dayWeights config root computeIc signals returns lookbackDays d) ∧
      rolling'.compositeParts.flatten = rolling.compositeParts.flatten ++
        dayComposite config root computeIc signals returns lookbackDays d ∧
      rolling'.weightHistoryRows = rolling.weightHistoryRows ++
        dayHistory config root computeIc signals returns lookbackDays d := by
  obtain ⟨weights, hweights, h⟩ := Except.bind_ok h
  cases h
  have hday : dayWeights config root computeIc signals returns lookbackDays d = weights := by
    rw [dayWeights, hweights]
    rfl
  refine ⟨hday ▸ hweights, ?_, ?_⟩
  · unfold dayComposite
    rw [hday]
    simp only
    split_ifs with hnone
    · rw [hnone, List.append_nil]
    · simp
  · unfold dayHistory
    rw [hday]

/-- The loop collects what each date gives. -/
theorem foldlM_combineDate_ok {dates : List ℤ} {rolling rolling' : Rolling K}
    (h : dates.foldlM (combineDate config root computeIc signals returns lookbackDays) rolling =
      .ok rolling') :
    (∀ d ∈ dates, computeSignalWeights config root computeIc signals returns d lookbackDays =
        .ok (dayWeights config root computeIc signals returns lookbackDays d)) ∧
      rolling'.compositeParts.flatten = rolling.compositeParts.flatten ++
        dates.flatMap (dayComposite config root computeIc signals returns lookbackDays) ∧
      rolling'.weightHistoryRows = rolling.weightHistoryRows ++
        dates.flatMap (dayHistory config root computeIc signals returns lookbackDays) := by
  induction dates generalizing rolling with
  | nil =>
      cases h
      simp
  | cons d dates ih =>
      rw [List.foldlM_cons] at h
      obtain ⟨next, hnext, h⟩ := Except.bind_ok h
      obtain ⟨hweights, hcomposite, hhistory⟩ := combineDate_ok hnext
      obtain ⟨hrest, hcomposites, hhistories⟩ := ih h
      refine ⟨List.forall_mem_cons.mpr ⟨hweights, hrest⟩, ?_, ?_⟩
      · rw [hcomposites, hcomposite, List.append_assoc, List.flatMap_cons]
      · rw [hhistories, hhistory, List.append_assoc, List.flatMap_cons]

omit [Field K] [LinearOrder K] in
theorem nodup_eligibleDates (signals : Signals K) (asOfDate lookbackDays : ℤ) :
    (eligibleDates signals asOfDate lookbackDays).Nodup := by
  have hsorted : (sortedDates signals).Nodup :=
    (perm_sortByKey _).nodup_iff.mpr (List.nodup_dedup _)
  unfold eligibleDates
  cases hdates : sortedDates signals with
  | nil => exact List.nodup_nil
  | cons minDate rest => exact (hdates ▸ hsorted).filter _

/-- A rolling run is made of the composites and the weights of its eligible dates. -/
theorem combine_rolling_ok {asOfDate lookback : Option ℤ} {rolling : CombineResult K}
    (h : combine today config root computeIc signals returns asOfDate lookback true =
      .ok rolling) :
    validateSignals signals = .ok () ∧ validateReturnsIfNeeded config returns = .ok () ∧
      ∃ dates : List ℤ, dates.Nodup ∧
        (∀ d ∈ dates, computeSignalWeights config root computeIc
            (prepareSignals config root signals) returns d (resolveLookback config lookback) =
          .ok (dayWeights config root computeIc (prepareSignals config root signals) returns
            (resolveLookback config lookback) d)) ∧
        rolling.compositeSignal = dates.flatMap (dayComposite config root computeIc
          (prepareSignals config root signals) returns (resolveLookback config lookback)) ∧
        rolling.weightHistory = some (dates.flatMap (dayHistory config root computeIc
          (prepareSignals config root signals) returns (resolveLookback config lookback))) := by
  obtain ⟨⟨⟩, hsignals, h⟩ := Except.bind_ok h
  obtain ⟨⟨⟩, hreturns, h⟩ := Except.bind_ok h
  obtain ⟨result, hmode, h⟩ := Except.bind_ok h
  cases h
  rw [combineMode, if_pos rfl] at hmode
  obtain ⟨loop, hloop, hmode⟩ := Except.bind_ok hmode
  cases hmode
  obtain ⟨run, hrun, hloop⟩ := Except.bind_ok hloop
  cases hloop
  obtain ⟨hweights, hcomposite, hhistory⟩ := foldlM_combineDate_ok hrun
  refine ⟨hsignals, hreturns, _, nodup_eligibleDates _ _ _, hweights, ?_, ?_⟩
  · simpa using hcomposite
  · simpa using hhistory

/-- A static run succeeds where its weights do. -/
theorem combine_static_ok (today : ℤ) {lookback : Option ℤ} {weights : List (String × K)}
    (hsignals : validateSignals signals = .ok ())
    (hreturns : validateReturnsIfNeeded config returns = .ok ())
    (hweights : computeSignalWeights config root computeIc (prepareSignals config root signals)
      returns d (resolveLookback config lookback) = .ok weights) :
    ∃ static, combine today config root computeIc signals returns (some d) lookback false =
        .ok static ∧
      static.compositeSignal = weightedCombine
        ((prepareSignals config root signals).onDates (onDay d)) weights ∧
      static.signalWeights = weights := by
  unfold combine combineMode combineStatic
  simp only [hsignals, hreturns, Option.getD_some, hweights, Bool.false_eq_true, if_false]
  exact ⟨_, rfl, rfl, rfl⟩

/-- A date of a rolling run has the rows and the weights of its own step. -/
theorem reproduces_of_dates {result rolling : CombineResult K} {dates : List ℤ}
    (hnodup : dates.Nodup) (hd : d ∈ dates)
    (hcomposite : rolling.compositeSignal =
      dates.flatMap (dayComposite config root computeIc signals returns lookbackDays))
    (hhistory : rolling.weightHistory =
      some (dates.flatMap (dayHistory config root computeIc signals returns lookbackDays)))
    (hrows : result.compositeSignal =
      dayComposite config root computeIc signals returns lookbackDays d)
    (hweights : result.signalWeights =
      dayWeights config root computeIc signals returns lookbackDays d) :
    Reproduces result rolling d := by
  have hdate : ∀ d', ∀ r ∈ dayHistory config root computeIc signals returns lookbackDays d',
      r.date = d' := by
    intro d' r hr
    obtain ⟨q, -, rfl⟩ := List.mem_map.mp hr
    rfl
  have hrow : ∀ d', ∀ r ∈ dayComposite config root computeIc signals returns lookbackDays d',
      r.date = d' := fun _ => date_of_mem_weightedCombine
  constructor
  · rw [hcomposite, withKey_flatMap hnodup hrow hd, hrows]
  · rw [CombineResult.weightsOn, hhistory, Option.getD_some, withKey_flatMap hnodup hdate hd,
      hweights, dayHistory, List.map_map]
    exact (List.map_id _).symm

end Runs

/-- A static run for a date of a rolling run reproduces it, on the same frames and on those that
were known by then, and its weights are shares of one. -/
theorem combine_rolling_static [IsStrictOrderedRing K] (today : ℤ) (config : CombinerConfig)
    (root : Root K) (computeIc : List (SignalRow ℤ (Cell K)) → List (ReturnRow K) → Option K)
    (signals : Signals K) (returns : Option (List (ReturnRow K)))
    (asOfDate lookbackDays : Option ℤ) (rolling : CombineResult K)
    (h : combine today config root computeIc signals returns asOfDate lookbackDays true =
      .ok rolling) (d : ℤ) (hd : d ∈ rolling.dates) :
    (∃ static, combine today config root computeIc signals returns (some d) lookbackDays false =
        .ok static ∧ Reproduces static rolling d) ∧
      (∃ static, combine today config root computeIc (signals.onDates (· ≤ d))
        (returns.map (onDates ReturnRow.date (· < d))) (some d) lookbackDays false =
          .ok static ∧ Reproduces static rolling d) ∧
      ValidWeights (rolling.weightsOn d) := by
  obtain ⟨hsignals, hreturns, dates, hnodup, hweights, hcomposite, hhistory⟩ :=
    combine_rolling_ok h
  have hmem : d ∈ dates := by
    unfold CombineResult.dates at hd
    rw [hcomposite, hhistory, List.mem_append, List.mem_map, List.mem_map] at hd
    rcases hd with ⟨r, hr, rfl⟩ | ⟨r, hr, rfl⟩
    · obtain ⟨d', hd', hr⟩ := List.mem_flatMap.mp hr
      rw [date_of_mem_weightedCombine r hr]
      exact hd'
    · obtain ⟨d', hd', hr⟩ := List.mem_flatMap.mp hr
      obtain ⟨q, -, rfl⟩ := List.mem_map.mp hr
      exact hd'
  have hday := hweights d hmem
  obtain ⟨static, hstatic, hrows, hfinal⟩ := combine_static_ok today hsignals hreturns hday
  have hreproduces : Reproduces static rolling d :=
    reproduces_of_dates hnodup hmem hcomposite hhistory hrows hfinal
  refine ⟨⟨static, hstatic, hreproduces⟩, ?_, ?_⟩
  · have hknown : ∀ d' < d, (decide (d' ≤ d)) = true := fun d' hlt => decide_eq_true hlt.le
    have hbefore : ∀ d' < d, (decide (d' < d)) = true := fun d' hlt => decide_eq_true hlt
    have hsignals' : validateSignals (signals.onDates (· ≤ d)) = .ok () := by
      simpa [validateSignals, Signals.onDates] using hsignals
    have hreturns' : validateReturnsIfNeeded config
        (returns.map (onDates ReturnRow.date (· < d))) = .ok () := by
      simpa [validateReturnsIfNeeded] using hreturns
    rw [← computeSignalWeights_onDates hknown hbefore, ← prepareSignals_onDates] at hday
    obtain ⟨known, hrun, hrows', hfinal'⟩ := combine_static_ok today hsignals' hreturns' hday
    have honDay : ∀ d', onDay d d' = true → decide (d' ≤ d) = true := by
      intro d' hd'
      simp only [onDay, decide_eq_true_eq] at hd' ⊢
      exact hd'.le
    refine ⟨known, hrun, reproduces_of_dates hnodup hmem hcomposite hhistory ?_ hfinal'⟩
    rw [hrows', prepareSignals_onDates]
    unfold dayComposite Signals.onDates
    rw [List.map_map]
    congr 1
    apply List.map_congr_left
    intro q _
    rw [Function.comp_apply, onDates_onDates honDay]
  · have hnonempty : prepareSignals config root signals ≠ [] := by
      apply prepareSignals_ne_nil
      rintro rfl
      cases hsignals
    rw [← hreproduces.weights, hfinal]
    exact validWeights_signal hnonempty hday

end Combiner

/-! ## A day by volatility parity -/

def rationalRoot : Root ℚ := ⟨Rat.sqrt, Rat.sqrt_nonneg⟩

def volParityConfig : CombinerConfig := ⟨.volParity, 3, 2, false⟩

/-- The second signal moves twice as far, and has another security on the last day. -/
def twoSignals : Signals ℚ :=
  [("momentum", [⟨1, 1, .num (-1)⟩, ⟨1, 2, .num 0⟩, ⟨1, 3, .num 1⟩, ⟨1, 4, .num 3⟩,
    ⟨1, 5, .num 9⟩]),
   ("value", [⟨1, 1, .num (-2)⟩, ⟨1, 2, .num 0⟩, ⟨1, 3, .num 2⟩, ⟨1, 4, .num 6⟩, ⟨2, 5, .nan⟩])]

def fourthDay : CombineResult ℚ where
  compositeSignal := [⟨1, 4, .num 4⟩]
  signalWeights := [("momentum", 2 / 3), ("value", 1 / 3)]
  weightHistory := some [⟨4, "momentum", 2 / 3⟩, ⟨4, "value", 1 / 3⟩]
  coveragePct := 0
  weightingMethod := .volParity
  lookbackDays := 3
  nSignalsCombined := 2
  dateRange := (4, 4)

theorem combine_rolling_static_four :
    (∃ static, combine 0 volParityConfig rationalRoot (fun _ _ => none) twoSignals none (some 4)
        none false = .ok static ∧ Reproduces static fourthDay 4) ∧
      (∃ static, combine 0 volParityConfig rationalRoot (fun _ _ => none)
        (twoSignals.onDates (· ≤ 4)) none (some 4) none false = .ok static ∧
          Reproduces static fourthDay 4) ∧
      ValidWeights (fourthDay.weightsOn 4) :=
  combine_rolling_static 0 volParityConfig rationalRoot (fun _ _ => none) twoSignals none (some 5)
    none fourthDay (by decide +kernel) 4 (by decide +kernel)

end TradingPlatform.Alpha
