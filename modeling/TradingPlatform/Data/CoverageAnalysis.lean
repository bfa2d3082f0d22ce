import TradingPlatform.Base.Months
import TradingPlatform.Base.Runs
import Mathlib.Data.List.Zip

/-! # Coverage of the market data

Every symbol has a status on every day: no expectation, complete, suspicious or missing. The gaps
are the maximal runs of missing trading days; a week or a month shows the worst status of its days.
Days are counted as in the calendar, from the first of January of the year 1, a Monday.
-/

namespace TradingPlatform.Data

open Base

/-! ## Statuses -/

inductive CoverageStatus where
  | complete | missing | suspicious | noExpectation
  deriving DecidableEq, Repr

structure CoverageGap where
  symbol : String
  startDate : ℤ
  endDate : ℤ
  gapDays : ℕ
  deriving DecidableEq, Repr

/-- What the scans of the partitions found, in the range of the analysis. -/
structure CoverageScan where
  presence : List (String × ℤ)
  quarantine : List (String × ℤ)

structure CoverageTotals where
  totalExpected : ℕ
  totalPresent : ℕ
  totalMissing : ℕ
  totalSuspicious : ℕ
  deriving DecidableEq, Repr

/-- Every day from the first to the last one. -/
def allDates (startDate endDate : ℤ) : List ℤ :=
  (List.range (endDate + 1 - startDate).toNat).map fun n : ℕ => startDate + n

def dayStatus (scan : CoverageScan) (tradingDays : List ℤ) (symbol : String) (day : ℤ) :
    CoverageStatus :=
  if day ∉ tradingDays then .noExpectation
  else if (symbol, day) ∈ scan.quarantine then .suspicious
  else if (symbol, day) ∈ scan.presence then .complete
  else .missing

def dailyMatrix (scan : CoverageScan) (tradingDays : List ℤ) (symbols : List String)
    (dates : List ℤ) : List (List CoverageStatus) :=
  symbols.map fun symbol => dates.map (dayStatus scan tradingDays symbol)

def countStatus (totals : CoverageTotals) : CoverageStatus → CoverageTotals
  | .noExpectation => totals
  | .complete =>
      { totals with
        totalExpected := totals.totalExpected + 1
        totalPresent := totals.totalPresent + 1 }
  | .missing =>
      { totals with
        totalExpected := totals.totalExpected + 1
        totalMissing := totals.totalMissing + 1 }
  | .suspicious =>
      { totals with
        totalExpected := totals.totalExpected + 1
        totalSuspicious := totals.totalSuspicious + 1 }

def coverageTotals (matrix : List (List CoverageStatus)) : CoverageTotals :=
  matrix.flatten.foldl countStatus ⟨0, 0, 0, 0⟩

/-! ## Gaps -/

/-- The variables of the loop over the days of a symbol. -/
structure GapLoop where
  gaps : List CoverageGap
  gapStart : Option ℤ
  lastMissingTrading : Option ℤ
  gapCount : ℕ

/-- The gap that is open ends. -/
def GapLoop.close (symbol : String) (s : GapLoop) : GapLoop :=
  match s.gapStart with
  | none => s
  | some gapStart =>
      if 0 < s.gapCount then
        { s with
          gaps := s.gaps ++
            [⟨symbol, gapStart, s.lastMissingTrading.getD gapStart, s.gapCount⟩] }
      else s

def gapDay (symbol : String) (tradingDays : List ℤ) (s : GapLoop) (day : ℤ × CoverageStatus) :
    GapLoop :=
  if day.1 ∉ tradingDays then s
  else if day.2 = .missing then
    { s with
      gapStart := some (s.gapStart.getD day.1)
      lastMissingTrading := some day.1
      gapCount := s.gapCount + 1 }
  else
    { s.close symbol with
      gapStart := none
      lastMissingTrading := none
      gapCount := 0 }

def symbolGaps (dates tradingDays : List ℤ) (gaps : List CoverageGap) (symbol : String)
    (row : List CoverageStatus) : List CoverageGap :=
  (((dates.zip row).foldl (gapDay symbol tradingDays) ⟨gaps, none, none, 0⟩).close symbol).gaps

/-- `sort(key=gap_days, reverse=True)` keeps equal gaps in their order. -/
def sortGaps (gaps : List CoverageGap) : List CoverageGap :=
  gaps.insertionSort fun g h => h.gapDays ≤ g.gapDays

def findGaps (symbols : List String) (dates : List ℤ) (matrix : List (List CoverageStatus))
    (tradingDays : List ℤ) : List CoverageGap :=
  sortGaps ((symbols.zip matrix).foldl
    (fun gaps x => symbolGaps dates tradingDays gaps x.1 x.2) [])

/-! ## Weeks and months -/

/-- The flags of the statuses are read in the order of precedence. -/
def aggregateStatus (statuses : List CoverageStatus) : CoverageStatus :=
  let hasMissing := statuses.contains .missing
  let hasSuspicious := statuses.contains .suspicious
  let hasComplete := statuses.contains .complete
  let hasTrading := hasMissing || hasSuspicious || hasComplete
  if !hasTrading then .noExpectation
  else if hasMissing then .missing
  else if hasSuspicious then .suspicious
  else if hasComplete then .complete
  else .noExpectation

/-- `d.weekday()`, which is 0 on a Monday -/
def weekday (day : ℤ) : ℤ := (day - 1) % 7

def monday (day : ℤ) : ℤ := day - weekday day

/-- The groups of neighbouring days with one key; a group shows the days by their indices. -/
def aggregateBy (key label : ℤ → ℤ) (dates : List ℤ) (matrix : List (List CoverageStatus)) :
    List ℤ × List (List CoverageStatus) :=
  let groups := groups (fun x : ℤ × ℕ => key x.1) dates.zipIdx
  (groups.map fun g => label g.1,
    matrix.map fun row => groups.map fun g =>
      aggregateStatus (g.2.map fun x => row.getD x.2 .noExpectation))

def aggregateWeekly (dates : List ℤ) (matrix : List (List CoverageStatus)) :
    List ℤ × List (List CoverageStatus) :=
  aggregateBy monday id dates matrix

/-- The key is year and month, the label the first of the month. -/
def aggregateMonthly (dates : List ℤ) (matrix : List (List CoverageStatus)) :
    List ℤ × List (List CoverageStatus) :=
  aggregateBy monthOf monthStart dates matrix

/-! ## The gaps are the runs of missing days -/

section Gaps

variable {symbols : List String} {symbol : String} {tradingDays dates run : List ℤ}
  {gaps : List CoverageGap} {scan : CoverageScan} {g : CoverageGap}

/-- The gap that a run of missing days is reported as. -/
def runGap (symbol : String) (run : List ℤ) : List CoverageGap :=
  match run.head?, run.getLast? with
  | some first, some last => [⟨symbol, first, last, run.length⟩]
  | _, _ => []

theorem mem_runGap_iff :
    g ∈ runGap symbol run ↔ ∃ first ∈ run.head?, ∃ last ∈ run.getLast?,
      g = ⟨symbol, first, last, run.length⟩ := by
  unfold runGap
  cases run.head? <;> cases run.getLast? <;> simp

theorem sum_gapDays_runGap : ((runGap symbol run).map CoverageGap.gapDays).sum = run.length := by
  cases run with
  | nil => rfl
  | cons day run => simp [runGap, List.getLast?_cons]

/-- The variables of the loop when the run is open. -/
def GapLoop.ofRun (gaps : List CoverageGap) (run : List ℤ) : GapLoop :=
  ⟨gaps, run.head?, run.getLast?, run.length⟩

theorem GapLoop.close_ofRun :
    ((GapLoop.ofRun gaps run).close symbol).gaps = gaps ++ runGap symbol run := by
  cases run with
  | nil => simp [GapLoop.ofRun, GapLoop.close, runGap]
  | cons day run => simp [GapLoop.ofRun, GapLoop.close, runGap, List.getLast?_cons]

variable {status : ℤ → CoverageStatus}

/-- The loop opens, extends and closes the runs of the days that the exchange trades on. -/
theorem foldl_gapDay :
    ((dates.foldl (fun s day => gapDay symbol tradingDays s (day, status day))
        (GapLoop.ofRun gaps run)).close symbol).gaps =
      gaps ++ (maxRunsFrom (fun day => status day = .missing) run
        (dates.filter fun day => day ∈ tradingDays)).flatMap (runGap symbol) := by
  induction dates generalizing gaps run with
  | nil =>
      rw [List.foldl_nil, GapLoop.close_ofRun, List.filter_nil, maxRunsFrom, endRun]
      cases run <;> simp [runGap]
  | cons day dates ih =>
      rw [List.foldl_cons]
      by_cases htrading : day ∈ tradingDays
      · rw [List.filter_cons_of_pos (by simpa using htrading), maxRunsFrom]
        by_cases hmissing : status day = .missing
        · have hstep : gapDay symbol tradingDays (GapLoop.ofRun gaps run) (day, status day) =
              GapLoop.ofRun gaps (run ++ [day]) := by
            unfold gapDay
            rw [if_neg (by simpa using htrading), if_pos hmissing]
            cases run with
            | nil => rfl
            | cons first run =>
                rw [GapLoop.ofRun, GapLoop.ofRun, List.getLast?_concat, List.length_append]
                rfl
          rw [hstep, ih, if_pos (by simpa using hmissing)]
        · have hstep : gapDay symbol tradingDays (GapLoop.ofRun gaps run) (day, status day) =
              GapLoop.ofRun (gaps ++ runGap symbol run) [] := by
            unfold gapDay
            rw [if_neg (by simpa using htrading), if_neg hmissing, ← GapLoop.close_ofRun]
            rfl
          have hend : (endRun run).flatMap (runGap symbol) = runGap symbol run := by
            cases run <;> simp [endRun, runGap]
          rw [hstep, ih, if_neg (by simpa using hmissing), List.flatMap_append, hend,
            List.append_assoc]
      · have hstep : gapDay symbol tradingDays (GapLoop.ofRun gaps run) (day, status day) =
            GapLoop.ofRun gaps run := by
          unfold gapDay
          rw [if_pos htrading]
        rw [hstep, ih, List.filter_cons_of_neg (by simpa using htrading)]

theorem symbolGaps_eq :
    symbolGaps dates tradingDays gaps symbol (dates.map status) =
      gaps ++ (maxRuns (fun day => status day = .missing)
        (dates.filter fun day => day ∈ tradingDays)).flatMap (runGap symbol) := by
  have hloop : ((dates.foldl (fun s day => gapDay symbol tradingDays s (day, status day))
      (GapLoop.ofRun gaps [])).close symbol).gaps = _ := foldl_gapDay
  rw [maxRuns, ← hloop, symbolGaps, ← List.map_prod_left_eq_zip, List.foldl_map]
  rfl

/-- The days that the exchange trades on and that the symbol has no data for. -/
def missingDay (scan : CoverageScan) (symbol : String) (day : ℤ) : Bool :=
  (symbol, day) ∉ scan.presence ∧ (symbol, day) ∉ scan.quarantine

theorem dayStatus_missing_iff {day : ℤ} :
    dayStatus scan tradingDays symbol day = .missing ↔
      day ∈ tradingDays ∧ missingDay scan symbol day = true := by
  unfold dayStatus missingDay
  split_ifs <;> simp_all

theorem dayStatus_complete_iff {day : ℤ} :
    dayStatus scan tradingDays symbol day = .complete ↔
      day ∈ tradingDays ∧ (symbol, day) ∈ scan.presence ∧ (symbol, day) ∉ scan.quarantine := by
  unfold dayStatus
  split_ifs <;> simp_all

theorem dayStatus_noExpectation_iff {day : ℤ} :
    dayStatus scan tradingDays symbol day = .noExpectation ↔ day ∉ tradingDays := by
  unfold dayStatus
  split_ifs <;> simp_all

theorem maxRuns_dayStatus :
    maxRuns (fun day => dayStatus scan tradingDays symbol day = .missing)
        (dates.filter fun day => day ∈ tradingDays) =
      maxRuns (missingDay scan symbol) (dates.filter fun day => day ∈ tradingDays) := by
  refine maxRuns_congr fun day hday => ?_
  have htrading : day ∈ tradingDays := by simpa using (List.mem_filter.1 hday).2
  simp [dayStatus_missing_iff, htrading]

/-- The gaps in the order in which the loops find them. -/
def runGaps (scan : CoverageScan) (symbols : List String) (dates : List ℤ) : List CoverageGap :=
  symbols.flatMap fun symbol => (maxRuns (missingDay scan symbol) dates).flatMap (runGap symbol)

theorem findGaps_eq :
    findGaps symbols dates (dailyMatrix scan tradingDays symbols dates) tradingDays =
      sortGaps (runGaps scan symbols (dates.filter fun day => day ∈ tradingDays)) := by
  have hloop : ∀ gaps : List CoverageGap,
      (symbols.map fun symbol => (symbol, dates.map (dayStatus scan tradingDays symbol))).foldl
        (fun gaps x => symbolGaps dates tradingDays gaps x.1 x.2) gaps =
      gaps ++ runGaps scan symbols (dates.filter fun day => day ∈ tradingDays) := by
    induction symbols with
    | nil => simp [runGaps]
    | cons symbol symbols ih =>
        intro gaps
        rw [List.map_cons, List.foldl_cons, ih, symbolGaps_eq, maxRuns_dayStatus]
        simp [runGaps]
  rw [findGaps, dailyMatrix, ← List.map_prod_left_eq_zip, hloop, List.nil_append]

theorem perm_sortGaps : (sortGaps gaps).Perm gaps := List.perm_insertionSort ..

theorem sorted_sortGaps : (sortGaps gaps).Pairwise fun g h => h.gapDays ≤ g.gapDays := by
  have htotal : Std.Total fun g h : CoverageGap => h.gapDays ≤ g.gapDays :=
    ⟨fun g h => Nat.le_total h.gapDays g.gapDays⟩
  have htrans : IsTrans CoverageGap fun g h => h.gapDays ≤ g.gapDays :=
    ⟨fun _ _ _ h₁ h₂ => h₂.trans h₁⟩
  exact List.pairwise_insertionSort _ gaps

theorem sum_gapDays_runGaps :
    ((runGaps scan symbols dates).map CoverageGap.gapDays).sum =
      (symbols.map fun symbol => dates.countP (missingDay scan symbol)).sum := by
  have hsymbol : ∀ symbol (runs : List (List ℤ)), ((runs.flatMap (runGap symbol)).map
      CoverageGap.gapDays).sum = (runs.map List.length).sum := by
    intro symbol runs
    induction runs with
    | nil => rfl
    | cons run runs ih => simp [ih, sum_gapDays_runGap]
  induction symbols with
  | nil => rfl
  | cons symbol symbols ih =>
      simp only [runGaps, List.flatMap_cons, List.map_append, List.sum_append, List.map_cons,
        List.sum_cons] at ih ⊢
      rw [ih, hsymbol, sum_length_maxRuns]

end Gaps

/-! ## The totals -/

section Totals

variable {symbols : List String} {tradingDays dates : List ℤ} {scan : CoverageScan}

theorem foldl_countStatus (statuses : List CoverageStatus) (totals : CoverageTotals) :
    statuses.foldl countStatus totals =
      ⟨totals.totalExpected + statuses.countP fun s => s ≠ .noExpectation,
        totals.totalPresent + statuses.countP fun s => s = .complete,
        totals.totalMissing + statuses.countP fun s => s = .missing,
        totals.totalSuspicious + statuses.countP fun s => s = .suspicious⟩ := by
  induction statuses generalizing totals with
  | nil => rfl
  | cons status statuses ih =>
      rw [List.foldl_cons, ih]
      cases status <;> simp [countStatus, Nat.add_assoc, Nat.add_comm 1]

/-- Every day of a symbol that counts is present, missing or suspicious. -/
theorem coverageTotals_split (matrix : List (List CoverageStatus)) :
    (coverageTotals matrix).totalExpected =
      (coverageTotals matrix).totalPresent + (coverageTotals matrix).totalMissing +
        (coverageTotals matrix).totalSuspicious := by
  rw [coverageTotals, foldl_countStatus]
  induction matrix.flatten with
  | nil => rfl
  | cons status statuses ih =>
      simp only [Nat.zero_add] at ih ⊢
      cases status <;> simp only [List.countP_cons] <;> simp at ih ⊢ <;> omega

theorem totalExpected_dailyMatrix :
    (coverageTotals (dailyMatrix scan tradingDays symbols dates)).totalExpected =
      symbols.length * dates.countP fun day => day ∈ tradingDays := by
  have hrow : ∀ symbol, (dates.map (dayStatus scan tradingDays symbol)).countP
      (fun s => s ≠ .noExpectation) = dates.countP fun day => day ∈ tradingDays := by
    intro symbol
    rw [List.countP_map]
    refine List.countP_congr fun day _ => ?_
    simp only [Function.comp_apply, decide_eq_true_eq]
    unfold dayStatus
    split_ifs <;> simp_all
  rw [coverageTotals, foldl_countStatus]
  simp only [Nat.zero_add]
  induction symbols with
  | nil => simp [dailyMatrix]
  | cons symbol symbols ih =>
      simp only [dailyMatrix, List.map_cons, List.flatten_cons, List.countP_append,
        List.length_cons] at ih ⊢
      rw [ih, hrow, Nat.succ_mul, Nat.add_comm]

theorem totalMissing_dailyMatrix :
    (coverageTotals (dailyMatrix scan tradingDays symbols dates)).totalMissing =
      (symbols.map fun symbol => (dates.filter fun day => day ∈ tradingDays).countP
        (missingDay scan symbol)).sum := by
  have hrow : ∀ symbol, (dates.map (dayStatus scan tradingDays symbol)).countP
      (fun s => s = .missing) =
        (dates.filter fun day => day ∈ tradingDays).countP (missingDay scan symbol) := by
    intro symbol
    rw [List.countP_map, List.countP_filter]
    refine List.countP_congr fun day _ => ?_
    simp [dayStatus_missing_iff, and_comm]
  rw [coverageTotals, foldl_countStatus]
  simp only [Nat.zero_add]
  induction symbols with
  | nil => rfl
  | cons symbol symbols ih =>
      simp only [dailyMatrix, List.map_cons, List.flatten_cons, List.countP_append,
        List.sum_cons] at ih ⊢
      rw [ih, hrow]

end Totals

/-- A gap is reported exactly for the maximal runs of missing trading days of a symbol, where the
days without trading do not break a run; the longest gaps come first, and together they account for
every missing day of the summary. -/
theorem gaps_are_the_missing_runs (scan : CoverageScan) (tradingDays : List ℤ)
    (symbols : List String) (startDate endDate : ℤ) :
    (∀ g, g ∈ findGaps symbols (allDates startDate endDate)
          (dailyMatrix scan tradingDays symbols (allDates startDate endDate)) tradingDays ↔
        ∃ symbol ∈ symbols, ∃ run,
          IsMaxRun (fun day => (symbol, day) ∉ scan.presence ∧ (symbol, day) ∉ scan.quarantine)
            ((allDates startDate endDate).filter fun day => day ∈ tradingDays) run ∧
          ∃ first ∈ run.head?, ∃ last ∈ run.getLast?, g = ⟨symbol, first, last, run.length⟩) ∧
      (findGaps symbols (allDates startDate endDate)
          (dailyMatrix scan tradingDays symbols (allDates startDate endDate))
          tradingDays).Pairwise (fun g h => h.gapDays ≤ g.gapDays) ∧
      ((findGaps symbols (allDates startDate endDate)
          (dailyMatrix scan tradingDays symbols (allDates startDate endDate)) tradingDays).map
            CoverageGap.gapDays).sum =
        (coverageTotals (dailyMatrix scan tradingDays symbols
          (allDates startDate endDate))).totalMissing := by
  rw [findGaps_eq]
  refine ⟨fun g => ?_, sorted_sortGaps, ?_⟩
  · rw [perm_sortGaps.mem_iff, runGaps, List.mem_flatMap]
    simp only [List.mem_flatMap, mem_maxRuns_iff, mem_runGap_iff]
    rfl
  · rw [(perm_sortGaps.map CoverageGap.gapDays).sum_nat, sum_gapDays_runGaps,
      totalMissing_dailyMatrix]

/-! ## Weeks and months show their worst day -/

section Periods

variable {symbols : List String} {symbol : String} {tradingDays dates : List ℤ}
  {scan : CoverageScan} {key label : ℤ → ℤ} {statuses : List CoverageStatus}

theorem aggregateStatus_eq :
    aggregateStatus statuses =
      if .missing ∈ statuses then .missing
      else if .suspicious ∈ statuses then .suspicious
      else if .complete ∈ statuses then .complete
      else .noExpectation := by
  unfold aggregateStatus
  by_cases hmissing : CoverageStatus.missing ∈ statuses
  · simp [hmissing]
  · by_cases hsuspicious : CoverageStatus.suspicious ∈ statuses
    · simp [hmissing, hsuspicious]
    · by_cases hcomplete : CoverageStatus.complete ∈ statuses
      · simp [hmissing, hsuspicious, hcomplete]
      · simp [hmissing, hsuspicious, hcomplete]

theorem aggregateStatus_missing_iff :
    aggregateStatus statuses = .missing ↔ .missing ∈ statuses := by
  rw [aggregateStatus_eq]
  split_ifs <;> simp_all

theorem aggregateStatus_noExpectation_iff :
    aggregateStatus statuses = .noExpectation ↔ ∀ status ∈ statuses, status = .noExpectation := by
  rw [aggregateStatus_eq]
  constructor
  · intro hnone status hstatus
    split_ifs at hnone
    cases status <;> simp_all
  · intro hall
    have hnot : ∀ status, status ≠ .noExpectation → status ∉ statuses :=
      fun status hne hmem => hne (hall status hmem)
    simp [hnot]

theorem aggregateStatus_complete_iff :
    aggregateStatus statuses = .complete ↔
      .complete ∈ statuses ∧ .missing ∉ statuses ∧ .suspicious ∉ statuses := by
  rw [aggregateStatus_eq]
  split_ifs <;> simp_all

theorem pairwise_allDates (startDate endDate : ℤ) :
    (allDates startDate endDate).Pairwise fun d d' => d < d' := by
  rw [allDates, List.pairwise_map]
  refine List.pairwise_lt_range.imp fun h => ?_
  omega

theorem le_of_monday_le {day day' : ℤ} (h : day ≤ day') : monday day ≤ monday day' := by
  unfold monday weekday
  omega

theorem le_of_monthOf_le {day day' : ℤ} (h : day ≤ day') : monthOf day ≤ monthOf day' := by
  by_contra hlt
  have hbefore := lt_of_monthOf_lt (not_le.1 hlt)
  omega

/-- The indices of a group pick the statuses of its days out of the row. -/
theorem map_getD_zipIdx (f : ℤ → CoverageStatus) (q : ℤ → Bool) :
    ((dates.zipIdx.filter fun x => q x.1).map fun x =>
        (dates.map f).getD x.2 .noExpectation) = (dates.filter q).map f := by
  have hcell : ∀ x ∈ dates.zipIdx, (dates.map f).getD x.2 .noExpectation = f x.1 := by
    rintro ⟨day, n⟩ hx
    have hget := List.mem_zipIdx_iff_getElem?.1 hx
    simp [List.getD_eq_getElem?_getD, hget]
  have hfst : (dates.zipIdx.filter fun x => q x.1).map Prod.fst = dates.filter q := by
    conv_rhs => rw [← List.zipIdx_map_fst 0 dates, List.filter_map]
    rfl
  rw [← hfst, List.map_map]
  exact List.map_congr_left fun x hx => hcell x (List.mem_of_mem_filter hx)

/-- One label for every period with a day in it, and the days of the period under it. -/
theorem aggregateBy_eq (scan : CoverageScan) (tradingDays : List ℤ) (symbols : List String)
    (label : ℤ → ℤ) (hmono : ∀ day day', day ≤ day' → key day ≤ key day')
    (hsorted : dates.Pairwise fun d d' => d < d') :
    ∃ periods : List ℤ, (periods.Pairwise fun k k' => k < k') ∧
      (∀ k, k ∈ periods ↔ ∃ day ∈ dates, key day = k) ∧
      aggregateBy key label dates (dailyMatrix scan tradingDays symbols dates) =
        (periods.map label, symbols.map fun symbol => periods.map fun k =>
          aggregateStatus ((dates.filter fun day => key day = k).map
            (dayStatus scan tradingDays symbol))) := by
  have hkeys : (dates.zipIdx.map fun x => key x.1).Pairwise fun m n => m ≤ n := by
    have hfst : (dates.zipIdx.map fun x => key x.1) = dates.map key := by
      conv_rhs => rw [← List.zipIdx_map_fst 0 dates, List.map_map]
      rfl
    rw [hfst, List.pairwise_map]
    exact hsorted.imp fun h => hmono _ _ h.le
  have hgroups := groupedBy_groups hkeys
  refine ⟨(groups (fun x : ℤ × ℕ => key x.1) dates.zipIdx).map Prod.fst,
    List.pairwise_map.2 hgroups.increasing, fun k => ?_, ?_⟩
  · constructor
    · intro hk
      obtain ⟨g, hg, hgk⟩ := List.mem_map.1 hk
      obtain ⟨x, hx⟩ := List.exists_mem_of_ne_nil _ (hgroups.nonempty g hg)
      rw [hgroups.filtered g hg] at hx
      obtain ⟨hmem, hkey⟩ := List.mem_filter.1 hx
      exact ⟨x.1, List.fst_mem_of_mem_zipIdx hmem, by simpa [hgk] using hkey⟩
    · rintro ⟨day, hday, hkey⟩
      obtain ⟨n, hn, hget⟩ := List.getElem_of_mem hday
      have hmem : (day, n) ∈ dates.zipIdx :=
        List.mem_zipIdx_iff_getElem?.2 (by simp [hn, hget])
      obtain ⟨g, hg, hgkey⟩ := hgroups.covered (day, n) hmem
      exact List.mem_map.2 ⟨g, hg, hgkey.trans hkey⟩
  · simp only [aggregateBy, dailyMatrix, List.map_map]
    refine Prod.ext rfl (List.map_congr_left fun symbol _ => List.map_congr_left fun g hg => ?_)
    simp only [Function.comp_apply]
    rw [hgroups.filtered g hg, map_getD_zipIdx _ fun day => key day = g.1]

/-- What the cell of a symbol and a period says of the days of the period. -/
structure PeriodCell (scan : CoverageScan) (tradingDays : List ℤ) (gaps : List CoverageGap)
    (symbol : String) (days : List ℤ) (cell : CoverageStatus) : Prop where
  missing : cell = .missing ↔ ∃ g ∈ gaps, g.symbol = symbol ∧
    ∃ day ∈ days, day ∈ tradingDays ∧ g.startDate ≤ day ∧ day ≤ g.endDate
  complete : cell = .complete ↔ (∃ day ∈ days, day ∈ tradingDays) ∧
    ∀ day ∈ days, day ∈ tradingDays →
      (symbol, day) ∈ scan.presence ∧ (symbol, day) ∉ scan.quarantine
  noExpectation : cell = .noExpectation ↔ ∀ day ∈ days, day ∉ tradingDays

/-- The days of a reported gap that trade are missing days, and every missing day is in a gap. -/
theorem missing_iff_in_gap (hsorted : dates.Pairwise fun d d' => d < d') {day : ℤ}
    (hsymbol : symbol ∈ symbols) (hday : day ∈ dates) (htrading : day ∈ tradingDays) :
    missingDay scan symbol day = true ↔
      ∃ g ∈ findGaps symbols dates (dailyMatrix scan tradingDays symbols dates) tradingDays,
        g.symbol = symbol ∧ g.startDate ≤ day ∧ day ≤ g.endDate := by
  have hfilter : (dates.filter fun d => d ∈ tradingDays).Pairwise fun d d' => id d < id d' :=
    hsorted.sublist List.filter_sublist
  have hmem : day ∈ dates.filter fun d => d ∈ tradingDays :=
    List.mem_filter.2 ⟨hday, by simpa using htrading⟩
  simp only [findGaps_eq, perm_sortGaps.mem_iff, runGaps, List.mem_flatMap, mem_maxRuns_iff,
    mem_runGap_iff]
  constructor
  · intro hmissing
    obtain ⟨run, hrun, hin⟩ := exists_maxRun hmem hmissing
    obtain ⟨first, hfirst⟩ := Option.ne_none_iff_exists'.1 (mt List.head?_eq_none_iff.1 hrun.1)
    obtain ⟨last, hlast⟩ := Option.ne_none_iff_exists'.1 (mt List.getLast?_eq_none_iff.1 hrun.1)
    exact ⟨_, ⟨symbol, hsymbol, run, hrun, first, hfirst, last, hlast, rfl⟩, rfl,
      hrun.head?_le hfilter hfirst hin, hrun.le_getLast? hfilter hlast hin⟩
  · rintro ⟨g, ⟨symbol', _, run, hrun, first, hfirst, last, hlast, hg⟩, hsame, hge, hle⟩
    rw [hg] at hsame hge hle
    have hsame : symbol' = symbol := hsame
    rw [hsame] at hrun
    exact hrun.2.1 day (hrun.mem_of_between hfilter hfirst hlast hmem hge hle)

theorem periodCell_aggregateStatus (hsorted : dates.Pairwise fun d d' => d < d')
    (hsymbol : symbol ∈ symbols) (q : ℤ → Bool) :
    PeriodCell scan tradingDays
      (findGaps symbols dates (dailyMatrix scan tradingDays symbols dates) tradingDays) symbol
      (dates.filter q)
      (aggregateStatus ((dates.filter q).map (dayStatus scan tradingDays symbol))) := by
  refine ⟨?_, ?_, ?_⟩
  · rw [aggregateStatus_missing_iff, List.mem_map]
    constructor
    · rintro ⟨day, hday, hstatus⟩
      obtain ⟨htrading, hmissing⟩ := dayStatus_missing_iff.1 hstatus
      obtain ⟨g, hg, hsame, hspan⟩ :=
        (missing_iff_in_gap hsorted hsymbol (List.mem_of_mem_filter hday) htrading).1 hmissing
      exact ⟨g, hg, hsame, day, hday, htrading, hspan⟩
    · rintro ⟨g, hg, hsame, day, hday, htrading, hspan⟩
      have hmissing : missingDay scan symbol day = true :=
        (missing_iff_in_gap hsorted hsymbol (List.mem_of_mem_filter hday) htrading).2
          ⟨g, hg, hsame, hspan⟩
      exact ⟨day, hday, dayStatus_missing_iff.2 ⟨htrading, hmissing⟩⟩
  · rw [aggregateStatus_complete_iff, List.mem_map]
    constructor
    · rintro ⟨⟨day, hday, hcomplete⟩, hmissing, hsuspicious⟩
      refine ⟨⟨day, hday, (dayStatus_complete_iff.1 hcomplete).1⟩, fun other hother htrading => ?_⟩
      suffices hstatus : dayStatus scan tradingDays symbol other = .complete from
        (dayStatus_complete_iff.1 hstatus).2
      cases hstatus : dayStatus scan tradingDays symbol other with
      | complete => rfl
      | missing => exact absurd (List.mem_map.2 ⟨other, hother, hstatus⟩) hmissing
      | suspicious => exact absurd (List.mem_map.2 ⟨other, hother, hstatus⟩) hsuspicious
      | noExpectation => exact absurd htrading (dayStatus_noExpectation_iff.1 hstatus)
    · rintro ⟨⟨day, hday, htrading⟩, hall⟩
      have hcomplete : ∀ other ∈ dates.filter q, other ∈ tradingDays →
          dayStatus scan tradingDays symbol other = .complete :=
        fun other hother hother' => dayStatus_complete_iff.2 ⟨hother', hall other hother hother'⟩
      have hnot : ∀ status, status ≠ .complete → status ≠ .noExpectation →
          status ∉ (dates.filter q).map (dayStatus scan tradingDays symbol) := by
        intro status hne hexpected hmem
        obtain ⟨other, hother, hfound⟩ := List.mem_map.1 hmem
        by_cases hother' : other ∈ tradingDays
        · exact hne (hfound ▸ hcomplete other hother hother')
        · exact hexpected (hfound ▸ dayStatus_noExpectation_iff.2 hother')
      exact ⟨⟨day, hday, hcomplete day hday htrading⟩, hnot _ (by decide) (by decide),
        hnot _ (by decide) (by decide)⟩
  · rw [aggregateStatus_noExpectation_iff, List.forall_mem_map]
    simp only [dayStatus_noExpectation_iff]

/-- The matrix of the periods of a key: a column for every period with a day in the range. -/
def PeriodMatrix (key label : ℤ → ℤ) (scan : CoverageScan) (tradingDays : List ℤ)
    (symbols : List String) (dates : List ℤ)
    (matrix : List ℤ × List (List CoverageStatus)) : Prop :=
  ∃ periods : List ℤ, (periods.Pairwise fun k k' => k < k') ∧
    (∀ k, k ∈ periods ↔ ∃ day ∈ dates, key day = k) ∧ matrix.1 = periods.map label ∧
    ∃ cell : String → ℤ → CoverageStatus,
      matrix.2 = symbols.map (fun symbol => periods.map (cell symbol)) ∧
      ∀ symbol ∈ symbols, ∀ k ∈ periods, PeriodCell scan tradingDays
        (findGaps symbols dates (dailyMatrix scan tradingDays symbols dates) tradingDays) symbol
        (dates.filter fun day => key day = k) (cell symbol k)

theorem periodMatrix_aggregateBy (hmono : ∀ day day', day ≤ day' → key day ≤ key day')
    (hsorted : dates.Pairwise fun d d' => d < d') :
    PeriodMatrix key label scan tradingDays symbols dates
      (aggregateBy key label dates (dailyMatrix scan tradingDays symbols dates)) := by
  obtain ⟨periods, hincreasing, hperiods, heq⟩ :=
    aggregateBy_eq scan tradingDays symbols label hmono hsorted
  rw [heq]
  exact ⟨periods, hincreasing, hperiods, rfl, _, rfl,
    fun symbol hsymbol k _ => periodCell_aggregateStatus hsorted hsymbol _⟩

end Periods

/-- A week or a month is shown as missing exactly when a reported gap of the symbol covers one of
its trading days, as complete when all its trading days have data that is not in quarantine, and
every day of the range is in exactly one column. -/
theorem periods_show_the_gaps (scan : CoverageScan) (tradingDays : List ℤ) (symbols : List String)
    (startDate endDate : ℤ) :
    PeriodMatrix monday id scan tradingDays symbols (allDates startDate endDate)
        (aggregateWeekly (allDates startDate endDate)
          (dailyMatrix scan tradingDays symbols (allDates startDate endDate))) ∧
      PeriodMatrix monthOf monthStart scan tradingDays symbols (allDates startDate endDate)
        (aggregateMonthly (allDates startDate endDate)
          (dailyMatrix scan tradingDays symbols (allDates startDate endDate))) :=
  ⟨periodMatrix_aggregateBy (fun _ _ => le_of_monday_le) (pairwise_allDates startDate endDate),
    periodMatrix_aggregateBy (fun _ _ => le_of_monthOf_le) (pairwise_allDates startDate endDate)⟩

end TradingPlatform.Data
