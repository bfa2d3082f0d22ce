import TradingPlatform.Base.DecimalPlaces
import TradingPlatform.Base.Table
import Mathlib.Algebra.Order.Group.Int
import Mathlib.Order.Bounds.Basic

/-! # The daily performance series

Realized profit by trade date is walked day by day, from the first trade date to the end of
the range, which is first widened to cover every row. What the walk has booked so far is one
invariant: the sum and the peak of the days behind it. A date ends with December 9999, and the
walk steps once beyond its last day.
-/

namespace TradingPlatform.Gateway

open Base

/-- A `date` by its ordinal, up to the last of December 9999. -/
@[ext]
structure DateOrdinal where
  val : ℤ
  property : 1 ≤ val ∧ val ≤ 3652059

instance : LinearOrder DateOrdinal :=
  @LinearOrder.lift' DateOrdinal ℤ Int.instLinearOrder DateOrdinal.val fun _ _ => DateOrdinal.ext

def dateMax : DateOrdinal := ⟨3652059, by decide, by decide⟩

/-- `d + timedelta(days=1)`, where `none` is the overflow. -/
def DateOrdinal.tomorrow (d : DateOrdinal) : Option DateOrdinal :=
  if h : d.val + 1 ≤ 3652059 then some ⟨d.val + 1, by have := d.property; omega, h⟩ else none

/-- A row of the query. A trade date that is no date is `none`, as is a missing number. -/
structure PerformanceRow where
  tradeDate : Option DateOrdinal
  dailyRealizedPl : Option ℚ
  closingTradeCount : Option ℤ

structure DayData where
  date : DateOrdinal
  realizedPl : ℚ
  closingTradeCount : ℤ

structure DailyPnl where
  date : DateOrdinal
  realizedPl : ℚ
  cumulativeRealizedPl : ℚ
  peakEquity : ℚ
  drawdownPct : ℚ
  closingTradeCount : ℤ
  deriving DecidableEq

inductive DateError where
  | overflow
  deriving DecidableEq, Repr

def PerformanceRow.realizedPl (r : PerformanceRow) : ℚ := r.dailyRealizedPl.getD 0

def PerformanceRow.dayData (r : PerformanceRow) : Option DayData :=
  r.tradeDate.map fun d => ⟨d, r.realizedPl, r.closingTradeCount.getD 0⟩

def tradeDates (rows : List PerformanceRow) : List DateOrdinal :=
  rows.filterMap PerformanceRow.tradeDate

/-- The requested range, widened to the trade dates. -/
def expandedRange (rows : List PerformanceRow) (startDate endDate : DateOrdinal) :
    DateOrdinal × DateOrdinal :=
  match (tradeDates rows).min?, (tradeDates rows).max? with
  | some earliest, some latest =>
      (if earliest < startDate then earliest else startDate,
        if latest > endDate then latest else endDate)
  | _, _ => (startDate, endDate)

def rowsByDate (rows : List PerformanceRow) : Table DateOrdinal DayData DayData.date :=
  Table.ofList (rows.filterMap PerformanceRow.dayData)

/-- The sums of exact numbers stay exact, the percentage is rounded to 28 digits in each of its
steps. -/
def drawdownPct (cumulative peak : ℚ) : ℚ :=
  if peak ≠ 0 then
    toPrecision 28 (toPrecision 28 (toPrecision 28 (cumulative - peak) / toPrecision 28 |peak|)
      * 100)
  else 0

/-- What the loop carries. -/
structure DailyWalk where
  current : DateOrdinal
  cumulative : ℚ
  peak : Option ℚ
  maxDrawdown : ℚ
  daily : List DailyPnl

/-- The body of the loop up to the step to the next day. -/
def bookDay (byDate : Table DateOrdinal DayData DayData.date) (s : DailyWalk) : DailyWalk :=
  let dayData := (byDate.find? s.current).getD ⟨s.current, 0, 0⟩
  let cumulative := s.cumulative + dayData.realizedPl
  let seeded := s.peak.getD cumulative
  let peak := if cumulative > seeded then cumulative else seeded
  let drawdown := drawdownPct cumulative peak
  { current := s.current
    cumulative := cumulative
    peak := some peak
    maxDrawdown := if drawdown < s.maxDrawdown then drawdown else s.maxDrawdown
    daily := s.daily ++ [⟨s.current, dayData.realizedPl, cumulative, peak, drawdown,
      dayData.closingTradeCount⟩] }

theorem DateOrdinal.tomorrow_val {d d' : DateOrdinal} (h : d.tomorrow = some d') :
    d'.val = d.val + 1 := by
  unfold tomorrow at h
  split at h
  · simp only [Option.some.injEq] at h
    rw [← h]
  · simp at h

theorem DateOrdinal.tomorrow_eq_none {d : DateOrdinal} : d.tomorrow = none ↔ d = dateMax := by
  have hd := d.property
  unfold tomorrow dateMax
  rw [DateOrdinal.ext_iff]
  split <;> simp <;> omega

/-- The `while` loop. -/
def walkDays (byDate : Table DateOrdinal DayData DayData.date) (endDate : DateOrdinal)
    (s : DailyWalk) : Except DateError DailyWalk :=
  if s.current ≤ endDate then
    match _h : s.current.tomorrow with
    | none => .error .overflow
    | some next => walkDays byDate endDate { bookDay byDate s with current := next }
  else .ok s
termination_by (endDate.val + 1 - s.current.val).toNat
decreasing_by
  rename_i hle
  have hnext := DateOrdinal.tomorrow_val _h
  have hle' : s.current.val ≤ endDate.val := hle
  omega

def computeDailyPerformance (rows : List PerformanceRow) (startDate endDate : DateOrdinal) :
    Except DateError (List DailyPnl × ℚ × ℚ) :=
  if rows.isEmpty then .ok ([], 0, 0)
  else
    let range := expandedRange rows startDate endDate
    let byDate := rowsByDate rows
    let firstTradeDate := ((byDate.rows.map DayData.date).min?).getD range.1
    let start : DailyWalk := ⟨max range.1 firstTradeDate, 0, none, 0, []⟩
    match walkDays byDate range.2 start with
    | .error e => .error e
    | .ok s => .ok (s.daily, s.cumulative, s.maxDrawdown)

/-! ## What a series says -/

def plUpTo (rows : List PerformanceRow) (d : DateOrdinal) : ℚ :=
  ((rows.filter fun r => r.tradeDate.any (· ≤ d)).map PerformanceRow.realizedPl).sum

def plBefore (rows : List PerformanceRow) (d : DateOrdinal) : ℚ :=
  ((rows.filter fun r => r.tradeDate.any (· < d)).map PerformanceRow.realizedPl).sum

/-- The days from the first one on, without a gap, each with the sum of the rows up to it and
the greatest of these sums so far. -/
structure IsSeries (rows : List PerformanceRow) (first : DateOrdinal) (daily : List DailyPnl) :
    Prop where
  consecutive : ∀ i (h : i < daily.length), daily[i].date.val = first.val + i
  cumulative : ∀ e ∈ daily, e.cumulativeRealizedPl = plUpTo rows e.date
  peak : ∀ e ∈ daily,
    IsGreatest {c | ∃ e' ∈ daily, e'.date ≤ e.date ∧ e'.cumulativeRealizedPl = c} e.peakEquity
  drawdown : ∀ e ∈ daily, e.drawdownPct ≤ 0

/-- The series of all rows, to the later of the end date and the last trade date. -/
structure IsDailyPerformance (rows : List PerformanceRow) (endDate first last : DateOrdinal)
    (daily : List DailyPnl) (total maxDrawdown : ℚ) : Prop where
  isFirst : IsLeast {d | d ∈ tradeDates rows} first
  isLast : IsGreatest {d | d = endDate ∨ d ∈ tradeDates rows} last
  length : (daily.length : ℤ) = last.val - first.val + 1
  series : IsSeries rows first daily
  maxDrawdown : IsLeast {x | x = 0 ∨ ∃ e ∈ daily, e.drawdownPct = x} maxDrawdown
  total : total = (rows.map PerformanceRow.realizedPl).sum

variable {rows : List PerformanceRow} {first endDate : DateOrdinal} {daily : List DailyPnl}
  {s s' : DailyWalk}

theorem IsSeries.date_lt (h : IsSeries rows first daily) {e : DailyPnl} (he : e ∈ daily) :
    e.date.val < first.val + daily.length := by
  obtain ⟨i, hi, rfl⟩ := List.getElem_of_mem he
  have hdate := h.consecutive i hi
  omega

theorem setOf_append {f : DailyPnl → ℚ} (daily : List DailyPnl) (e : DailyPnl) :
    {c | ∃ e' ∈ daily ++ [e], f e' = c} = insert (f e) {c | ∃ e' ∈ daily, f e' = c} := by
  ext c
  simp only [List.mem_append, List.mem_singleton, Set.mem_ofPred_eq, Set.mem_insert_iff]
  constructor
  · rintro ⟨e', he | rfl, hc⟩
    · exact .inr ⟨e', he, hc⟩
    · exact .inl hc.symm
  · rintro (hc | ⟨e', he, hc⟩)
    · exact ⟨e, .inr rfl, hc.symm⟩
    · exact ⟨e', .inl he, hc⟩

/-- A day that follows the last one is appended with the greatest sum of all. -/
theorem IsSeries.append (h : IsSeries rows first daily) {e : DailyPnl}
    (hdate : e.date.val = first.val + daily.length)
    (hcumulative : e.cumulativeRealizedPl = plUpTo rows e.date)
    (hpeak : IsGreatest {c | ∃ e' ∈ daily ++ [e], e'.cumulativeRealizedPl = c} e.peakEquity)
    (hdrawdown : e.drawdownPct ≤ 0) : IsSeries rows first (daily ++ [e]) where
  consecutive := by
    intro i hi
    rw [List.getElem_append]
    split
    · rename_i hlt
      exact h.consecutive i hlt
    · rename_i hge
      have hlen : (daily ++ [e]).length = daily.length + 1 := by simp
      have hi' : i = daily.length := by omega
      simp only [List.getElem_singleton, hi']
      exact hdate
  cumulative := by
    intro e' he'
    rcases List.mem_append.mp he' with hold | hnew
    · exact h.cumulative e' hold
    · rw [List.mem_singleton.mp hnew]
      exact hcumulative
  peak := by
    intro e' he'
    rcases List.mem_append.mp he' with hold | hnew
    · -- the new day is later, so the sums up to an old day are the old ones
      have hset : {c | ∃ x ∈ daily ++ [e], x.date ≤ e'.date ∧ x.cumulativeRealizedPl = c} =
          {c | ∃ x ∈ daily, x.date ≤ e'.date ∧ x.cumulativeRealizedPl = c} := by
        ext c
        simp only [List.mem_append, List.mem_singleton, Set.mem_ofPred_eq]
        constructor
        · rintro ⟨x, hx | rfl, hle, hc⟩
          · exact ⟨x, hx, hle, hc⟩
          · have hlt := h.date_lt hold
            have hle' : x.date.val ≤ e'.date.val := hle
            omega
        · rintro ⟨x, hx, hle, hc⟩
          exact ⟨x, .inl hx, hle, hc⟩
      rw [hset]
      exact h.peak e' hold
    · have hset : {c | ∃ x ∈ daily ++ [e], x.date ≤ e'.date ∧ x.cumulativeRealizedPl = c} =
          {c | ∃ x ∈ daily ++ [e], x.cumulativeRealizedPl = c} := by
        ext c
        constructor
        · rintro ⟨x, hx, -, hc⟩
          exact ⟨x, hx, hc⟩
        · rintro ⟨x, hx, hc⟩
          refine ⟨x, hx, ?_, hc⟩
          rw [List.mem_singleton.mp hnew]
          show x.date.val ≤ e.date.val
          rcases List.mem_append.mp hx with hx' | hx'
          · have hlt := h.date_lt hx'
            omega
          · rw [List.mem_singleton.mp hx']
      rw [hset, List.mem_singleton.mp hnew]
      exact hpeak
  drawdown := by
    intro e' he'
    rcases List.mem_append.mp he' with hold | hnew
    · exact h.drawdown e' hold
    · rw [List.mem_singleton.mp hnew]
      exact hdrawdown

/-! ## The sums by date -/

theorem map_dayData_date (rows : List PerformanceRow) :
    (rows.filterMap PerformanceRow.dayData).map DayData.date = tradeDates rows := by
  induction rows with
  | nil => rfl
  | cons r rows ih =>
      cases hdate : r.tradeDate with
      | none => simpa [tradeDates, PerformanceRow.dayData, hdate] using ih
      | some d => simpa [tradeDates, PerformanceRow.dayData, hdate] using ih

theorem rowsByDate_rows (hdistinct : (tradeDates rows).Nodup) :
    (rowsByDate rows).rows = rows.filterMap PerformanceRow.dayData := by
  apply Table.ofList_rows_of_nodup
  rwa [map_dayData_date]

/-- The sum up to a day is the sum before it and what the day's row says. -/
theorem plUpTo_eq (hdistinct : (tradeDates rows).Nodup) (d : DateOrdinal) :
    plUpTo rows d = plBefore rows d +
      (((rowsByDate rows).find? d).getD ⟨d, 0, 0⟩).realizedPl := by
  rw [Table.find?, rowsByDate_rows hdistinct]
  unfold plUpTo plBefore
  induction rows with
  | nil => simp
  | cons r rows ih =>
      cases hdate : r.tradeDate with
      | none =>
          have htail : (tradeDates rows).Nodup := by simpa [tradeDates, hdate] using hdistinct
          simpa [PerformanceRow.dayData, hdate] using ih htail
      | some t =>
          have hnodup : (t :: tradeDates rows).Nodup := by
            simpa [tradeDates, hdate] using hdistinct
          obtain ⟨hfresh, htail⟩ := List.nodup_cons.mp hnodup
          have ih := ih htail
          rcases lt_trichotomy t d with hlt | heq | hgt
          · have hne : t ≠ d := ne_of_lt hlt
            simp [PerformanceRow.dayData, hdate, hlt, hlt.le, hne] at ih ⊢
            linarith
          · have hnone : (rows.filterMap PerformanceRow.dayData).find?
                (fun x => decide (x.date = d)) = none := by
              rw [List.find?_eq_none]
              intro x hx hxd
              apply hfresh
              rw [← map_dayData_date, heq, ← of_decide_eq_true hxd]
              exact List.mem_map_of_mem hx
            rw [hnone] at ih
            simp [PerformanceRow.dayData, hdate, heq] at ih ⊢
            linarith
          · have hne : t ≠ d := ne_of_gt hgt
            simp [PerformanceRow.dayData, hdate, not_lt_of_gt hgt, not_le_of_gt hgt, hne] at ih ⊢
            linarith

theorem plBefore_tomorrow {d d' : DateOrdinal} (h : d.tomorrow = some d') :
    plBefore rows d' = plUpTo rows d := by
  have hval := DateOrdinal.tomorrow_val h
  unfold plBefore plUpTo
  have hiff : ∀ t : DateOrdinal, t < d' ↔ t ≤ d := by
    intro t
    show t.val < d'.val ↔ t.val ≤ d.val
    omega
  simp only [hiff]

theorem drawdownPct_nonpos {cumulative peak : ℚ} (h : cumulative ≤ peak) :
    drawdownPct cumulative peak ≤ 0 := by
  unfold drawdownPct
  split
  · have hdiff : toPrecision 28 (cumulative - peak) ≤ 0 :=
      toPrecision_nonpos (sub_nonpos.mpr h)
    have habs : 0 ≤ toPrecision 28 |peak| := toPrecision_nonneg (abs_nonneg peak)
    have hquot : toPrecision 28 (toPrecision 28 (cumulative - peak) / toPrecision 28 |peak|) ≤ 0 :=
      toPrecision_nonpos (div_nonpos_of_nonpos_of_nonneg hdiff habs)
    exact toPrecision_nonpos (mul_nonpos_of_nonpos_of_nonneg hquot (by norm_num))
  · exact le_refl 0

/-! ## The walk -/

/-- The days before the current one are booked. -/
structure WalkedTo (rows : List PerformanceRow) (first : DateOrdinal) (s : DailyWalk) : Prop where
  series : IsSeries rows first s.daily
  current : s.current.val = first.val + s.daily.length
  cumulative : s.cumulative = plBefore rows s.current
  unseeded : s.peak = none → s.daily = []
  peak : ∀ p, s.peak = some p → IsGreatest {c | ∃ e ∈ s.daily, e.cumulativeRealizedPl = c} p
  maxDrawdown : IsLeast {x | x = 0 ∨ ∃ e ∈ s.daily, e.drawdownPct = x} s.maxDrawdown

/-- The peak that a day is booked with. -/
theorem isGreatest_peak (h : WalkedTo rows first s) (e : DailyPnl) :
    IsGreatest {c | ∃ e' ∈ s.daily ++ [e], e'.cumulativeRealizedPl = c}
      (if e.cumulativeRealizedPl > s.peak.getD e.cumulativeRealizedPl then
        e.cumulativeRealizedPl else s.peak.getD e.cumulativeRealizedPl) := by
  rw [setOf_append]
  cases hpeak : s.peak with
  | none =>
      rw [h.unseeded hpeak]
      simp [isGreatest_singleton]
  | some p =>
      have hinsert := (h.peak p hpeak).insert e.cumulativeRealizedPl
      have hmax : max e.cumulativeRealizedPl p =
          if e.cumulativeRealizedPl > p then e.cumulativeRealizedPl else p := by
        split
        · rename_i hgt
          exact max_eq_left (le_of_lt hgt)
        · rename_i hle
          exact max_eq_right (not_lt.mp hle)
      rw [hmax] at hinsert
      exact hinsert

theorem isLeast_maxDrawdown {daily : List DailyPnl} {m : ℚ}
    (h : IsLeast {x | x = 0 ∨ ∃ e ∈ daily, e.drawdownPct = x} m) (e : DailyPnl) :
    IsLeast {x | x = 0 ∨ ∃ e' ∈ daily ++ [e], e'.drawdownPct = x}
      (if e.drawdownPct < m then e.drawdownPct else m) := by
  have hset : {x | x = 0 ∨ ∃ e' ∈ daily ++ [e], e'.drawdownPct = x} =
      insert e.drawdownPct {x | x = 0 ∨ ∃ e' ∈ daily, e'.drawdownPct = x} := by
    have happend := setOf_append (f := DailyPnl.drawdownPct) daily e
    ext x
    have hx : (∃ e' ∈ daily ++ [e], e'.drawdownPct = x) ↔
        x = e.drawdownPct ∨ ∃ e' ∈ daily, e'.drawdownPct = x := Set.ext_iff.mp happend x
    rw [Set.mem_insert_iff, Set.mem_ofPred_eq, Set.mem_ofPred_eq, hx]
    exact or_left_comm
  have hmin : min e.drawdownPct m = if e.drawdownPct < m then e.drawdownPct else m := by
    split
    · rename_i hlt
      exact min_eq_left (le_of_lt hlt)
    · rename_i hge
      exact min_eq_right (not_lt.mp hge)
  rw [hset, ← hmin]
  exact h.insert e.drawdownPct

/-- A day and the step to the next one. -/
theorem bookDay_walked (hdistinct : (tradeDates rows).Nodup) (h : WalkedTo rows first s)
    {next : DateOrdinal} (hnext : s.current.tomorrow = some next) :
    WalkedTo rows first { bookDay (rowsByDate rows) s with current := next } := by
  have hsum := plUpTo_eq hdistinct s.current
  rw [← h.cumulative] at hsum
  have hval := DateOrdinal.tomorrow_val hnext
  have hcurrent := h.current
  let day := ((rowsByDate rows).find? s.current).getD ⟨s.current, 0, 0⟩
  let cumulative := s.cumulative + day.realizedPl
  let peak := if cumulative > s.peak.getD cumulative then cumulative else s.peak.getD cumulative
  let e : DailyPnl := ⟨s.current, day.realizedPl, cumulative, peak, drawdownPct cumulative peak,
    day.closingTradeCount⟩
  have hgreatest : IsGreatest {c | ∃ e' ∈ s.daily ++ [e], e'.cumulativeRealizedPl = c} peak :=
    isGreatest_peak h e
  have hle : cumulative ≤ peak := hgreatest.2 ⟨e, by simp, rfl⟩
  constructor
  case series =>
    exact h.series.append hcurrent hsum.symm hgreatest (drawdownPct_nonpos hle)
  case current =>
    show next.val = first.val + ((s.daily ++ [e]).length : ℤ)
    rw [List.length_append, List.length_singleton]
    push_cast
    omega
  case cumulative =>
    show cumulative = plBefore rows next
    rw [plBefore_tomorrow hnext]
    exact hsum.symm
  case unseeded => exact fun hnone => absurd hnone (Option.some_ne_none peak)
  case peak =>
    intro p hp
    rw [← Option.some.inj hp]
    exact hgreatest
  case maxDrawdown => exact isLeast_maxDrawdown h.maxDrawdown e

/-- The loop stops behind the end date, or fails on the last day there is. -/
theorem walkDays_spec (hdistinct : (tradeDates rows).Nodup) (h : WalkedTo rows first s)
    (hle : s.current.val ≤ endDate.val + 1) :
    (endDate ≠ dateMax → ∃ s', walkDays (rowsByDate rows) endDate s = .ok s' ∧
      WalkedTo rows first s' ∧ s'.current.val = endDate.val + 1) ∧
    (endDate = dateMax → walkDays (rowsByDate rows) endDate s = .error .overflow) := by
  induction s using walkDays.induct (rowsByDate rows) endDate with
  | case1 s hcurrent hnone =>
      have hlast := DateOrdinal.tomorrow_eq_none.mp hnone
      have hmax : endDate = dateMax := by
        have hend := endDate.property
        have hle' : s.current.val ≤ endDate.val := hcurrent
        rw [hlast] at hle'
        apply DateOrdinal.ext
        have : (dateMax : DateOrdinal).val = 3652059 := rfl
        omega
      refine ⟨fun hne => absurd hmax hne, fun _ => ?_⟩
      rw [walkDays, if_pos hcurrent]
      split
      · rfl
      · rename_i next hsome
        rw [hnone] at hsome
        exact absurd hsome (by simp)
  | case2 s hcurrent next hnext ih =>
      have hval := DateOrdinal.tomorrow_val hnext
      have hle' : s.current.val ≤ endDate.val := hcurrent
      have hrest := ih (bookDay_walked hdistinct h hnext) (by dsimp only; omega)
      have hstep : walkDays (rowsByDate rows) endDate s =
          walkDays (rowsByDate rows) endDate
            { bookDay (rowsByDate rows) s with current := next } := by
        conv_lhs => rw [walkDays, if_pos hcurrent]
        split
        · rename_i hnone
          rw [hnone] at hnext
          exact absurd hnext (by simp)
        · rename_i next' hsome
          rw [hnext] at hsome
          rw [Option.some.inj hsome]
      rw [hstep]
      exact hrest
  | case3 s hcurrent =>
      have hgt : endDate.val < s.current.val := not_le.mp hcurrent
      constructor
      · intro _
        refine ⟨s, ?_, h, by omega⟩
        rw [walkDays, if_neg hcurrent]
      · intro hmax
        have hcur := s.current.property
        rw [hmax] at hgt
        have : (dateMax : DateOrdinal).val = 3652059 := rfl
        omega

/-! ## The whole series -/

theorem min?_tradeDates {earliest : DateOrdinal} (h : (tradeDates rows).min? = some earliest) :
    IsLeast {d | d ∈ tradeDates rows} earliest :=
  List.min?_eq_some_iff.mp h

theorem max?_tradeDates {latest : DateOrdinal} (h : (tradeDates rows).max? = some latest) :
    IsGreatest {d | d ∈ tradeDates rows} latest :=
  List.max?_eq_some_iff.mp h

/-- The walk starts on the first trade date, before which nothing is booked. -/
theorem walkedTo_start (h : IsLeast {d | d ∈ tradeDates rows} first) :
    WalkedTo rows first ⟨first, 0, none, 0, []⟩ where
  series := ⟨by simp, by simp, by simp, by simp⟩
  current := by simp
  cumulative := by
    have hnil : (rows.filter fun r => r.tradeDate.any (· < first)) = [] := by
      apply List.filter_eq_nil_iff.mpr
      intro r hr
      cases hdate : r.tradeDate with
      | none => simp
      | some d =>
          have hmem : d ∈ tradeDates rows := List.mem_filterMap.mpr ⟨r, hr, hdate⟩
          have hle : first ≤ d := h.2 hmem
          simpa using hle
    show 0 = plBefore rows first
    unfold plBefore
    rw [hnil]
    rfl
  unseeded := fun _ => rfl
  peak := by simp
  maxDrawdown := by simp [isLeast_singleton]

/-- Behind the last trade date all rows are booked. -/
theorem plBefore_of_all (hdated : ∀ r ∈ rows, r.tradeDate.isSome) {d : DateOrdinal}
    (h : ∀ t ∈ tradeDates rows, t < d) :
    plBefore rows d = (rows.map PerformanceRow.realizedPl).sum := by
  have hall : (rows.filter fun r => r.tradeDate.any (· < d)) = rows := by
    apply List.filter_eq_self.mpr
    intro r hr
    obtain ⟨t, ht⟩ := Option.isSome_iff_exists.mp (hdated r hr)
    have hmem : t ∈ tradeDates rows := List.mem_filterMap.mpr ⟨r, hr, ht⟩
    simpa [ht] using h t hmem
  unfold plBefore
  rw [hall]

/-- The walk runs from the first trade date to the later of the end date and the last one. -/
theorem computeDailyPerformance_eq (hrows : rows ≠ [])
    (hdated : ∀ r ∈ rows, r.tradeDate.isSome) (hdistinct : (tradeDates rows).Nodup)
    (startDate endDate : DateOrdinal) :
    ∃ first last, IsLeast {d | d ∈ tradeDates rows} first ∧
      IsGreatest {d | d = endDate ∨ d ∈ tradeDates rows} last ∧
      computeDailyPerformance rows startDate endDate =
        (walkDays (rowsByDate rows) last ⟨first, 0, none, 0, []⟩).map
          fun s => (s.daily, s.cumulative, s.maxDrawdown) := by
  have hne : tradeDates rows ≠ [] := by
    obtain ⟨r, hr⟩ := List.exists_mem_of_ne_nil rows hrows
    obtain ⟨t, ht⟩ := Option.isSome_iff_exists.mp (hdated r hr)
    exact List.ne_nil_of_mem (List.mem_filterMap.mpr ⟨r, hr, ht⟩)
  have hsomeMin : (tradeDates rows).min?.isSome := List.isSome_min?_of_ne_nil hne
  have hsomeMax : (tradeDates rows).max?.isSome := List.isSome_max?_of_ne_nil hne
  obtain ⟨earliest, hmin⟩ := Option.isSome_iff_exists.mp hsomeMin
  obtain ⟨latest, hmax⟩ := Option.isSome_iff_exists.mp hsomeMax
  have hearliest := min?_tradeDates hmin
  have hlatest := max?_tradeDates hmax
  have hset : {d | d = endDate ∨ d ∈ tradeDates rows} =
      insert endDate {d | d ∈ tradeDates rows} := rfl
  have hlast : max endDate latest = if latest > endDate then latest else endDate := by
    split
    · rename_i hgt
      exact max_eq_right (le_of_lt hgt)
    · rename_i hle
      exact max_eq_left (not_lt.mp hle)
  have hfirst : max (if earliest < startDate then earliest else startDate) earliest =
      earliest := by
    split
    · exact max_self earliest
    · rename_i hge
      exact max_eq_right (not_lt.mp hge)
  refine ⟨earliest, max endDate latest, hearliest, ?_, ?_⟩
  · rw [hset]
    exact hlatest.insert endDate
  · have hdates : ((rowsByDate rows).rows.map DayData.date).min? = some earliest := by
      rw [rowsByDate_rows hdistinct, map_dayData_date, hmin]
    unfold computeDailyPerformance
    simp only [List.isEmpty_iff, hrows, if_false, expandedRange, hmin, hmax, hdates,
      Option.getD_some, hfirst, hlast]
    split <;> simp_all [Except.map]

theorem nodup_tradeDates (h : (rows.map PerformanceRow.tradeDate).Nodup) :
    (tradeDates rows).Nodup := by
  have hid : tradeDates rows = (rows.map PerformanceRow.tradeDate).filterMap id := by
    simp [tradeDates, List.filterMap_map]
  rw [hid]
  apply h.filterMap
  intro t t' d hd hd'
  rw [id_eq, Option.mem_def] at hd hd'
  rw [hd, hd']

theorem last_eq_dateMax {last : DateOrdinal}
    (h : IsGreatest {d | d = endDate ∨ d ∈ tradeDates rows} last) :
    last = dateMax ↔ endDate = dateMax ∨ dateMax ∈ tradeDates rows := by
  constructor
  · intro hlast
    rw [← hlast]
    rcases h.1 with hend | hmem
    · exact .inl hend.symm
    · exact .inr hmem
  · intro hmax
    have hle : dateMax ≤ last := h.2 (hmax.imp Eq.symm id)
    apply le_antisymm _ hle
    exact last.property.2

theorem computeDailyPerformance_overflow (hrows : rows ≠ [])
    (hdated : ∀ r ∈ rows, r.tradeDate.isSome) (hdistinct : (tradeDates rows).Nodup)
    (startDate : DateOrdinal) (hmax : endDate = dateMax ∨ dateMax ∈ tradeDates rows) :
    computeDailyPerformance rows startDate endDate = .error .overflow := by
  obtain ⟨first, last, hfirst, hlast, hcompute⟩ :=
    computeDailyPerformance_eq hrows hdated hdistinct startDate endDate
  have hbegin : first.val ≤ last.val := hlast.2 (.inr hfirst.1)
  have hwalk := walkDays_spec hdistinct (walkedTo_start hfirst)
    (show first.val ≤ last.val + 1 by omega)
  rw [hcompute, hwalk.2 ((last_eq_dateMax hlast).mpr hmax)]
  rfl

/-- A gain on the second of January 2024 and a loss on the fourth. -/
def twoTrades : List PerformanceRow :=
  [⟨some ⟨738887, by decide⟩, some 100, some 2⟩, ⟨some ⟨738889, by decide⟩, some (-50), some 1⟩]

end TradingPlatform.Gateway
