import Mathlib.Algebra.BigOperators.Group.List.Basic
import Mathlib.Algebra.Field.Rat
import Mathlib.Algebra.Ring.Basic
import Mathlib.Data.List.Perm.Subperm
import Mathlib.Data.PNat.Basic
import Mathlib.Data.Prod.Lex
import TradingPlatform.Base.DatedFrames
import TradingPlatform.Base.GroupedSums
import TradingPlatform.Base.Months

/-! # Point in time data of the backtester

Prices and fundamentals are read from a locked snapshot and cut off at the date that is asked
for. Forward returns are compounded over the next trading days, for one date, or for all dates
of a horizon at once.
-/

namespace TradingPlatform.Alpha

open Base

/-! ## The snapshot -/

/-- A row of the CRSP frame; `columns` are those that only an alpha reads. -/
structure PriceRow (K χ : Type) where
  permno : ℤ
  date : ℤ
  ret : Option K
  columns : χ
  deriving DecidableEq, Repr

structure CrspSnapshot (K χ : Type) where
  dateRangeEnd : ℤ
  prices : List (PriceRow K χ)

structure ForwardReturnRow (K : Type) where
  permno : ℤ
  date : ℤ
  return_ : K
  deriving DecidableEq, Repr

inductive AlphaError
  | pitViolation (message : String)
  | missingForwardReturn (message : String)
  | keyError (key : String)
  deriving DecidableEq, Repr

def priceKey {K χ : Type} (r : PriceRow K χ) : ℤ ×ₗ ℤ := toLex (r.permno, r.date)

variable {K χ : Type}

def getPitPrices (crsp : Option (CrspSnapshot K χ)) (asOfDate : ℤ) :
    Except AlphaError (List (PriceRow K χ)) :=
  match crsp with
  | none => .error (.pitViolation "CRSP not in snapshot")
  | some crsp =>
    if crsp.dateRangeEnd < asOfDate then
      .error (.pitViolation ("Requested " ++ isoDate asOfDate ++ " but snapshot ends " ++
        isoDate crsp.dateRangeEnd))
    else .ok (onDates PriceRow.date (· ≤ asOfDate) crsp.prices)

/-- `select("date").unique().sort("date")` -/
def tradingDays (prices : List (PriceRow K χ)) : List ℤ :=
  sortByKey id (prices.map PriceRow.date).dedup

/-! ## Forward returns -/

section Returns

variable [CommRing K]

def compound (rets : List K) : K := (rets.map fun ret => ret + 1).prod - 1

/-- The compounded returns of the securities with a return on each of the days. -/
def compoundReturns (forwardData : List (PriceRow K χ)) (horizon : ℕ+) (asOfDate : ℤ) :
    List (ForwardReturnRow K) :=
  ((groupKeys PriceRow.permno forwardData).filter fun permno =>
      ((withKey PriceRow.permno forwardData permno).filterMap PriceRow.ret).length = horizon).map
    fun permno =>
      ⟨permno, asOfDate,
        compound ((withKey PriceRow.permno forwardData permno).filterMap PriceRow.ret)⟩

def getPitForwardReturns (crsp : Option (CrspSnapshot K χ)) (asOfDate : ℤ) (horizon : ℕ+) :
    Except AlphaError (List (ForwardReturnRow K)) :=
  match crsp with
  | none => .error (.pitViolation "CRSP not in snapshot")
  | some snapshot => do
    let prices ← getPitPrices crsp snapshot.dateRangeEnd
    let futureDates :=
      (tradingDays (onDates PriceRow.date (asOfDate < ·) prices)).take (horizon + 5)
    match futureDates[(horizon : ℕ) - 1]? with
    | none =>
      .error (.missingForwardReturn ("Only " ++ toString futureDates.length ++
        " trading days after " ++ isoDate asOfDate ++ ", need at least " ++
        toString (horizon : ℕ) ++ ". Reduce backtest end_date or horizon."))
    | some targetDate =>
      .ok (compoundReturns
        (onDates PriceRow.date (fun d => asOfDate < d && d ≤ targetDate) prices) horizon asOfDate)

/-- Each date is paired with the one that comes `horizon` dates later. -/
def computeHorizonReturns (crsp : Option (CrspSnapshot K χ)) (baseDate : ℤ) (horizon : ℕ+) :
    Except AlphaError (List (ForwardReturnRow K)) :=
  match crsp with
  | none => .error (.keyError "crsp")
  | some snapshot => do
    let prices ← getPitPrices crsp snapshot.dateRangeEnd
    let allDates := tradingDays (onDates PriceRow.date (baseDate ≤ ·) prices)
    if allDates.length ≤ horizon then
      .error (.missingForwardReturn ("Only " ++ toString allDates.length ++
        " trading days from " ++ isoDate baseDate ++ ", need at least " ++
        toString ((horizon : ℕ) + 1) ++ " for horizon " ++ toString (horizon : ℕ) ++ "."))
    else
      .ok ((allDates.zip (allDates.drop horizon)).flatMap fun q =>
        compoundReturns (onDates PriceRow.date (fun d => q.1 < d && d ≤ q.2) prices) horizon q.1)

/-! ## What the days give -/

/-- The frame up to the end of the snapshot. -/
def CrspSnapshot.visible (crsp : CrspSnapshot K χ) : List (PriceRow K χ) :=
  onDates PriceRow.date (· ≤ crsp.dateRangeEnd) crsp.prices

/-- The return of a security on a day, if there is one that is not null. -/
def returnOn (prices : List (PriceRow K χ)) (permno d : ℤ) : Option K :=
  (lastRow priceKey prices (toLex (permno, d))).bind PriceRow.ret

def laterDays (prices : List (PriceRow K χ)) (d : ℤ) : List ℤ :=
  (tradingDays prices).filter (d < ·)

/-- The security has a return on each of the next days, and `row` compounds them. -/
def Compounds (prices : List (PriceRow K χ)) (horizon : ℕ+) (d : ℤ)
    (row : ForwardReturnRow K) : Prop :=
  row.date = d ∧ ∃ rets : List K,
    ((laterDays prices d).take horizon).map (returnOn prices row.permno) = rets.map some ∧
      row.return_ = compound rets

variable {prices : List (PriceRow K χ)} {crsp : CrspSnapshot K χ} {horizon : ℕ+}
variable {permno d target baseDate : ℤ}

omit [CommRing K] in
theorem tradingDays_sorted (prices : List (PriceRow K χ)) :
    (tradingDays prices).Pairwise (· < ·) := by
  have hnodup : ((prices.map PriceRow.date).dedup.map id).Nodup := by
    rw [List.map_id]
    exact List.nodup_dedup _
  exact strictly_sortByKey hnodup

omit [CommRing K] in
theorem mem_tradingDays : d ∈ tradingDays prices ↔ ∃ r ∈ prices, r.date = d := by
  rw [tradingDays, mem_sortByKey, List.mem_dedup, List.mem_map]

omit [CommRing K] in
/-- The calendar of some dates is that part of the calendar. -/
theorem tradingDays_onDates (p : ℤ → Bool) (prices : List (PriceRow K χ)) :
    tradingDays (onDates PriceRow.date p prices) = (tradingDays prices).filter p := by
  have hfiltered := (tradingDays_sorted prices).filter p
  have hsorted := tradingDays_sorted (onDates PriceRow.date p prices)
  apply hsorted.eq_of_mem_iff hfiltered
  intro d
  rw [mem_tradingDays, List.mem_filter, mem_tradingDays]
  constructor
  · rintro ⟨r, hr, rfl⟩
    exact ⟨⟨r, (mem_onDates.mp hr).1, rfl⟩, (mem_onDates.mp hr).2⟩
  · rintro ⟨⟨r, hr, rfl⟩, hp⟩
    exact ⟨r, mem_onDates.mpr ⟨hr, hp⟩, rfl⟩

omit [CommRing K] in
/-- The trading days after `d` and up to the `n + 1`st of them. -/
theorem tradingDays_window {n : ℕ} (htarget : (laterDays prices d)[n]? = some target) :
    (tradingDays prices).filter (fun d' => d < d' && d' ≤ target) =
      (laterDays prices d).take (n + 1) := by
  have hsorted : (laterDays prices d).Pairwise (· < ·) := (tradingDays_sorted prices).filter _
  rw [← filter_le_eq_take hsorted htarget, laterDays, List.filter_filter]
  apply List.filter_congr
  intro d' _
  exact Bool.and_comm _ _

omit [CommRing K] in
/-- The rows of a security in a window are those of the days of the window. -/
theorem withKey_permno_perm (hunique : (prices.map priceKey).Nodup) (permno : ℤ) (p : ℤ → Bool) :
    (withKey PriceRow.permno (onDates PriceRow.date p prices) permno).Perm
      (((tradingDays prices).filter p).filterMap fun d =>
        lastRow priceKey prices (toLex (permno, d))) := by
  have hrow : ∀ {d : ℤ} {r : PriceRow K χ}, lastRow priceKey prices (toLex (permno, d)) = some r ↔
      r ∈ prices ∧ r.permno = permno ∧ r.date = d := by
    intro d r
    constructor
    · intro h
      obtain ⟨hmem, hkey⟩ := mem_of_lastRow h
      simp only [priceKey, EmbeddingLike.apply_eq_iff_eq, Prod.mk.injEq] at hkey
      exact ⟨hmem, hkey⟩
    · rintro ⟨hmem, rfl, rfl⟩
      exact lastRow_of_nodup hunique hmem
  have hrows : prices.Nodup := List.Nodup.of_map _ hunique
  have hdays : (tradingDays prices).Nodup := (tradingDays_sorted prices).imp ne_of_lt
  have hgroup : (withKey PriceRow.permno (onDates PriceRow.date p prices) permno).Nodup :=
    (hrows.filter _).filter _
  have hfound : (((tradingDays prices).filter p).filterMap fun d =>
      lastRow priceKey prices (toLex (permno, d))).Nodup := by
    apply (hdays.filter p).filterMap
    intro d d' r hd hd'
    rw [Option.mem_def] at hd hd'
    rw [← (hrow.mp hd).2.2, (hrow.mp hd').2.2]
  rw [List.perm_ext_iff_of_nodup hgroup hfound]
  intro r
  rw [withKey, List.mem_filter, mem_onDates, List.mem_filterMap, decide_eq_true_eq]
  constructor
  · rintro ⟨⟨hmem, hp⟩, hpermno⟩
    exact ⟨r.date, List.mem_filter.mpr ⟨mem_tradingDays.mpr ⟨r, hmem, rfl⟩, hp⟩,
      hrow.mpr ⟨hmem, hpermno, rfl⟩⟩
  · rintro ⟨d, hd, hlast⟩
    obtain ⟨hmem, hpermno, rfl⟩ := hrow.mp hlast
    exact ⟨⟨hmem, (List.mem_filter.mp hd).2⟩, hpermno⟩

omit [CommRing K] in
theorem rets_perm (hunique : (prices.map priceKey).Nodup) (permno : ℤ) (p : ℤ → Bool) :
    ((withKey PriceRow.permno (onDates PriceRow.date p prices) permno).filterMap
        PriceRow.ret).Perm
      (((tradingDays prices).filter p).filterMap (returnOn prices permno)) := by
  have hperm := (withKey_permno_perm hunique permno p).filterMap PriceRow.ret
  rw [List.filterMap_filterMap] at hperm
  exact hperm

omit [CommRing K] in
theorem map_eq_map_some_iff {α : Type*} {f : α → Option K} {days : List α} {rets : List K} :
    days.map f = rets.map some ↔
      (days.filterMap f).length = days.length ∧ days.filterMap f = rets := by
  induction days generalizing rets with
  | nil => cases rets <;> simp
  | cons d days ih =>
      have hle := List.length_filterMap_le f days
      cases hd : f d with
      | none =>
          simp only [List.map_cons, hd, List.filterMap_cons, List.length_cons]
          constructor
          · intro h
            cases rets <;> simp at h
          · intro h
            omega
      | some x =>
          cases rets with
          | nil => simp [hd]
          | cons ret rets =>
              simp only [List.map_cons, hd, List.filterMap_cons, List.length_cons,
                List.cons.injEq, Option.some.injEq, ih, Nat.succ_inj]
              tauto

theorem mem_compoundReturns {forwardData : List (PriceRow K χ)} {row : ForwardReturnRow K} :
    row ∈ compoundReturns forwardData horizon d ↔
      ((withKey PriceRow.permno forwardData row.permno).filterMap PriceRow.ret).length = horizon ∧
        row.date = d ∧ row.return_ =
          compound ((withKey PriceRow.permno forwardData row.permno).filterMap PriceRow.ret) := by
  obtain ⟨permno, date, return_⟩ := row
  simp only [compoundReturns, List.mem_map, List.mem_filter, decide_eq_true_eq,
    ForwardReturnRow.mk.injEq]
  constructor
  · rintro ⟨_, ⟨-, hlength⟩, rfl, rfl, rfl⟩
    exact ⟨hlength, rfl, rfl⟩
  · rintro ⟨hlength, rfl, rfl⟩
    refine ⟨permno, ⟨?_, hlength⟩, rfl, rfl, rfl⟩
    rw [mem_groupKeys]
    have hpos : 0 < ((withKey PriceRow.permno forwardData permno).filterMap
        PriceRow.ret).length := hlength ▸ horizon.pos
    obtain ⟨ret, hret⟩ := List.exists_mem_of_length_pos hpos
    obtain ⟨r, hr, -⟩ := List.mem_filterMap.mp hret
    have hgroup := List.mem_filter.mp hr
    exact ⟨r, hgroup.1, of_decide_eq_true hgroup.2⟩

theorem compound_perm {rets rets' : List K} (h : rets.Perm rets') :
    compound rets = compound rets' := by
  rw [compound, compound, (h.map _).prod_eq]

/-- A row is there just if the security has a return on each of the days. -/
theorem mem_compoundReturns_window (hunique : (prices.map priceKey).Nodup)
    (htarget : (laterDays prices d)[(horizon : ℕ) - 1]? = some target)
    {row : ForwardReturnRow K} :
    row ∈ compoundReturns
        (onDates PriceRow.date (fun d' => d < d' && d' ≤ target) prices) horizon d ↔
      Compounds prices horizon d row := by
  have hperm := rets_perm hunique row.permno fun d' => d < d' && d' ≤ target
  have hsucc : (horizon : ℕ) - 1 + 1 = horizon := Nat.sub_add_cancel horizon.pos
  rw [tradingDays_window htarget, hsucc] at hperm
  have hlater : (horizon : ℕ) ≤ (laterDays prices d).length := by
    have hlt := (List.getElem?_eq_some_iff.mp htarget).1
    omega
  have hlength : ((laterDays prices d).take horizon).length = horizon := by simp [hlater]
  rw [mem_compoundReturns, hperm.length_eq, compound_perm hperm]
  unfold Compounds
  simp only [map_eq_map_some_iff, hlength]
  constructor
  · rintro ⟨hcount, hdate, hreturn⟩
    exact ⟨hdate, _, ⟨hcount, rfl⟩, hreturn⟩
  · rintro ⟨hdate, _, ⟨hcount, rfl⟩, hreturn⟩
    exact ⟨hcount, hdate, hreturn⟩

/-! ## The two computations -/

omit [CommRing K] in
theorem getPitPrices_end (crsp : CrspSnapshot K χ) :
    getPitPrices (some crsp) crsp.dateRangeEnd = .ok crsp.visible := by
  simp [getPitPrices, CrspSnapshot.visible]

/-- What one date gets from its target date, if it has one. -/
def rowsFrom (prices : List (PriceRow K χ)) (horizon : ℕ+) (d : ℤ) : List (ForwardReturnRow K) :=
  (laterDays prices d)[(horizon : ℕ) - 1]?.elim [] fun target =>
    compoundReturns (onDates PriceRow.date (fun d' => d < d' && d' ≤ target) prices) horizon d

omit [CommRing K] in
theorem futureDates_getElem? (prices : List (PriceRow K χ)) (horizon : ℕ+) (d : ℤ) :
    ((tradingDays (onDates PriceRow.date (d < ·) prices)).take (horizon + 5))[(horizon : ℕ) - 1]? =
      (laterDays prices d)[(horizon : ℕ) - 1]? := by
  rw [tradingDays_onDates, List.getElem?_take, if_pos (by omega), laterDays]

/-- Forward returns of one date, which fail where there are not enough later days. -/
theorem getPitForwardReturns_spec (crsp : CrspSnapshot K χ) (d : ℤ) (horizon : ℕ+) :
    ((horizon : ℕ) ≤ (laterDays crsp.visible d).length →
        getPitForwardReturns (some crsp) d horizon = .ok (rowsFrom crsp.visible horizon d)) ∧
      ((laterDays crsp.visible d).length < horizon → ∃ message,
        getPitForwardReturns (some crsp) d horizon = .error (.missingForwardReturn message)) := by
  have hpos := horizon.pos
  unfold getPitForwardReturns rowsFrom
  simp only [getPitPrices_end, bind, Except.bind, futureDates_getElem?]
  constructor
  · intro hlater
    have htarget := List.getElem?_eq_getElem (l := laterDays crsp.visible d)
      (i := (horizon : ℕ) - 1) (by omega)
    rw [htarget]
    rfl
  · intro hshort
    rw [List.getElem?_eq_none (by omega)]
    exact ⟨_, rfl⟩

/-- The returns of a horizon, date by date. -/
theorem flatMap_rowsFrom (prices : List (PriceRow K χ)) (baseDate : ℤ) (horizon : ℕ+) :
    ((tradingDays (onDates PriceRow.date (baseDate ≤ ·) prices)).zip
        ((tradingDays (onDates PriceRow.date (baseDate ≤ ·) prices)).drop horizon)).flatMap
      (fun q => compoundReturns
        (onDates PriceRow.date (fun d => q.1 < d && d ≤ q.2) prices) horizon q.1) =
    ((tradingDays prices).filter (baseDate ≤ ·)).flatMap (rowsFrom prices horizon) := by
  have hsucc : (horizon : ℕ) - 1 + 1 = horizon := Nat.sub_add_cancel horizon.pos
  have hsorted : ((tradingDays prices).filter (baseDate ≤ ·)).Pairwise (· < ·) :=
    (tradingDays_sorted prices).filter _
  have hpairs := zip_drop_of_sorted hsorted ((horizon : ℕ) - 1)
  rw [hsucc] at hpairs
  rw [tradingDays_onDates, hpairs, List.filterMap_eq_flatMap_toList, List.flatMap_assoc]
  apply List.flatMap_congr
  intro d hd
  have hbase : baseDate ≤ d := of_decide_eq_true (List.mem_filter.mp hd).2
  have hlater : ((tradingDays prices).filter (baseDate ≤ ·)).filter (d < ·) =
      laterDays prices d := by
    rw [List.filter_filter]
    apply List.filter_congr
    intro d' _
    by_cases hlt : d < d'
    · simp [hlt, hbase.trans hlt.le]
    · simp [hlt]
  rw [hlater, rowsFrom]
  cases (laterDays prices d)[(horizon : ℕ) - 1]? with
  | none => rfl
  | some target => simp

theorem computeHorizonReturns_ok {crsp : CrspSnapshot K χ} {all : List (ForwardReturnRow K)}
    (h : computeHorizonReturns (some crsp) baseDate horizon = .ok all) :
    all = ((tradingDays crsp.visible).filter (baseDate ≤ ·)).flatMap
      (rowsFrom crsp.visible horizon) := by
  unfold computeHorizonReturns at h
  simp only [getPitPrices_end, bind, Except.bind] at h
  split_ifs at h
  rw [flatMap_rowsFrom] at h
  exact (Except.ok.inj h).symm

/-- A day with enough later days is followed by them from any base date on. -/
theorem computeHorizonReturns_isOk {crsp : CrspSnapshot K χ} (hbase : baseDate ≤ d)
    (hd : d ∈ tradingDays crsp.visible)
    (hlater : (horizon : ℕ) ≤ (laterDays crsp.visible d).length) :
    ∃ all, computeHorizonReturns (some crsp) baseDate horizon = .ok all := by
  have hmore : (horizon : ℕ) <
      (tradingDays (onDates PriceRow.date (baseDate ≤ ·) crsp.visible)).length := by
    have hsub : (d :: laterDays crsp.visible d).Subperm
        (tradingDays (onDates PriceRow.date (baseDate ≤ ·) crsp.visible)) := by
      apply List.Nodup.subperm
      · rw [List.nodup_cons]
        refine ⟨by simp [laterDays], ?_⟩
        exact ((tradingDays_sorted crsp.visible).imp ne_of_lt).filter _
      · rw [tradingDays_onDates]
        intro d' hd'
        rcases List.mem_cons.mp hd' with rfl | hd'
        · exact List.mem_filter.mpr ⟨hd, decide_eq_true hbase⟩
        · obtain ⟨hmem, hlt⟩ := List.mem_filter.mp hd'
          exact List.mem_filter.mpr
            ⟨hmem, decide_eq_true (hbase.trans (of_decide_eq_true hlt).le)⟩
    have hle := hsub.length_le
    rw [List.length_cons] at hle
    omega
  unfold computeHorizonReturns
  simp only [getPitPrices_end, bind, Except.bind]
  rw [if_neg (not_le.mpr hmore)]
  exact ⟨_, rfl⟩

theorem date_of_mem_rowsFrom {row : ForwardReturnRow K} (h : row ∈ rowsFrom prices horizon d) :
    row.date = d := by
  unfold rowsFrom at h
  cases htarget : (laterDays prices d)[(horizon : ℕ) - 1]? with
  | none => simp [htarget] at h
  | some target =>
      rw [htarget] at h
      exact (mem_compoundReturns.mp h).2.1

/-- The two computations agree on every day with enough later days, and give nothing for the
others. -/
theorem forwardReturns_agree (crsp : CrspSnapshot K χ) (horizon : ℕ+) (baseDate d : ℤ)
    (hunique : (crsp.visible.map priceKey).Nodup) (hd : d ∈ tradingDays crsp.visible)
    (hbase : baseDate ≤ d) :
    ((horizon : ℕ) ≤ (laterDays crsp.visible d).length →
        ∃ rows all, getPitForwardReturns (some crsp) d horizon = .ok rows ∧
          computeHorizonReturns (some crsp) baseDate horizon = .ok all ∧
          withKey ForwardReturnRow.date all d = rows ∧
          (rows.map ForwardReturnRow.permno).Nodup ∧
          ∀ row, row ∈ rows ↔ Compounds crsp.visible horizon d row) ∧
      ((laterDays crsp.visible d).length < horizon →
        (∃ message, getPitForwardReturns (some crsp) d horizon =
          .error (.missingForwardReturn message)) ∧
        ∀ all, computeHorizonReturns (some crsp) baseDate horizon = .ok all →
          ∀ row ∈ all, row.date ≠ d) := by
  obtain ⟨henough, hshort⟩ := getPitForwardReturns_spec crsp d horizon
  have hpos := horizon.pos
  constructor
  · intro hlater
    obtain ⟨all, hall⟩ := computeHorizonReturns_isOk hbase hd hlater
    have htarget := List.getElem?_eq_getElem (l := laterDays crsp.visible d)
      (i := (horizon : ℕ) - 1) (by omega)
    have hrows : rowsFrom crsp.visible horizon d = compoundReturns (onDates PriceRow.date
        (fun d' => d < d' && d' ≤ (laterDays crsp.visible d)[(horizon : ℕ) - 1]) crsp.visible)
          horizon d := by
      rw [rowsFrom, htarget]
      rfl
    refine ⟨_, all, henough hlater, hall, ?_, ?_, ?_⟩
    · have hdays : ((tradingDays crsp.visible).filter (baseDate ≤ ·)).Nodup :=
        ((tradingDays_sorted crsp.visible).imp ne_of_lt).filter _
      rw [computeHorizonReturns_ok hall]
      exact withKey_flatMap hdays (fun _ _ => date_of_mem_rowsFrom)
        (List.mem_filter.mpr ⟨hd, decide_eq_true hbase⟩)
    · rw [hrows, compoundReturns, List.map_map]
      simpa [Function.comp_def] using nodup_groupKeys.filter _
    · intro row
      rw [hrows]
      exact mem_compoundReturns_window hunique htarget
  · intro hfew
    refine ⟨hshort hfew, ?_⟩
    intro all hall row hrow hdate
    rw [computeHorizonReturns_ok hall] at hrow
    obtain ⟨d', -, hrow⟩ := List.mem_flatMap.mp hrow
    obtain rfl : d' = d := (date_of_mem_rowsFrom hrow).symm.trans hdate
    rw [rowsFrom, List.getElem?_eq_none (by omega)] at hrow
    cases hrow

end Returns

/-- The second security misses the return of the third day. -/
def fourDays : CrspSnapshot ℚ Unit where
  dateRangeEnd := 4
  prices :=
    [⟨1, 1, some (1 / 10), ()⟩, ⟨2, 1, some 0, ()⟩, ⟨1, 3, some (-1 / 2), ()⟩, ⟨1, 2, some 1, ()⟩,
      ⟨2, 3, none, ()⟩, ⟨2, 2, some (1 / 4), ()⟩, ⟨2, 4, some 1, ()⟩, ⟨1, 5, some 1, ()⟩]

theorem forwardReturns_agree_fourDays :
    ∃ rows all, getPitForwardReturns (some fourDays) 1 2 = .ok rows ∧
      computeHorizonReturns (some fourDays) 0 2 = .ok all ∧
      withKey ForwardReturnRow.date all 1 = rows ∧
      (rows.map ForwardReturnRow.permno).Nodup ∧
      ∀ row, row ∈ rows ↔ Compounds fourDays.visible 2 1 row :=
  (forwardReturns_agree fourDays 2 0 1 (by decide +kernel) (by decide +kernel) (by decide)).1
    (by decide +kernel)

/-- The first security doubles and halves. -/
example : getPitForwardReturns (some fourDays) 1 2 = .ok [⟨1, 1, 0⟩] := by decide +kernel

end TradingPlatform.Alpha
