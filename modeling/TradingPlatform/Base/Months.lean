import TradingPlatform.Base.Calendar

/-! # Months of the calendar

Months are counted from January of the year 0, which is month 0. A date a number of months later is
clamped to the length of its month.
-/

namespace TradingPlatform.Base

def isLeap (year : ℤ) : Prop := year % 4 = 0 ∧ (year % 100 ≠ 0 ∨ year % 400 = 0)

instance (year : ℤ) : Decidable (isLeap year) := inferInstanceAs (Decidable (_ ∧ _))

def monthLength (month : ℤ) : ℤ :=
  if month % 12 = 1 then if isLeap (month / 12) then 29 else 28
  else if month % 12 ∈ [3, 5, 8, 10] then 30
  else 31

/-- The first day of the month. -/
def monthStart (month : ℤ) : ℤ :=
  newYear (month / 12) + (367 * (month % 12) + 5) / 12 -
    (if month % 12 ≤ 1 then 0 else if isLeap (month / 12) then 1 else 2)

/-- The last of some months after the first one that starts by the day. -/
def lastStarted (first day : ℤ) : ℕ → ℤ
  | 0 => first
  | n + 1 => if monthStart (first + (n + 1)) ≤ day then first + (n + 1) else lastStarted first day n

def monthOf (day : ℤ) : ℤ := lastStarted (12 * yearOf day) day 11

/-- The day of the month, from 1. -/
def dayOf (day : ℤ) : ℤ := day - monthStart (monthOf day) + 1

/-- A number with zeros before it, up to the width. -/
def zeroPadded (width : ℕ) (n : ℤ) : String :=
  String.ofList (List.replicate (width - (toString n).length) '0') ++ toString n

/-- `YYYY-MM-DD` -/
def isoDate (day : ℤ) : String :=
  zeroPadded 4 (monthOf day / 12) ++ "-" ++ zeroPadded 2 (monthOf day % 12 + 1) ++ "-" ++
    zeroPadded 2 (dayOf day)

/-- `day + relativedelta(months=months)` -/
def addMonths (day months : ℤ) : ℤ :=
  monthStart (monthOf day + months) + min (dayOf day) (monthLength (monthOf day + months)) - 1

theorem newYear_succ (year : ℤ) :
    newYear (year + 1) = newYear year + if isLeap year then 366 else 365 := by
  by_cases hleap : isLeap year
  · rw [if_pos hleap]
    unfold isLeap at hleap
    unfold newYear
    omega
  · rw [if_neg hleap]
    unfold isLeap at hleap
    unfold newYear
    omega

theorem monthLength_bounds (month : ℤ) : 28 ≤ monthLength month ∧ monthLength month ≤ 31 := by
  unfold monthLength
  split
  · split <;> omega
  · split <;> omega

/-- A month starts where the one before ends. -/
theorem monthStart_succ (month : ℤ) :
    monthStart (month + 1) = monthStart month + monthLength month := by
  have hmonth : month % 12 = 11 ∨ (month + 1) / 12 = month / 12 ∧
      (month + 1) % 12 = month % 12 + 1 := by omega
  rcases hmonth with hlast | ⟨hyear, hnext⟩
  · have hyear : (month + 1) / 12 = month / 12 + 1 := by omega
    have hnext : (month + 1) % 12 = 0 := by omega
    have hlength := newYear_succ (month / 12)
    unfold monthStart monthLength
    rw [hyear, hnext, hlast, hlength]
    by_cases hleap : isLeap (month / 12)
    · simp [hleap]
      omega
    · simp [hleap]
      omega
  · unfold monthStart monthLength
    rw [hyear, hnext]
    have hcases : month % 12 = 0 ∨ month % 12 = 1 ∨ month % 12 = 2 ∨ month % 12 = 3 ∨
        month % 12 = 4 ∨ month % 12 = 5 ∨ month % 12 = 6 ∨ month % 12 = 7 ∨ month % 12 = 8 ∨
          month % 12 = 9 ∨ month % 12 = 10 := by omega
    by_cases hleap : isLeap (month / 12) <;>
      rcases hcases with h | h | h | h | h | h | h | h | h | h | h <;> simp [h, hleap] <;> omega

theorem monthStart_lt {month month' : ℤ} (h : month < month') :
    monthStart (month + 1) ≤ monthStart month' := by
  obtain ⟨n, rfl⟩ : ∃ n : ℕ, month' = month + 1 + n := ⟨(month' - month - 1).toNat, by omega⟩
  clear h
  induction n with
  | zero => simp
  | succ n ih =>
      have hstep := monthStart_succ (month + 1 + n)
      have hbounds := monthLength_bounds (month + 1 + n)
      rw [Int.natCast_add, Int.natCast_one, ← Int.add_assoc]
      omega

theorem lastStarted_spec (first day : ℤ) (n : ℕ) (hfirst : monthStart first ≤ day)
    (hlast : day < monthStart (first + (n + 1))) :
    monthStart (lastStarted first day n) ≤ day ∧
      day < monthStart (lastStarted first day n + 1) := by
  induction n with
  | zero => exact ⟨hfirst, by simpa [lastStarted] using hlast⟩
  | succ n ih =>
      unfold lastStarted
      split
      · rename_i hstarted
        exact ⟨hstarted, by simpa [Int.add_assoc] using hlast⟩
      · rename_i hlater
        exact ih (by simpa using hlater)

theorem monthStart_year (year : ℤ) : monthStart (12 * year) = newYear year := by
  have hyear : 12 * year / 12 = year := by omega
  have hmonth : 12 * year % 12 = 0 := by omega
  simp [monthStart, hyear, hmonth]

theorem monthOf_spec (day : ℤ) :
    monthStart (monthOf day) ≤ day ∧ day < monthStart (monthOf day + 1) := by
  have ⟨hfrom, hto⟩ := yearOf_spec day
  apply lastStarted_spec
  · rwa [monthStart_year]
  · have hyear : 12 * yearOf day + ((11 : ℕ) + 1) = 12 * (yearOf day + 1) := by
      push_cast
      omega
    rw [hyear, monthStart_year]
    exact hto

theorem monthOf_eq_iff {day month : ℤ} :
    monthOf day = month ↔ monthStart month ≤ day ∧ day < monthStart (month + 1) := by
  have ⟨hfrom, hto⟩ := monthOf_spec day
  constructor
  · rintro rfl
    exact ⟨hfrom, hto⟩
  · rintro ⟨hlow, hhigh⟩
    rcases lt_trichotomy (monthOf day) month with hlt | heq | hgt
    · have hle := monthStart_lt hlt
      omega
    · exact heq
    · have hle := monthStart_lt hgt
      omega

/-- A day lies before another in an earlier month. -/
theorem lt_of_monthOf_lt {day day' : ℤ} (h : monthOf day < monthOf day') : day < day' := by
  have ⟨_, hto⟩ := monthOf_spec day
  have ⟨hfrom, _⟩ := monthOf_spec day'
  have hle := monthStart_lt h
  omega

theorem dayOf_bounds (day : ℤ) : 1 ≤ dayOf day ∧ dayOf day ≤ monthLength (monthOf day) := by
  have ⟨hfrom, hto⟩ := monthOf_spec day
  rw [monthStart_succ] at hto
  unfold dayOf
  omega

theorem monthOf_addMonths (day months : ℤ) :
    monthOf (addMonths day months) = monthOf day + months := by
  have hday := dayOf_bounds day
  have hlength := monthLength_bounds (monthOf day + months)
  rw [monthOf_eq_iff, monthStart_succ, addMonths]
  omega

theorem dayOf_addMonths (day months : ℤ) :
    dayOf (addMonths day months) = min (dayOf day) (monthLength (monthOf day + months)) := by
  rw [dayOf, monthOf_addMonths, addMonths]
  omega

theorem lt_addMonths {day months : ℤ} (h : 1 ≤ months) : day < addMonths day months := by
  apply lt_of_monthOf_lt
  rw [monthOf_addMonths]
  omega

/-- Within a month days are compared by their number in it. -/
theorem le_iff_dayOf_le {day day' : ℤ} (h : monthOf day = monthOf day') :
    day ≤ day' ↔ dayOf day ≤ dayOf day' := by
  unfold dayOf
  rw [h]
  omega

/-- From the last of January, one month ends on the last of February. -/
example : addMonths 730150 1 = 730179 ∧ dayOf 730150 = 31 ∧ dayOf 730179 = 29 := by decide

end TradingPlatform.Base
