import Mathlib.Algebra.Order.Group.Int
import Mathlib.Data.List.Nodup
import Mathlib.Tactic.TypeStar

/-! # The calendar

Days are counted from the first of January of the year 1, which is day 1, in the
Gregorian calendar. The year of a day is estimated and set right by one.
-/

namespace TradingPlatform.Base

/-- The first of January of the year. -/
def newYear (year : ℤ) : ℤ :=
  365 * (year - 1) + (year - 1) / 4 - (year - 1) / 100 + (year - 1) / 400 + 1

def yearOf (day : ℤ) : ℤ :=
  let estimate := 400 * day / 146097 + 1
  if newYear (estimate + 1) ≤ day then estimate + 1
  else if day < newYear estimate then estimate - 1
  else estimate

def yearRange (first last : ℤ) : List ℤ :=
  (List.range (last + 1 - first).toNat).map fun n : ℕ => first + (n : ℤ)

theorem newYear_le {year year' : ℤ} (h : year < year') : newYear (year + 1) ≤ newYear year' := by
  unfold newYear
  omega

theorem yearOf_spec (day : ℤ) : newYear (yearOf day) ≤ day ∧ day < newYear (yearOf day + 1) := by
  unfold yearOf
  dsimp only
  split
  · rename_i hlater
    refine ⟨hlater, ?_⟩
    unfold newYear
    omega
  · rename_i hnotLater
    split
    · rename_i hearlier
      refine ⟨?_, ?_⟩
      · unfold newYear
        omega
      · rwa [Int.sub_add_cancel]
    · rename_i hnotEarlier
      exact ⟨Int.not_lt.mp hnotEarlier, Int.not_le.mp hnotLater⟩

theorem yearOf_eq_iff {day year : ℤ} :
    yearOf day = year ↔ newYear year ≤ day ∧ day < newYear (year + 1) := by
  have ⟨hfrom, hto⟩ := yearOf_spec day
  constructor
  · rintro rfl
    exact ⟨hfrom, hto⟩
  · rintro ⟨hlow, hhigh⟩
    rcases lt_trichotomy (yearOf day) year with hlt | heq | hgt
    · have hle := newYear_le hlt
      omega
    · exact heq
    · have hle := newYear_le hgt
      omega

theorem mem_yearRange {first last year : ℤ} :
    year ∈ yearRange first last ↔ first ≤ year ∧ year ≤ last := by
  simp only [yearRange, List.mem_map, List.mem_range]
  constructor
  · rintro ⟨n, hn, rfl⟩
    omega
  · rintro ⟨hfirst, hlast⟩
    have hnat : ((year - first).toNat : ℤ) = year - first := Int.toNat_of_nonneg (by omega)
    exact ⟨(year - first).toNat, by omega, by omega⟩

theorem nodup_yearRange (first last : ℤ) : (yearRange first last).Nodup := by
  unfold yearRange
  refine List.nodup_range.map ?_
  intro n m h
  dsimp only at h
  omega

theorem le_yearOf {day year : ℤ} (h : newYear year ≤ day) : year ≤ yearOf day := by
  have ⟨_, hto⟩ := yearOf_spec day
  by_contra hlt
  have hle := newYear_le (not_le.mp hlt)
  omega

theorem yearOf_le {day year : ℤ} (h : day < newYear (year + 1)) : yearOf day ≤ year := by
  have ⟨hfrom, _⟩ := yearOf_spec day
  by_contra hlt
  have hle := newYear_le (not_le.mp hlt)
  omega

theorem yearOf_mono {day day' : ℤ} (h : day ≤ day') : yearOf day ≤ yearOf day' :=
  le_yearOf ((yearOf_spec day).1.trans h)

example : newYear 2000 = 730120 ∧ yearOf 730119 = 1999 ∧ yearOf 730120 = 2000 := by decide

end TradingPlatform.Base
