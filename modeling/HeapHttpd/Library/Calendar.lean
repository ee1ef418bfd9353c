import Mathlib.Algebra.GroupWithZero.Nat
import Mathlib.Data.List.GetD
import Mathlib.Data.List.Range
import Mathlib.Tactic.Common

/-!
# Calendar dates

Dates of the Gregorian calendar and the numbers of their days, counted from the start of 1970.
-/

namespace HeapHttpd

namespace Calendar

/-- Whether February has 29 days. -/
def isLeap (year : Int) : Bool :=
  year % 4 = 0 ∧ (year % 100 ≠ 0 ∨ year % 400 = 0)

/-- The days of a year. -/
def yearDays (year : Int) : Nat :=
  if isLeap year then 366 else 365

/-- The days from the start of 1970 to the start of a year. -/
def daysBeforeYear (year : Int) : Int :=
  365 * (year - 1970) + (year - 1) / 4 - (year - 1) / 100 + (year - 1) / 400 - 477

/-- The days of a month, from 0 on. -/
def monthDays (leap : Bool) (month : Nat) : Nat :=
  [31, if leap then 29 else 28, 31, 30, 31, 30, 31, 31, 30, 31, 30, 31].getD month 0

/-- The days of a year before a month. -/
def daysBeforeMonth (leap : Bool) (month : Nat) : Nat :=
  ((List.range month).map (monthDays leap)).sum

/-- A date; months are counted from 0, and days from 1. -/
structure Date where
  year : Int
  month : Nat
  day : Nat
  deriving DecidableEq

/-- The number of the day. -/
def Date.number (date : Date) : Int :=
  daysBeforeYear date.year + daysBeforeMonth (isLeap date.year) date.month + (date.day - 1)

/-- The year that some days lead to, and the days left in it; at most so many years are passed. -/
def yearFrom : Nat → Int → Nat → Int × Nat
  | 0, year, days => (year, days)
  | years + 1, year, days =>
      if days < yearDays year then (year, days)
      else yearFrom years (year + 1) (days - yearDays year)

/-- The month that some days lead to, and the days left in it; at most so many months are passed. -/
def monthFrom (leap : Bool) : Nat → Nat → Nat → Nat × Nat
  | 0, month, days => (month, days)
  | months + 1, month, days =>
      if days < monthDays leap month then (month, days)
      else monthFrom leap months (month + 1) (days - monthDays leap month)

/-- The date of a day. -/
def dateOf (number : Nat) : Date :=
  let inYear := yearFrom (number / 365) 1970 number
  let inMonth := monthFrom (isLeap inYear.1) 11 0 inYear.2
  { year := inYear.1, month := inMonth.1, day := inMonth.2 + 1 }

theorem daysBeforeYear_succ (year : Int) :
    daysBeforeYear (year + 1) = daysBeforeYear year + yearDays year := by
  have leap : isLeap year = true ↔ year % 4 = 0 ∧ (year % 100 ≠ 0 ∨ year % 400 = 0) := by
    rw [isLeap, decide_eq_true_iff]
  unfold daysBeforeYear yearDays
  split
  · rename_i isLeap
    have divides := leap.mp isLeap
    omega
  · rename_i notLeap
    have divides := mt leap.mpr notLeap
    omega

theorem yearDays_ge (year : Int) : 365 ≤ yearDays year ∧ yearDays year ≤ 366 := by
  unfold yearDays
  split
  · omega
  · omega

/-- The day stays the same while years are passed. -/
theorem daysBeforeYear_yearFrom (years : Nat) (year : Int) (days : Nat) :
    daysBeforeYear (yearFrom years year days).1 + (yearFrom years year days).2 =
      daysBeforeYear year + days := by
  induction years generalizing year days with
  | zero => rfl
  | succ years ih =>
      rw [yearFrom]
      split
      · rfl
      · have next := daysBeforeYear_succ year
        rw [ih]
        omega

/-- The years are enough. -/
theorem yearFrom_lt {years : Nat} {year : Int} {days : Nat} (enough : days < 365 * (years + 1)) :
    (yearFrom years year days).2 < yearDays (yearFrom years year days).1 := by
  induction years generalizing year days with
  | zero =>
      have most := yearDays_ge year
      change days < yearDays year
      omega
  | succ years ih =>
      have most := yearDays_ge year
      rw [yearFrom]
      split
      · assumption
      · exact ih (by omega)

theorem le_yearFrom (years : Nat) (year : Int) (days : Nat) :
    year ≤ (yearFrom years year days).1 := by
  induction years generalizing year days with
  | zero => exact Int.le_refl year
  | succ years ih =>
      rw [yearFrom]
      split
      · exact Int.le_refl year
      · have later := ih (year + 1) (days - yearDays year)
        omega

theorem daysBeforeMonth_succ (leap : Bool) (month : Nat) :
    daysBeforeMonth leap (month + 1) = daysBeforeMonth leap month + monthDays leap month := by
  rw [daysBeforeMonth, List.range_succ, List.map_append, List.sum_append]
  simp [daysBeforeMonth]

/-- The day stays the same while months are passed. -/
theorem daysBeforeMonth_monthFrom (leap : Bool) (months month days : Nat) :
    daysBeforeMonth leap (monthFrom leap months month days).1 +
        (monthFrom leap months month days).2 =
      daysBeforeMonth leap month + days := by
  induction months generalizing month days with
  | zero => rfl
  | succ months ih =>
      rw [monthFrom]
      split
      · rfl
      · have next := daysBeforeMonth_succ leap month
        rw [ih]
        omega

theorem monthFrom_le (leap : Bool) (months month days : Nat) :
    (monthFrom leap months month days).1 ≤ month + months := by
  induction months generalizing month days with
  | zero => exact Nat.le_refl month
  | succ months ih =>
      rw [monthFrom]
      split
      · exact Nat.le_add_right month (months + 1)
      · have later := ih (month + 1) (days - monthDays leap month)
        omega

/-- The months are enough for the days of a year. -/
theorem monthFrom_lt {leap : Bool} {months month days : Nat} (whole : month + months = 11)
    (inYear : daysBeforeMonth leap month + days < daysBeforeMonth leap 12) :
    (monthFrom leap months month days).2 < monthDays leap (monthFrom leap months month days).1 := by
  induction months generalizing month days with
  | zero =>
      obtain rfl : month = 11 := whole
      rw [daysBeforeMonth_succ leap 11] at inYear
      change days < monthDays leap 11
      omega
  | succ months ih =>
      rw [monthFrom]
      split
      · assumption
      · refine ih (by omega) ?_
        rw [daysBeforeMonth_succ]
        omega

theorem daysBeforeMonth_twelve (leap : Bool) :
    daysBeforeMonth leap 12 = if leap then 366 else 365 := by
  cases leap <;> rfl

theorem monthDays_le (leap : Bool) (month : Nat) : monthDays leap month ≤ 31 := by
  unfold monthDays
  by_cases inside : month < 12
  · revert leap
    revert month
    decide
  · rw [List.getD_eq_default _ _ (Nat.le_of_not_lt inside)]
    exact Nat.zero_le _

/-- The date of a day has its number. -/
theorem number_dateOf (number : Nat) : (dateOf number).number = number := by
  have inYear := daysBeforeYear_yearFrom (number / 365) 1970 number
  have start : daysBeforeYear 1970 = 0 := rfl
  rw [dateOf, Date.number]
  generalize yearFrom (number / 365) 1970 number = passed at *
  have inMonth := daysBeforeMonth_monthFrom (isLeap passed.1) 11 0 passed.2
  have start' : daysBeforeMonth (isLeap passed.1) 0 = 0 := rfl
  dsimp only
  omega

theorem dateOf_bounds (number : Nat) :
    1970 ≤ (dateOf number).year ∧ 365 * ((dateOf number).year - 1970) ≤ number ∧
      (dateOf number).month < 12 ∧ 1 ≤ (dateOf number).day ∧ (dateOf number).day ≤ 31 := by
  have inYear := daysBeforeYear_yearFrom (number / 365) 1970 number
  have start : daysBeforeYear 1970 = 0 := rfl
  have later := le_yearFrom (number / 365) 1970 number
  have left : (yearFrom (number / 365) 1970 number).2 <
      yearDays (yearFrom (number / 365) 1970 number).1 := yearFrom_lt (by omega)
  rw [dateOf]
  generalize yearFrom (number / 365) 1970 number = passed at *
  have months := monthFrom_le (isLeap passed.1) 11 0 passed.2
  have last : (monthFrom (isLeap passed.1) 11 0 passed.2).2 < _ := monthFrom_lt rfl (by
    have none' : daysBeforeMonth (isLeap passed.1) 0 = 0 := rfl
    rw [daysBeforeMonth_twelve, none', Nat.zero_add]
    exact left)
  have most := monthDays_le (isLeap passed.1) (monthFrom (isLeap passed.1) 11 0 passed.2).1
  unfold daysBeforeYear at inYear
  dsimp only
  omega

end Calendar

end HeapHttpd
