import Mathlib.Algebra.BigOperators.Intervals
import Mathlib.Tactic.IntervalCases

/-!
# `DzOS.Lib.Gregorian`: the days of the Gregorian calendar

A `Date` carries the proof that its month and its day exist. `Date.dayNumber` counts the days from
the first day of year 0, month by month and year by year, so it follows the calendar and no closed
form. `dayNumber_tomorrow` says that it counts each day once, and `daysBeforeYear_eq` is the closed
form of its years.

`Instant` adds the time of day. `Instant.unixTime` is its distance in seconds from the start of
1970.
-/

set_option autoImplicit false

namespace DzOS.Lib.Gregorian

variable {month : ℕ}

/-- A year with a 29 February. -/
def IsLeap (year : ℕ) : Prop := year % 4 = 0 ∧ (year % 100 ≠ 0 ∨ year % 400 = 0)

instance (year : ℕ) : Decidable (IsLeap year) := inferInstanceAs (Decidable (_ ∧ _))

/-- The days of a year. -/
def daysInYear (year : ℕ) : ℕ := if IsLeap year then 366 else 365

/-- The days of a month, which is a number from 1 to 12. -/
def daysInMonth (year month : ℕ) : ℕ :=
  if month = 2 then if IsLeap year then 29 else 28
  else if month ∈ [4, 6, 9, 11] then 30
  else 31

/-- The days from year 0 up to a year. -/
def daysBeforeYear (year : ℕ) : ℕ := ∑ y ∈ Finset.range year, daysInYear y

/-- The days of a year up to a month. -/
def daysBeforeMonth (year month : ℕ) : ℕ := ∑ m ∈ Finset.Ico 1 month, daysInMonth year m

/-- A day of the calendar. -/
@[ext]
structure Date where
  year : ℕ
  month : ℕ
  day : ℕ
  month_mem : 1 ≤ month ∧ month ≤ 12
  day_mem : 1 ≤ day ∧ day ≤ daysInMonth year month

/-- The number of a day, from the first day of year 0 on. -/
def Date.dayNumber (d : Date) : ℕ :=
  daysBeforeYear d.year + daysBeforeMonth d.year d.month + (d.day - 1)

theorem daysInMonth_pos (year month : ℕ) : 1 ≤ daysInMonth year month := by
  unfold daysInMonth
  split_ifs <;> omega

/-- The first day of a year. -/
def Date.newYear (year : ℕ) : Date :=
  ⟨year, 1, 1, ⟨le_rfl, by omega⟩, le_rfl, daysInMonth_pos _ _⟩

/-- The day after a day. -/
def Date.tomorrow (d : Date) : Date :=
  if hday : d.day < daysInMonth d.year d.month then
    ⟨d.year, d.month, d.day + 1, d.month_mem, by omega, hday⟩
  else if hmonth : d.month < 12 then
    ⟨d.year, d.month + 1, 1, ⟨by omega, hmonth⟩, le_rfl, daysInMonth_pos _ _⟩
  else Date.newYear (d.year + 1)

theorem daysBeforeYear_succ (year : ℕ) :
    daysBeforeYear (year + 1) = daysBeforeYear year + daysInYear year :=
  Finset.sum_range_succ _ _

theorem daysBeforeMonth_one (year : ℕ) : daysBeforeMonth year 1 = 0 := rfl

theorem daysBeforeMonth_succ (year : ℕ) (h : 1 ≤ month) :
    daysBeforeMonth year (month + 1) = daysBeforeMonth year month + daysInMonth year month :=
  Finset.sum_Ico_succ_top h _

/-- The twelve months are the year. -/
theorem daysBeforeMonth_thirteen (year : ℕ) : daysBeforeMonth year 13 = daysInYear year := by
  unfold daysBeforeMonth daysInMonth daysInYear
  by_cases hleap : IsLeap year
  · simp only [if_pos hleap]
    rfl
  · simp only [if_neg hleap]
    rfl

/-- The numbers of the days are consecutive. -/
theorem Date.dayNumber_tomorrow (d : Date) : d.tomorrow.dayNumber = d.dayNumber + 1 := by
  obtain ⟨h1, h12⟩ := d.month_mem
  obtain ⟨hd1, hdm⟩ := d.day_mem
  unfold Date.tomorrow Date.dayNumber
  split
  · simp only
    omega
  · split
    · have hstep := daysBeforeMonth_succ d.year h1
      simp only
      omega
    · -- the last day of the year
      have hlast : d.month = 12 := by omega
      have hyear := daysBeforeYear_succ d.year
      have hstep : daysBeforeMonth d.year 13 = daysBeforeMonth d.year 12 + daysInMonth d.year 12 :=
        daysBeforeMonth_succ d.year (by decide)
      have hall := daysBeforeMonth_thirteen d.year
      have hone := daysBeforeMonth_one (d.year + 1)
      rename_i hday _
      rw [hlast] at hdm hday
      simp only [hlast, Date.newYear]
      omega

/-- The years in closed form: each century year but every fourth is no leap year. -/
theorem daysBeforeYear_eq (year : ℕ) :
    daysBeforeYear year + (year + 99) / 100 = 365 * year + (year + 3) / 4 + (year + 399) / 400 := by
  induction year with
  | zero => rfl
  | succ year ih =>
    rw [daysBeforeYear_succ]
    by_cases hleap : IsLeap year
    · obtain ⟨h4, h100⟩ := id hleap
      rw [daysInYear, if_pos hleap]
      omega
    · rw [daysInYear, if_neg hleap]
      unfold IsLeap at hleap
      omega

/-- A leap year has one day more before each month from March on. -/
theorem daysBeforeMonth_eq (year : ℕ) (h1 : 1 ≤ month) (h12 : month ≤ 12) :
    daysBeforeMonth year month
      = daysBeforeMonth 1 month + if IsLeap year ∧ 2 < month then 1 else 0 := by
  have hplain : ¬ IsLeap 1 := by decide
  induction month, h1 using Nat.le_induction with
  | base => simp [daysBeforeMonth_one]
  | succ month h1 ih =>
    rw [daysBeforeMonth_succ _ h1, daysBeforeMonth_succ _ h1, ih (by omega)]
    unfold daysInMonth
    rw [if_neg hplain]
    by_cases hleap : IsLeap year
    · simp only [hleap, true_and]
      split_ifs <;> omega
    · simp only [hleap, false_and, if_false]
      omega

/-- A date with a time of day. -/
structure Instant where
  date : Date
  hour : ℕ
  minute : ℕ
  second : ℕ
  hour_lt : hour < 24
  minute_lt : minute < 60
  second_lt : second < 60

/-- The start of a day. -/
def Instant.midnight (d : Date) : Instant := ⟨d, 0, 0, 0, by decide, by decide, by decide⟩

/-- The first day of 1970. -/
def epoch : Date := Date.newYear 1970

/-- The seconds since the start of 1970. -/
def Instant.unixTime (t : Instant) : ℤ :=
  ((t.date.dayNumber : ℤ) - epoch.dayNumber) * 86400 + t.hour * 3600 + t.minute * 60 + t.second

/-- The same time of the next day. -/
def Instant.tomorrow (t : Instant) : Instant := { t with date := t.date.tomorrow }

/-- A day has 86400 seconds. -/
theorem Instant.unixTime_tomorrow (t : Instant) : t.tomorrow.unixTime = t.unixTime + 86400 := by
  have hday := t.date.dayNumber_tomorrow
  show ((t.date.tomorrow.dayNumber : ℤ) - epoch.dayNumber) * 86400 + t.hour * 3600
    + t.minute * 60 + t.second = _
  unfold Instant.unixTime
  rw [hday]
  push_cast
  omega

end DzOS.Lib.Gregorian
