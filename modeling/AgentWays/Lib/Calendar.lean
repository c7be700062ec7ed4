import Mathlib.Data.Int.DivMod
import Mathlib.Tactic.Common

/-
  The proleptic Gregorian calendar: its dates, the day after
  one, and the number of a date counted from 1970-01-01.

  Key definitions include:
    * `Calendar.IsLeap`
    * `Calendar.daysIn`
    * `Calendar.Date`
    * `Calendar.Date.next`
    * `Calendar.Date.number`

  Main declarations:
    * `Calendar.Date.number_epoch`
    * `Calendar.Date.number_next`
    * `Calendar.Date.number_lt_iff`
-/

------------------------------------------------------------
-- Dates
------------------------------------------------------------

namespace Calendar

/- The Gregorian leap rule. -/
def IsLeap
    (y : Int) : Prop :=
  y % 4 = 0 ∧ (y % 100 ≠ 0 ∨ y % 400 = 0)

instance (y : Int) : Decidable (IsLeap y) :=
  inferInstanceAs
    (Decidable (y % 4 = 0 ∧ (y % 100 ≠ 0 ∨ y % 400 = 0)))

/- The length of a month. -/
def daysIn
    (y : Int)
    (m : Nat) : Nat :=
  if m = 2 then if IsLeap y then 29 else 28
  else if m = 4 ∨ m = 6 ∨ m = 9 ∨ m = 11 then 30
  else 31

/- A year, a month of it and a day of that month. -/
structure Date where
  year : Int
  month : Nat
  day : Nat
  month_pos : 1 ≤ month
  month_le : month ≤ 12
  day_pos : 1 ≤ day
  day_le : day ≤ daysIn year month
deriving DecidableEq

theorem daysIn_pos
    (y : Int)
    (m : Nat) :
    1 ≤ daysIn y m := by
  unfold daysIn
  split
  · split <;> decide
  · split <;> decide

namespace Date

def epoch : Date where
  year := 1970
  month := 1
  day := 1
  month_pos := by decide
  month_le := by decide
  day_pos := by decide
  day_le := by decide

/- The day after. -/
def next
    (d : Date) : Date :=
  if hDay : d.day < daysIn d.year d.month then
    { d with
      day := d.day + 1
      day_pos := Nat.le_add_left 1 d.day
      day_le := hDay }
  else if hMonth : d.month < 12 then
    { year := d.year
      month := d.month + 1
      day := 1
      month_pos := Nat.le_add_left 1 d.month
      month_le := hMonth
      day_pos := Nat.le_refl 1
      day_le := daysIn_pos d.year (d.month + 1) }
  else
    { year := d.year + 1
      month := 1
      day := 1
      month_pos := Nat.le_refl 1
      month_le := by decide
      day_pos := Nat.le_refl 1
      day_le := daysIn_pos (d.year + 1) 1 }

end Date

end Calendar

------------------------------------------------------------
-- Counting Days
------------------------------------------------------------

namespace Calendar

/- The leap years up to a year, from a fixed one on. -/
def leapsThrough
    (y : Int) : Int :=
  y / 4 - y / 100 + y / 400

/- The days from 1970-01-01 to the first of a year. -/
def yearStart
    (y : Int) : Int :=
  365 * (y - 1970) + leapsThrough (y - 1) - leapsThrough 1969

/- The days of a year before a month of it. -/
def monthStart
    (y : Int) : Nat → Nat
| 0 => 0
| 1 => 0
| m + 2 => monthStart y (m + 1) + daysIn y (m + 1)

/- The days from 1970-01-01 to a day of a month. -/
def dayNumber
    (y : Int)
    (m d : Nat) : Int :=
  yearStart y + monthStart y m + d - 1

def Date.number
    (d : Date) : Int :=
  dayNumber d.year d.month d.day

theorem Date.number_epoch :
    Date.epoch.number = 0 := by
  decide

theorem monthStart_succ
    (y : Int)
    {m : Nat}
    (hPos : 1 ≤ m) :
    monthStart y (m + 1) = monthStart y m + daysIn y m := by
  cases m with
  | zero => cases hPos
  | succ m => rfl

theorem daysIn_two_of_leap
    {y : Int}
    (hLeap : IsLeap y) :
    daysIn y 2 = 29 := by
  unfold daysIn
  rw [if_pos rfl, if_pos hLeap]

theorem daysIn_two_of_not_leap
    {y : Int}
    (hLeap : ¬ IsLeap y) :
    daysIn y 2 = 28 := by
  unfold daysIn
  rw [if_pos rfl, if_neg hLeap]

/- A year has 366 days by the leap rule, else 365. -/
theorem yearStart_succ
    (y : Int) :
    yearStart (y + 1) =
      yearStart y + monthStart y 12 + daysIn y 12 := by
  have hMonths :
      (monthStart y 12 : Int) = 306 + daysIn y 2 := by
    simp [monthStart, daysIn]
    omega
  have hLast : daysIn y 12 = 31 := by
    simp [daysIn]
  rw [hMonths, hLast]
  unfold yearStart leapsThrough
  by_cases hLeap : IsLeap y
  · rw [daysIn_two_of_leap hLeap]
    unfold IsLeap at hLeap
    omega
  · rw [daysIn_two_of_not_leap hLeap]
    unfold IsLeap at hLeap
    omega

/- The day after has the next number. -/
theorem Date.number_next
    (d : Date) :
    d.next.number = d.number + 1 := by
  unfold next
  split
  · unfold number dayNumber
    dsimp only
    omega
  · rename_i hDay
    have hLast : d.day = daysIn d.year d.month :=
      Nat.le_antisymm d.day_le (Nat.not_lt.mp hDay)
    split
    · unfold number dayNumber
      dsimp only
      rw [monthStart_succ d.year d.month_pos, hLast]
      omega
    · rename_i hMonth
      have hTwelve : d.month = 12 :=
        Nat.le_antisymm d.month_le (Nat.not_lt.mp hMonth)
      unfold number dayNumber
      dsimp only
      rw [yearStart_succ, hLast, hTwelve]
      simp only [monthStart]
      omega

end Calendar

------------------------------------------------------------
-- The Order Of Dates
------------------------------------------------------------

namespace Calendar

theorem monthStart_le
    (y : Int)
    {m m' : Nat}
    (hPos : 1 ≤ m)
    (hLt : m < m') :
    monthStart y m + daysIn y m ≤ monthStart y m' := by
  induction m' with
  | zero => exact absurd hLt (Nat.not_lt_zero m)
  | succ n ih =>
      rw [monthStart_succ y (by omega)]
      rcases Nat.lt_or_eq_of_le (Nat.le_of_lt_succ hLt) with
        hBefore | rfl
      · exact
          Nat.le_trans (ih hBefore) (Nat.le_add_right _ _)
      · exact Nat.le_refl _

theorem yearStart_le
    {y y' : Int}
    (hLt : y < y') :
    yearStart (y + 1) ≤ yearStart y' := by
  unfold yearStart leapsThrough
  omega

namespace Date

variable {d d' : Date}

theorem yearStart_le_number :
    yearStart d.year ≤ d.number := by
  have hPos := d.day_pos
  unfold number dayNumber
  omega

/- A date comes before the next year begins. -/
theorem number_lt_yearStart :
    d.number < yearStart (d.year + 1) := by
  have hDay := d.day_le
  have hMonth :
      monthStart d.year d.month + daysIn d.year d.month ≤
        monthStart d.year 12 + daysIn d.year 12 := by
    rcases Nat.lt_or_eq_of_le d.month_le with hLt | hEq
    · exact
        Nat.le_trans (monthStart_le d.year d.month_pos hLt)
          (Nat.le_add_right _ _)
    · exact Nat.le_of_eq (by rw [hEq])
  rw [yearStart_succ]
  unfold number dayNumber
  omega

theorem number_lt_of_year
    (hLt : d.year < d'.year) :
    d.number < d'.number :=
  Int.lt_of_lt_of_le
    (Int.lt_of_lt_of_le number_lt_yearStart (yearStart_le hLt))
    yearStart_le_number

theorem number_lt_of_month
    (hYear : d.year = d'.year)
    (hLt : d.month < d'.month) :
    d.number < d'.number := by
  have hDay := d.day_le
  have hPos := d'.day_pos
  have hMonths := monthStart_le d.year d.month_pos hLt
  unfold number dayNumber
  rw [← hYear]
  omega

theorem number_lt_of_day
    (hYear : d.year = d'.year)
    (hMonth : d.month = d'.month)
    (hLt : d.day < d'.day) :
    d.number < d'.number := by
  unfold number dayNumber
  rw [← hYear, ← hMonth]
  omega

/- Dates are numbered in the order of year, month and day. -/
theorem number_lt_iff :
    d.number < d'.number ↔
      d.year < d'.year ∨
        (d.year = d'.year ∧
          (d.month < d'.month ∨
            (d.month = d'.month ∧ d.day < d'.day))) := by
  constructor
  · intro hLt
    rcases Int.lt_trichotomy d.year d'.year with
      hYear | hYear | hYear
    · exact .inl hYear
    · refine .inr ⟨hYear, ?_⟩
      rcases Nat.lt_trichotomy d.month d'.month with
        hMonth | hMonth | hMonth
      · exact .inl hMonth
      · refine .inr ⟨hMonth, ?_⟩
        unfold number dayNumber at hLt
        rw [← hYear, ← hMonth] at hLt
        omega
      · have hBack := number_lt_of_month hYear.symm hMonth
        omega
    · have hBack := number_lt_of_year hYear
      omega
  · rintro (hYear | ⟨hYear, hMonth | ⟨hMonth, hDay⟩⟩)
    · exact number_lt_of_year hYear
    · exact number_lt_of_month hYear hMonth
    · exact number_lt_of_day hYear hMonth hDay

@[ext]
theorem ext
    (hYear : d.year = d'.year)
    (hMonth : d.month = d'.month)
    (hDay : d.day = d'.day) :
    d = d' := by
  cases d
  cases d'
  cases hYear
  cases hMonth
  cases hDay
  rfl

/- No two dates have one number. -/
theorem number_inj
    (hSame : d.number = d'.number) :
    d = d' := by
  have hNot := (@number_lt_iff d d').not
  have hNot' := (@number_lt_iff d' d).not
  rw [hSame] at hNot hNot'
  have hLess := hNot.mp (Int.lt_irrefl _)
  have hMore := hNot'.mp (Int.lt_irrefl _)
  have hYear : d.year = d'.year := by omega
  have hMonth : d.month = d'.month := by omega
  exact ext hYear hMonth (by omega)

end Date

end Calendar

------------------------------------------------------------
-- Bounds
------------------------------------------------------------

namespace Calendar

theorem daysIn_le
    (y : Int)
    (m : Nat) :
    daysIn y m ≤ 31 := by
  unfold daysIn
  split
  · split <;> decide
  · split <;> decide

/- Any day up to 31 of a month is in its year, or before. -/
theorem dayNumber_lt_yearStart
    (y : Int)
    {m d : Nat}
    (hPos : 1 ≤ m)
    (hMonth : m ≤ 12)
    (hDay : d ≤ 31) :
    dayNumber y m d < yearStart (y + 1) := by
  have hLast : daysIn y 12 = 31 := by
    simp [daysIn]
  have hStart : monthStart y m ≤ monthStart y 12 := by
    rcases Nat.lt_or_eq_of_le hMonth with hLt | hEq
    · exact
        Nat.le_trans (Nat.le_add_right _ _)
          (monthStart_le y hPos hLt)
    · exact Nat.le_of_eq (by rw [hEq])
  rw [yearStart_succ, hLast]
  unfold dayNumber
  omega

/- The days of a year from zero on, from below. -/
theorem yearStart_ge
    {y : Int}
    (hYear : 0 ≤ y) :
    -719528 ≤ yearStart y := by
  unfold yearStart leapsThrough
  omega

theorem yearStart_neg
    {y : Int}
    (hYear : y < 1970) :
    yearStart (y + 1) ≤ 0 := by
  have hStart : yearStart 1970 = 0 := by decide
  rw [← hStart]
  exact yearStart_le hYear

theorem yearStart_nonneg
    {y : Int}
    (hYear : 1970 ≤ y) :
    0 ≤ yearStart y := by
  unfold yearStart leapsThrough
  omega

namespace Date

variable {d : Date}

/- A date with a number from zero on is of 1970 or later. -/
theorem year_ge_iff :
    1970 ≤ d.year ↔ 0 ≤ d.number := by
  constructor
  · intro hYear
    exact
      Int.le_trans (yearStart_nonneg hYear) yearStart_le_number
  · intro hNumber
    by_cases hYear : 1970 ≤ d.year
    · exact hYear
    · have hEnd := number_lt_yearStart (d := d)
      have hNeg := yearStart_neg (Int.not_le.mp hYear)
      omega

/- A year is bounded by the number of its days. -/
theorem year_le_number
    (hYear : 1970 ≤ d.year) :
    365 * (d.year - 1970) ≤ d.number + 366 := by
  have hFirst := yearStart_le_number (d := d)
  unfold yearStart leapsThrough at hFirst
  omega

end Date

end Calendar
