import AgentWays.Fmt.When
import AgentWays.Lib.Calendar
import Mathlib.Tactic.IntervalCases

/-
  The civil calendar of the timestamps is the Gregorian one.

  Years are counted from March, so that a leap day is the
  last of its year. Four hundred years are an era of 146097
  days, and a day of an era is told apart as a century, four
  years, a year and a day of it.

  Key definitions include:
    * `When.civilFromDays`
    * `When.daysSteps`
    * `When.civilSteps`

  Main declarations:
    * `When.exactDays_eq`
    * `When.civilFromDays_eq`
-/

------------------------------------------------------------
-- Conversions
------------------------------------------------------------

namespace When

/- The values of an `i64`. -/
def FitsI64
    (x : Int) : Prop :=
  -2 ^ 63 ≤ x ∧ x < 2 ^ 63

instance (x : Int) : Decidable (FitsI64 x) :=
  inferInstanceAs (Decidable (-2 ^ 63 ≤ x ∧ x < 2 ^ 63))

/-
  The year, month and day of a day counted from 1970-01-01,
  in the arithmetic of an `i64`. Once the first sum is made
  no later step can leave the range.
-/
def civilFromDays
    (z : Int) : Int × Nat × Nat :=
  let z := Int.bmod (z + 719468) (2 ^ 64)
  let era := z / 146097
  let doe := z % 146097
  let yoe :=
    (doe - doe / 1460 + doe / 36524 - doe / 146096) / 365
  let y := yoe + era * 400
  let doy := doe - (365 * yoe + yoe / 4 - yoe / 100)
  let mp := (5 * doy + 2) / 153
  let d := (doy - (153 * mp + 2) / 5 + 1).toNat
  let m := (if mp < 10 then mp + 3 else mp - 9).toNat
  (if m ≤ 2 then y + 1 else y, m, d)

/- The days of a date, before they are cut to an `i64`. -/
def exactDays
    (y : Int)
    (m d : Nat) : Int :=
  let y := if m ≤ 2 then y - 1 else y
  let era := y / 400
  let yoe := y % 400
  let mp := ((m : Int) + 9) % 12
  let doy := (153 * mp + 2) / 5 + d - 1
  let doe := yoe * 365 + yoe / 4 - yoe / 100 + doy
  era * 146097 + doe - 719468

/- Every value that `days_from_civil` computes. -/
def daysSteps
    (y : Int)
    (m d : Nat) : List Int :=
  let y := if m ≤ 2 then y - 1 else y
  let era := y / 400
  let yoe := y % 400
  let mp := ((m : Int) + 9) % 12
  let doy := (153 * mp + 2) / 5 + d - 1
  let doe := yoe * 365 + yoe / 4 - yoe / 100 + doy
  [y, era, yoe, (m : Int) + 9, mp, 153 * mp, 153 * mp + 2,
    (153 * mp + 2) / 5, (153 * mp + 2) / 5 + d, doy,
    yoe * 365, yoe / 4, yoe * 365 + yoe / 4, yoe / 100,
    yoe * 365 + yoe / 4 - yoe / 100, doe, era * 146097,
    era * 146097 + doe, era * 146097 + doe - 719468]

/- Every value that `civil_from_days` computes. -/
def civilSteps
    (z : Int) : List Int :=
  let z := z + 719468
  let era := z / 146097
  let doe := z % 146097
  let yoe :=
    (doe - doe / 1460 + doe / 36524 - doe / 146096) / 365
  let y := yoe + era * 400
  let doy := doe - (365 * yoe + yoe / 4 - yoe / 100)
  let mp := (5 * doy + 2) / 153
  [z, era, doe, doe / 1460, doe - doe / 1460, doe / 36524,
    doe - doe / 1460 + doe / 36524, doe / 146096,
    doe - doe / 1460 + doe / 36524 - doe / 146096, yoe,
    era * 400, y, 365 * yoe, yoe / 4, 365 * yoe + yoe / 4,
    yoe / 100, 365 * yoe + yoe / 4 - yoe / 100, doy,
    5 * doy, 5 * doy + 2, mp, 153 * mp, 153 * mp + 2,
    (153 * mp + 2) / 5, doy - (153 * mp + 2) / 5,
    doy - (153 * mp + 2) / 5 + 1, mp + 3, mp - 9, y + 1]

theorem bmod_of_fits
    {x : Int}
    (hFits : FitsI64 x) :
    Int.bmod x (2 ^ 64) = x := by
  rcases hFits with ⟨hLow, hHigh⟩
  exact Int.bmod_eq_of_le (by omega) (by omega)

theorem daysFromCivil_eq
    {y : Int}
    {m d : Nat}
    (hFits : FitsI64 (exactDays y m d)) :
    daysFromCivil y m d = exactDays y m d :=
  bmod_of_fits hFits

end When

------------------------------------------------------------
-- Days Of An Era
------------------------------------------------------------

namespace When

/-
  A day of an era: century, four years, year and day. The
  366th day is the last year's of its four, and there is one
  in the last four of a century only in the last century.
-/
structure EraDay
    (c q k t : Int) : Prop where
  century : 0 ≤ c ∧ c ≤ 3
  quad : 0 ≤ q ∧ q ≤ 24
  year : 0 ≤ k ∧ k ≤ 3
  day : 0 ≤ t ∧ t ≤ 365
  leap : t = 365 → k = 3 ∧ (q < 24 ∨ c = 3)

theorem exists_eraDay
    {doe : Int}
    (hLow : 0 ≤ doe)
    (hHigh : doe < 146097) :
    ∃ c q k t,
      EraDay c q k t ∧
        doe = 36524 * c + 1461 * q + 365 * k + t := by
  have hCentury :
      ∃ c r, doe = 36524 * c + r ∧ 0 ≤ c ∧ c ≤ 3 ∧ 0 ≤ r ∧
        r ≤ 36524 ∧ (r = 36524 → c = 3) := by
    by_cases hLast : doe = 146096
    · exact ⟨3, 36524, by omega⟩
    · exact ⟨doe / 36524, doe % 36524, by omega⟩
  rcases hCentury with ⟨c, r, hDoe, hC, hC', hR, hR', hFull⟩
  have hQuad :
      ∃ q s, r = 1461 * q + s ∧ 0 ≤ q ∧ q ≤ 24 ∧ 0 ≤ s ∧
        s ≤ 1460 :=
    ⟨r / 1461, r % 1461, by omega⟩
  rcases hQuad with ⟨q, s, hSplit, hQ, hQ', hS, hS'⟩
  by_cases hLast : s = 1460
  · exact
      ⟨c, q, 3, 365,
        ⟨by omega, by omega, by omega, by omega, by omega⟩,
        by omega⟩
  · exact
      ⟨c, q, s / 365, s % 365,
        ⟨by omega, by omega, by omega, by omega, by omega⟩,
        by omega⟩

namespace EraDay

variable {c q k t : Int}

/- The year of the era is told by the day of the era. -/
theorem yoe_eq
    (hDay : EraDay c q k t)
    {doe : Int}
    (hDoe : doe = 36524 * c + 1461 * q + 365 * k + t) :
    (doe - doe / 1460 + doe / 36524 - doe / 146096) / 365 =
      100 * c + 4 * q + k := by
  rcases hDay with
    ⟨⟨hC, hC'⟩, ⟨hQ, hQ'⟩, ⟨hK, hK'⟩, ⟨hT, hT'⟩, hLeap⟩
  have hCentury :
      doe / 36524 = c ∨
        (doe = 146096 ∧ doe / 36524 = c + 1) := by
    omega
  have hLast : doe / 146096 = 0 ∨ doe = 146096 := by
    omega
  omega

theorem doy_eq
    (hDay : EraDay c q k t)
    {doe yoe : Int}
    (hDoe : doe = 36524 * c + 1461 * q + 365 * k + t)
    (hYoe : yoe = 100 * c + 4 * q + k) :
    doe - (365 * yoe + yoe / 4 - yoe / 100) = t := by
  rcases hDay with
    ⟨⟨hC, hC'⟩, ⟨hQ, hQ'⟩, ⟨hK, hK'⟩, -, -⟩
  omega

theorem yoe_lt
    (hDay : EraDay c q k t)
    {yoe : Int}
    (hYoe : yoe = 100 * c + 4 * q + k) :
    0 ≤ yoe ∧ yoe < 400 := by
  rcases hDay with
    ⟨⟨hC, hC'⟩, ⟨hQ, hQ'⟩, ⟨hK, hK'⟩, -, -⟩
  omega

/- The 366th day falls before March of a leap year. -/
theorem isLeap
    (hDay : EraDay c q k t)
    (hLast : t = 365)
    (era : Int) :
    Calendar.IsLeap
      (100 * c + 4 * q + k + era * 400 + 1) := by
  rcases hDay with ⟨⟨hC, hC'⟩, ⟨hQ, hQ'⟩, -, -, hLeap⟩
  rcases hLeap hLast with ⟨rfl, hCentury⟩
  unfold Calendar.IsLeap
  omega

end EraDay

end When

------------------------------------------------------------
-- Dates And Numbers
------------------------------------------------------------

namespace When

open Calendar

/- The days before a month, by the number it has from March. -/
theorem monthStart_eq
    (y : Int)
    {m : Nat}
    (hPos : 1 ≤ m)
    (hLe : m ≤ 12) :
    (monthStart y m : Int) =
      (153 * (((m : Int) + 9) % 12) + 2) / 5 +
        if m ≤ 2 then -306 else 31 + (daysIn y 2 : Int) := by
  interval_cases m <;> simp [monthStart, daysIn] <;> omega

/- The days of a date are its number in the calendar. -/
theorem exactDays_eq
    (y : Int)
    {m : Nat}
    (d : Nat)
    (hPos : 1 ≤ m)
    (hLe : m ≤ 12) :
    exactDays y m d = dayNumber y m d := by
  unfold exactDays dayNumber
  rw [monthStart_eq y hPos hLe]
  unfold yearStart leapsThrough
  dsimp only
  by_cases hLeap : IsLeap y
  · rw [daysIn_two_of_leap hLeap]
    unfold IsLeap at hLeap
    split
    · omega
    · omega
  · rw [daysIn_two_of_not_leap hLeap]
    unfold IsLeap at hLeap
    split
    · omega
    · omega

/- A day of a year from March is a day of a month. -/
theorem exists_date
    {t : Int}
    (hDay : 0 ≤ t ∧ t ≤ 365)
    {y : Int}
    (hLast : t = 365 → IsLeap (y + 1)) :
    ∃ date : Date,
      (date.month : Int) =
          (if (5 * t + 2) / 153 < 10 then (5 * t + 2) / 153 + 3
          else (5 * t + 2) / 153 - 9) ∧
        (date.day : Int) =
          t - (153 * ((5 * t + 2) / 153) + 2) / 5 + 1 ∧
        date.year = if date.month ≤ 2 then y + 1 else y := by
  rcases hDay with ⟨hLow, hHigh⟩
  have hMonth :
      ∃ m : Nat,
        (m : Int) =
            (if (5 * t + 2) / 153 < 10 then
              (5 * t + 2) / 153 + 3
            else (5 * t + 2) / 153 - 9) ∧
          1 ≤ m ∧ m ≤ 12 :=
    ⟨(if (5 * t + 2) / 153 < 10 then (5 * t + 2) / 153 + 3
      else (5 * t + 2) / 153 - 9).toNat,
      by split <;> omega, by split <;> omega,
      by split <;> omega⟩
  have hDate :
      ∃ d : Nat,
        (d : Int) =
            t - (153 * ((5 * t + 2) / 153) + 2) / 5 + 1 ∧
          1 ≤ d :=
    ⟨(t - (153 * ((5 * t + 2) / 153) + 2) / 5 + 1).toNat,
      by omega, by omega⟩
  rcases hMonth with ⟨m, hM, hMPos, hMLe⟩
  rcases hDate with ⟨d, hD, hDPos⟩
  have hDLe : d ≤ daysIn (if m ≤ 2 then y + 1 else y) m := by
    by_cases hTwo : m = 2
    · rw [if_pos (by omega), hTwo]
      by_cases hLeap : IsLeap (y + 1)
      · rw [daysIn_two_of_leap hLeap]
        split at hM <;> omega
      · rw [daysIn_two_of_not_leap hLeap]
        have hNot : t ≠ 365 := fun hEnd => hLeap (hLast hEnd)
        split at hM <;> omega
    · unfold daysIn
      rw [if_neg hTwo]
      split
      · split at hM <;> omega
      · split at hM <;> omega
  exact
    ⟨{ year := if m ≤ 2 then y + 1 else y
       month := m
       day := d
       month_pos := hMPos
       month_le := hMLe
       day_pos := hDPos
       day_le := hDLe }, hM, hD, rfl⟩

/- The day that a number of days comes to. -/
theorem civilFromDays_eq
    {z : Int}
    (hFits : FitsI64 (z + 719468)) :
    ∃ date : Date,
      civilFromDays z = (date.year, date.month, date.day) ∧
        date.number = z := by
  have hEra :
      ∃ era doe, z + 719468 = era * 146097 + doe ∧ 0 ≤ doe ∧
        doe < 146097 ∧ (z + 719468) / 146097 = era ∧
        (z + 719468) % 146097 = doe :=
    ⟨(z + 719468) / 146097, (z + 719468) % 146097,
      by omega, by omega, by omega, rfl, rfl⟩
  rcases hEra with ⟨era, doe, hZ, hLow, hHigh, hDiv, hMod⟩
  rcases exists_eraDay hLow hHigh with ⟨c, q, k, t, hDay, hDoe⟩
  have hYoe := hDay.yoe_eq hDoe
  have hDoy := hDay.doy_eq hDoe rfl
  have hRange := hDay.yoe_lt rfl
  rcases
    exists_date hDay.day (y := 100 * c + 4 * q + k + era * 400)
      (fun hLast => hDay.isLeap hLast era) with
    ⟨date, hMonth, hDate, hYear⟩
  refine ⟨date, ?_, ?_⟩
  · unfold civilFromDays
    rw [bmod_of_fits hFits]
    simp only [hDiv, hMod, hYoe, hDoy]
    rw [← hMonth, ← hDate, hYear]
    rfl
  · unfold Date.number
    rw [← exactDays_eq date.year date.day date.month_pos
      date.month_le]
    have hMarch :
        (if date.month ≤ 2 then date.year - 1 else date.year) =
          100 * c + 4 * q + k + era * 400 := by
      rw [hYear]
      split <;> omega
    have hOrdinal :
        ((date.month : Int) + 9) % 12 = (5 * t + 2) / 153 := by
      have hBounds := hDay.day
      rw [hMonth]
      split <;> omega
    have hEraOf :
        (100 * c + 4 * q + k + era * 400) / 400 = era := by
      omega
    have hYearOf :
        (100 * c + 4 * q + k + era * 400) % 400 =
          100 * c + 4 * q + k := by
      omega
    unfold exactDays
    dsimp only
    rw [hMarch, hOrdinal, hEraOf, hYearOf]
    omega

/- No step leaves an `i64` unless the days of the date do. -/
theorem daysSteps_fit
    {y : Int}
    {m d : Nat}
    (hMonth : 1 ≤ m ∧ m ≤ 12)
    (hDay : 1 ≤ d ∧ d ≤ 31)
    (hLow : -2 ^ 63 ≤ exactDays y m d)
    (hHigh : exactDays y m d + 719468 < 2 ^ 63) :
    ∀ x ∈ daysSteps y m d, FitsI64 x := by
  unfold exactDays at hLow hHigh
  unfold daysSteps FitsI64
  dsimp only at hLow hHigh ⊢
  generalize (if m ≤ 2 then y - 1 else y) = y' at hLow hHigh ⊢
  have hYoe := Int.emod_nonneg y' (show (400 : Int) ≠ 0 by decide)
  have hYoe' :=
    Int.emod_lt_of_pos y' (show (0 : Int) < 400 by decide)
  have hEra := Int.ediv_mul_add_emod y' 400
  generalize y' / 400 = era at hLow hHigh hEra ⊢
  generalize y' % 400 = yoe at hLow hHigh hYoe hYoe' hEra ⊢
  intro x hMem
  simp only [List.mem_cons, List.not_mem_nil, or_false] at hMem
  rcases hMem with
    rfl | rfl | rfl | rfl | rfl | rfl | rfl | rfl | rfl | rfl |
    rfl | rfl | rfl | rfl | rfl | rfl | rfl | rfl | rfl
  all_goals omega

/- The day of a date is that date. -/
theorem civilFromDays_number
    {date : Date}
    (hFits : FitsI64 (date.number + 719468)) :
    civilFromDays date.number =
      (date.year, date.month, date.day) := by
  rcases civilFromDays_eq hFits with ⟨date', hCivil, hSame⟩
  rw [hCivil, Date.number_inj hSame]

theorem exactDays_date
    (date : Date) :
    exactDays date.year date.month date.day = date.number :=
  exactDays_eq date.year date.day date.month_pos date.month_le

end When
