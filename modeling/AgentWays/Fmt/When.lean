import AgentWays.Lib.RustText
import Mathlib.Data.Int.DivMod

/-
  Timestamps in text, and the civil calendar behind them.

  Key definitions include:
    * `When.daysFromCivil`
    * `When.parseUtcIso`
-/

------------------------------------------------------------
-- Timestamps
------------------------------------------------------------

namespace When

/-
  The days from 1970-01-01 to a date, in the arithmetic of
  an `i64`. Every step is exact or a sum or a product of
  exact values, so wrapping the result is wrapping each.
-/
def daysFromCivil
    (y : Int)
    (m d : Nat) : Int :=
  let y := if m ≤ 2 then y - 1 else y
  let era := y / 400
  let yoe := y % 400
  let mp := ((m : Int) + 9) % 12
  let doy := (153 * mp + 2) / 5 + d - 1
  let doe := yoe * 365 + yoe / 4 - yoe / 100 + doy
  Int.bmod (era * 146097 + doe - 719468) (2 ^ 64)

/- The hour, minute and second of a time of day. -/
def timeOfDay
    (time : String) : Option (Nat × Nat × Nat) :=
  match RustText.split time ':' with
  | [hh, mm, ss] => do
      let hh ← RustText.parseUnsigned 64 hh
      let mm ← RustText.parseUnsigned 64 mm
      let ss ← RustText.parseUnsigned 64 ss
      if 23 < hh ∨ 59 < mm ∨ 60 < ss then none
      else some (hh, mm, ss)
  | _ => none

/-
  The year, month and day of a date. The text was cut at
  each dash, so the year has no sign but a plus.
-/
def civilDate
    (date : String) : Option (Nat × Nat × Nat) :=
  match RustText.split date '-' with
  | [y, m, day] => do
      let y ← RustText.parseUnsigned 63 y
      let m ← RustText.parseUnsigned 32 m
      let day ← RustText.parseUnsigned 32 day
      if m < 1 ∨ 12 < m ∨ day < 1 ∨ 31 < day then none
      else some (y, m, day)
  | _ => none

/-
  The Unix second of a UTC time. A missing zone or an
  offset is refused, a fraction is dropped, and so is
  anything before 1970.
-/
def parseUtcIso
    (s : String) : Option Nat := do
  let s ← RustText.stripSuffix (RustText.trim s) "Z"
  let (date, time) ← RustText.splitOnce s 'T'
  let (y, m, day) ← civilDate date
  let time ← (RustText.split time '.').head?
  let (hh, mm, ss) ← timeOfDay time
  let days := daysFromCivil y m day
  if days < 0 then none
  else
    some
      ((days.toNat * 86400 + hh * 3600 + mm * 60 + ss) %
        2 ^ 64)

example :
    parseUtcIso "2027-01-15T08:00:00.25Z" =
      some 1800000000 := by
  decide

end When
