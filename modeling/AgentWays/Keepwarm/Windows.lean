import AgentWays.Lib.RustText

/-
  The keepalive policy's time windows.

  The zone is the time library's: from epoch seconds to the
  civil time there, or nothing outside the range the library
  can represent. It stays a parameter of the windows.

  Key definitions include:
    * `Keepwarm.Zone`
    * `Keepwarm.Window.contains`
    * `Keepwarm.Windows.contains`
    * `Keepwarm.Windows.hm`
    * `Keepwarm.allDay`, the default list in one month
-/

namespace Keepwarm

open RustText

/- A civil time; `weekday` counts from Monday. -/
structure Civil where
  year : Nat
  month : Nat
  day : Nat
  weekday : Nat
  hour : Nat
  minute : Nat

/- A time zone: the civil time at each second. -/
abbrev Zone := Nat → Option Civil

/- One window entry; Monday is bit 0 of `days`. -/
structure Window where
  days : BitVec 8
  start : Nat
  stop : Nat
  text : String
deriving DecidableEq

/- Whether the minute `m` of weekday `day` is inside. -/
def Window.contains
    (w : Window)
    (day m : Nat) : Bool :=
  if w.start < w.stop then
    w.days.getLsbD day && decide (w.start ≤ m) &&
      decide (m < w.stop)
  else
    -- The window crosses midnight: its day from the start,
    -- and the next morning up to the end.
    (w.days.getLsbD day && decide (m ≥ w.start)) ||
      (w.days.getLsbD ((day + 6) % 7) &&
        decide (m < w.stop))

/- The windows in force and the zone they are read in. -/
structure Windows where
  list : List Window
  tz : Zone

namespace Windows

/- Weekday and minute of the day at `epoch`. -/
def civil
    (w : Windows)
    (epoch : Nat) : Option (Nat × Nat) :=
  (w.tz epoch).map
    (fun z => (z.weekday, z.hour * 60 + z.minute))

def contains
    (w : Windows)
    (epoch : Nat) : Bool :=
  match w.civil epoch with
  | none => false
  | some (day, m) => w.list.any (fun x => x.contains day m)

/- `HH:MM` at `epoch`. -/
def hm
    (w : Windows)
    (epoch : Nat) : String :=
  match w.tz epoch with
  | some z => pad2 z.hour ++ ":" ++ pad2 z.minute
  | none => "--:--"

/- `YYYY-MM-DD` at `epoch`. -/
def date
    (w : Windows)
    (epoch : Nat) : String :=
  match w.tz epoch with
  | some z =>
      pad4 z.year ++ "-" ++ pad2 z.month ++ "-" ++
        pad2 z.day
  | none => "0000-00-00"

def describe
    (w : Windows) : String :=
  if w.list.isEmpty then "none"
  else String.intercalate ", " (w.list.map Window.text)

end Windows

/- UTC, right for the seconds of January 1970. -/
def januaryUtc : Zone :=
  fun t =>
    some
      { year := 1970
        month := 1
        day := t / 86400 + 1
        weekday := (t / 86400 + 3) % 7
        hour := t % 86400 / 3600
        minute := t % 3600 / 60 }

/- The default list: every day, all of it. -/
def allDay : Windows :=
  { list :=
      [ { days := 0x7f#8
          start := 0
          stop := 1440
          text := "daily 00:00-24:00" } ]
    tz := januaryUtc }

end Keepwarm
