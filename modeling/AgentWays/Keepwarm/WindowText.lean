import AgentWays.Keepwarm.Windows
import AgentWays.Lib.Utf8

/-
  One entry of the keepalive windows read from its text:
  days, and the times of a span, `Mon-Fri 9:00-17:30`.

  Key definitions include:
    * `Keepwarm.parseDays`
    * `Keepwarm.parseTime`
    * `Keepwarm.parseWindow`
-/

------------------------------------------------------------
-- Days
------------------------------------------------------------

namespace Keepwarm

open RustText

/- `DAYS`. -/
def dayNames : List String :=
  ["mon", "tue", "wed", "thu", "fri", "sat", "sun"]

/- `str::to_ascii_lowercase`. -/
def asciiLowercase
    (s : String) : String :=
  String.ofList (s.toList.map Char.toLower)

def dayIndex
    (s : String) : Option Nat :=
  dayNames.findIdx? (fun d => d = asciiLowercase s)

/- The days from one on to another, around the week. -/
def daysFrom : Nat → Nat → Nat → BitVec 8
| 0, _, _ => 0#8
| fuel + 1, d, last =>
    if d = last then BitVec.twoPow 8 d
    else
      BitVec.twoPow 8 d ||| daysFrom fuel ((d + 1) % 7) last

def notADay
    (s : String) : String :=
  "`" ++ s ++ "` is not a day (Mon to Sun, or daily)"

def parseDays
    (s : String) : Except String (BitVec 8) :=
  if eqIgnoreAsciiCase s "daily" then .ok 0x7f#8
  else
    let ends := (splitOnce s '-').getD (s, s)
    match dayIndex ends.1 with
    | none => .error (notADay ends.1)
    | some a =>
        match dayIndex ends.2 with
        | none => .error (notADay ends.2)
        | some b => .ok (daysFrom 7 a b)

end Keepwarm

------------------------------------------------------------
-- Times
------------------------------------------------------------

namespace Keepwarm

open RustText

def notATime
    (s : String) : String :=
  "`" ++ s ++ "` is not a time (HH:MM)"

/- A time of day in minutes; the day's end only as an end. -/
def parseTime
    (s : String)
    (isEnd : Bool) : Except String Nat :=
  match splitOnce s ':' with
  | none => .error (notATime s)
  | some (h, m) =>
      if h.isEmpty ∨ Utf8.size h.toList > 2 ∨
          Utf8.size m.toList ≠ 2 then
        .error (notATime s)
      else
        match parseUnsigned 16 h, parseUnsigned 16 m with
        | some h, some m =>
            if m > 59 then .error (notATime s)
            else
              let t := h * 60 + m
              if t = 1440 then
                if isEnd then .ok t
                else .error "24:00 only closes a window"
              else if t > 1440 then .error (notATime s)
              else .ok t
        | _, _ => .error (notATime s)

/- One entry, its days and its span. -/
def parseWindow
    (text : String) : Except String Window :=
  match splitWhitespace text with
  | [days, span] =>
      match parseDays days with
      | .error e => .error e
      | .ok mask =>
          match splitOnce span '-' with
          | none =>
              .error "the times are `<HH:MM>-<HH:MM>`"
          | some (a, b) =>
              match parseTime a false with
              | .error e => .error e
              | .ok start =>
                  match parseTime b true with
                  | .error e => .error e
                  | .ok stop =>
                      if start = stop then
                        .error
                          ("the window is empty: its end " ++
                            "is its start")
                      else
                        .ok
                          { days := mask
                            start := start
                            stop := stop
                            text := days ++ " " ++ span }
  | _ => .error "an entry is `<days> <HH:MM>-<HH:MM>`"

end Keepwarm
