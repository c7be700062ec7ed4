import AgentWays.Keepwarm.WindowText
import AgentWays.Lib.Decimal
import AgentWays.Lib.TextSpec

/-
  An entry of the windows is accepted where it is of the
  documented grammar, but for numbers with a plus sign, and
  an accepted entry contains the minutes it says.

  Key definitions include:
    * `Keepwarm.Entry`
    * `Keepwarm.Covers`
    * `Keepwarm.Documented`
    * `Keepwarm.Signed`

  Main declarations:
    * `Keepwarm.parseWindow_eq_ok_iff`
    * `Keepwarm.contains_iff_covers`
    * `Keepwarm.windowGrammar`
-/

------------------------------------------------------------
-- The Grammar
------------------------------------------------------------

namespace Keepwarm

open RustText

/- A day word, and the first and the last of its days. -/
inductive DayWord : String → Nat → Nat → Prop
| daily
    {s : String} :
    eqIgnoreAsciiCase s "daily" = true → DayWord s 0 6
| one
    {s : String}
    {k : Nat} :
    dayIndex s = some k → DayWord s k k
| range
    {s a b : String}
    {j k : Nat} :
    s.toList = a.toList ++ '-' :: b.toList →
      dayIndex a = some j →
        dayIndex b = some k → DayWord s j k

/- Decimal digits, where `signed` after a plus sign too. -/
def Number
    (signed : Bool)
    (digits : List Char) : Prop :=
  (digits ≠ [] ∧ ∀ c ∈ digits, c.isDigit = true) ∨
    (signed = true ∧
      ∃ rest, digits = '+' :: rest ∧ rest ≠ [] ∧
        ∀ c ∈ rest, c.isDigit = true)

def numberValue : List Char → Nat
| '+' :: rest => digitsValue rest
| digits => digitsValue digits

/- One or two for the hour, two for the minute, below 60. -/
structure Clock
    (signed : Bool)
    (s : String)
    (hour minute : List Char) : Prop where
  text : s.toList = hour ++ ':' :: minute
  isHour : Number signed hour
  short : hour.length ≤ 2
  isMinute : Number signed minute
  two : minute.length = 2
  below : numberValue minute ≤ 59

/- The minute of the day that an hour and a minute say. -/
def minuteOf
    (hour minute : List Char) : Nat :=
  numberValue hour * 60 + numberValue minute

/- An entry: two words, days from one on and a span. -/
def Entry
    (signed : Bool)
    (text : String)
    (first last start stop : Nat) : Prop :=
  ∃ days span a b h m h' m',
    splitWhitespace text = [days, span] ∧
      DayWord days first last ∧
      span.toList = a.toList ++ '-' :: b.toList ∧
      Clock signed a h m ∧ start = minuteOf h m ∧
      Clock signed b h' m' ∧ stop = minuteOf h' m' ∧
      start < 1440 ∧ stop ≤ 1440 ∧ start ≠ stop

end Keepwarm

------------------------------------------------------------
-- Days
------------------------------------------------------------

namespace Keepwarm

open RustText

theorem dayIndex_lt
    {s : String}
    {k : Nat}
    (hIndex : dayIndex s = some k) :
    k < 7 := by
  exact (List.findIdx?_eq_some_iff_getElem.mp hIndex).1

/- Some day on from the first, as far as the last, is a day. -/
def InDays
    (first last k : Nat) : Prop :=
  k < 7 ∧ (k + 7 - first) % 7 ≤ (last + 7 - first) % 7

theorem daysFrom_getLsbD
    {first last k : Nat}
    (hFirst : first < 7)
    (hLast : last < 7)
    (hK : k < 7) :
    (daysFrom 7 first last).getLsbD k = true ↔
      InDays first last k := by
  have hAll :
      ∀ a b c : Fin 7,
        (daysFrom 7 a b).getLsbD c = true ↔
          (c.1 + 7 - a.1) % 7 ≤ (b.1 + 7 - a.1) % 7 := by
    decide
  unfold InDays
  rw [hAll ⟨first, hFirst⟩ ⟨last, hLast⟩ ⟨k, hK⟩]
  exact ⟨fun hLe => ⟨hK, hLe⟩, And.right⟩

/- A day word is read as its days, and nothing else is. -/
theorem parseDays_ok
    {s : String}
    {mask : BitVec 8}
    (hParse : parseDays s = .ok mask) :
    ∃ first last,
      DayWord s first last ∧ first < 7 ∧ last < 7 ∧
        mask = daysFrom 7 first last := by
  unfold parseDays at hParse
  split at hParse
  · rename_i hDaily
    cases hParse
    exact ⟨0, 6, .daily hDaily, by omega, by omega, by decide⟩
  · simp only at hParse
    cases hSplit : splitOnce s '-' with
    | none =>
        simp only [hSplit, Option.getD_none] at hParse
        cases hDay : dayIndex s with
        | none =>
            rw [hDay] at hParse
            cases hParse
        | some k =>
            simp only [hDay] at hParse
            cases hParse
            have hLt := dayIndex_lt hDay
            exact ⟨k, k, .one hDay, hLt, hLt, rfl⟩
    | some ends =>
        simp only [hSplit, Option.getD_some] at hParse
        cases hFirst : dayIndex ends.1 with
        | none =>
            rw [hFirst] at hParse
            cases hParse
        | some j =>
            cases hLast : dayIndex ends.2 with
            | none =>
                simp only [hFirst, hLast] at hParse
                cases hParse
            | some k =>
                simp only [hFirst, hLast] at hParse
                cases hParse
                have hText :=
                  (splitOnce_eq_some
                    (a := ends.1) (b := ends.2) hSplit).1
                exact
                  ⟨j, k, .range hText hFirst hLast,
                    dayIndex_lt hFirst, dayIndex_lt hLast, rfl⟩

/- A day's name has no dash, and is not that of all days. -/
theorem name_of_dayIndex
    {s : String}
    {k : Nat}
    (hIndex : dayIndex s = some k) :
    '-' ∉ s.toList ∧ eqIgnoreAsciiCase s "daily" = false := by
  have hNames :
      ∀ d ∈ dayNames,
        '-' ∉ d.toList ∧
          d.toList ≠ ['d', 'a', 'i', 'l', 'y'] := by
    decide
  rcases List.findIdx?_eq_some_iff_getElem.mp hIndex with
    ⟨hLt, hName, -⟩
  have hName := of_decide_eq_true hName
  have hThis := hNames _ (List.getElem_mem hLt)
  rw [hName] at hThis
  simp only [asciiLowercase, String.toList_ofList] at hThis
  constructor
  · intro hDash
    exact hThis.1 (List.mem_map.mpr ⟨'-', hDash, by decide⟩)
  · simp only [eqIgnoreAsciiCase, beq_eq_false_iff_ne]
    exact hThis.2

theorem splitOnce_eq_none
    {s : String}
    {c : Char}
    (hOut : c ∉ s.toList) :
    splitOnce s c = none := by
  cases hSplit : splitOnce s c with
  | none => rfl
  | some ends =>
      have hText :=
        (splitOnce_eq_some (a := ends.1) (b := ends.2) hSplit).1
      exact absurd (by rw [hText]; simp) hOut

theorem splitOnce_of_toList
    {s a b : String}
    {c : Char}
    (hText : s.toList = a.toList ++ c :: b.toList)
    (hOut : c ∉ a.toList) :
    splitOnce s c = some (a, b) := by
  have hWhole :
      s = a ++ String.ofList [c] ++ b := by
    apply String.toList_inj.mp
    simp [hText]
  rw [hWhole]
  exact splitOnce_append (by simp) hOut

theorem parseDays_of_dayWord
    {s : String}
    {first last : Nat}
    (hWord : DayWord s first last) :
    parseDays s = .ok (daysFrom 7 first last) ∧
      first < 7 ∧ last < 7 := by
  cases hWord with
  | daily hDaily =>
      refine ⟨?_, by omega, by omega⟩
      unfold parseDays
      rw [if_pos hDaily]
      decide
  | one hDay =>
      have hName := name_of_dayIndex hDay
      have hLt := dayIndex_lt hDay
      refine ⟨?_, hLt, hLt⟩
      unfold parseDays
      rw [if_neg (by simp [hName.2]),
        splitOnce_eq_none hName.1]
      simp only [Option.getD_none, hDay]
  | range hText hFirst hLast =>
      rename_i a b
      have hName := name_of_dayIndex hFirst
      refine ⟨?_, dayIndex_lt hFirst, dayIndex_lt hLast⟩
      have hDaily : eqIgnoreAsciiCase s "daily" = false := by
        have hDash : '-' ∈ s.toList := by
          rw [hText]
          simp
        rw [eqIgnoreAsciiCase, beq_eq_false_iff_ne]
        intro hSame
        have hIn : '-' ∈ s.toList.map Char.toLower :=
          List.mem_map.mpr ⟨'-', hDash, by decide⟩
        rw [hSame] at hIn
        exact absurd hIn (by decide)
      unfold parseDays
      rw [if_neg (by simp [hDaily]),
        splitOnce_of_toList hText hName.1]
      simp only [Option.getD_some, hFirst, hLast]

end Keepwarm

------------------------------------------------------------
-- Times
------------------------------------------------------------

namespace Keepwarm

open RustText

theorem utf8Size_of_isDigit
    {c : Char}
    (hDigit : c.isDigit = true) :
    c.utf8Size = 1 := by
  have hRange := digit_range hDigit
  rw [Char.utf8Size_eq_one_iff]
  exact UInt32.le_iff_toNat_le.mpr (by
    change c.toNat ≤ 127
    omega)

theorem size_of_digits
    {digits : List Char}
    (hDigits : ∀ c ∈ digits, c.isDigit = true) :
    Utf8.size digits = digits.length := by
  induction digits with
  | nil => rfl
  | cons c rest ih =>
      rw [Utf8.size_cons, List.length_cons,
        utf8Size_of_isDigit (hDigits c List.mem_cons_self),
        ih (fun d hD => hDigits d (List.mem_cons_of_mem c hD))]
      omega

theorem Number.size_eq
    {signed : Bool}
    {digits : List Char}
    (hNumber : Number signed digits) :
    Utf8.size digits = digits.length := by
  rcases hNumber with ⟨-, hDigits⟩ | ⟨-, rest, rfl, -, hDigits⟩
  · exact size_of_digits hDigits
  · rw [Utf8.size_cons, size_of_digits hDigits,
      List.length_cons]
    have hPlus : ('+' : Char).utf8Size = 1 := by decide
    omega

theorem Number.ne_nil
    {signed : Bool}
    {digits : List Char}
    (hNumber : Number signed digits) :
    digits ≠ [] := by
  rcases hNumber with ⟨hSome, -⟩ | ⟨-, rest, rfl, -, -⟩
  · exact hSome
  · exact List.cons_ne_nil '+' rest

theorem Number.not_mem
    {signed : Bool}
    {digits : List Char}
    (hNumber : Number signed digits)
    {c : Char}
    (hDigit : c.isDigit = false)
    (hPlus : c ≠ '+') :
    c ∉ digits := by
  intro hMember
  rcases hNumber with ⟨-, hDigits⟩ | ⟨-, rest, rfl, -, hDigits⟩
  · rw [hDigits c hMember] at hDigit
    cases hDigit
  · rcases List.mem_cons.mp hMember with hHead | hRest
    · exact hPlus hHead
    · rw [hDigits c hRest] at hDigit
      cases hDigit

/- A number of one or two digits is below a hundred. -/
theorem digitsValue_lt_hundred
    {digits : List Char}
    (hDigits : Digits digits)
    (hShort : digits.length ≤ 2) :
    digitsValue digits < 100 :=
  Nat.lt_of_lt_of_le (digitsValue_lt hDigits)
    (Nat.pow_le_pow_right (by decide) hShort)

theorem numberValue_of_digits
    {digits : List Char}
    (hDigits : ∀ c ∈ digits, c.isDigit = true) :
    numberValue digits = digitsValue digits := by
  unfold numberValue
  split
  · rename_i rest
    have hPlus := hDigits '+' List.mem_cons_self
    exact absurd hPlus (by decide)
  · rfl

theorem Number.value_lt
    {signed : Bool}
    {digits : List Char}
    (hNumber : Number signed digits)
    (hShort : digits.length ≤ 2) :
    numberValue digits < 100 := by
  rcases hNumber with ⟨-, hDigits⟩ | ⟨-, rest, rfl, -, hDigits⟩
  · rw [numberValue_of_digits hDigits]
    exact digitsValue_lt_hundred hDigits hShort
  · rw [List.length_cons] at hShort
    exact digitsValue_lt_hundred hDigits (by omega)

theorem decimal_iff
    {n : Nat}
    {digits : List Char} :
    Decimal digits n ↔
      Number true digits ∧ n = numberValue digits := by
  constructor
  · rintro ⟨rest, rfl | rfl, hSome, hDigits, hValue⟩
    · rw [numberValue_of_digits hDigits]
      exact ⟨Or.inl ⟨hSome, hDigits⟩, hValue⟩
    · exact
        ⟨Or.inr ⟨rfl, rest, rfl, hSome, hDigits⟩, hValue⟩
  · rintro ⟨⟨hSome, hDigits⟩ | ⟨-, rest, rfl, hSome, hDigits⟩,
      hValue⟩
    · rw [numberValue_of_digits hDigits] at hValue
      exact ⟨digits, Or.inl rfl, hSome, hDigits, hValue⟩
    · exact ⟨rest, Or.inr rfl, hSome, hDigits, hValue⟩

/- The integer parser takes digits, after a plus sign too. -/
theorem parseUnsigned_eq_some_iff
    {bits n : Nat}
    {s : String} :
    parseUnsigned bits s = some n ↔
      Number true s.toList ∧ n = numberValue s.toList ∧
        n < 2 ^ bits := by
  rw [parseUnsigned_iff, decimal_iff, and_assoc]

/- A time is accepted where it is on the clock. -/
theorem parseTime_eq_ok_iff
    {s : String}
    {isEnd : Bool}
    {t : Nat} :
    parseTime s isEnd = .ok t ↔
      ∃ h m, Clock true s h m ∧ t = minuteOf h m ∧
        (t < 1440 ∨ (isEnd = true ∧ t = 1440)) := by
  constructor
  · intro hParse
    unfold parseTime at hParse
    split at hParse
    · cases hParse
    · rename_i h m hSplit
      have hText := (splitOnce_eq_some hSplit).1
      split at hParse
      · cases hParse
      · rename_i hSizes
        simp only [not_or, Nat.not_lt, not_not] at hSizes
        split at hParse
        · rename_i hour minute hHour hMinute
          rcases parseUnsigned_eq_some_iff.mp hHour with
            ⟨hIsHour, hHourValue, -⟩
          rcases parseUnsigned_eq_some_iff.mp hMinute with
            ⟨hIsMinute, hMinuteValue, -⟩
          rw [hIsHour.size_eq, hIsMinute.size_eq] at hSizes
          split at hParse
          · cases hParse
          · rename_i hBelow
            have hClock :
                Clock true s h.toList m.toList :=
              ⟨hText, hIsHour, hSizes.2.1, hIsMinute,
                hSizes.2.2, by omega⟩
            refine ⟨h.toList, m.toList, hClock, ?_⟩
            unfold minuteOf
            rw [← hHourValue, ← hMinuteValue]
            simp only at hParse
            split at hParse
            · rename_i hDay
              split at hParse
              · rename_i hEnd
                cases hParse
                exact ⟨rfl, Or.inr ⟨hEnd, hDay⟩⟩
              · cases hParse
            · rename_i hDay
              split at hParse
              · cases hParse
              · cases hParse
                exact ⟨rfl, Or.inl (by omega)⟩
        · cases hParse
  · rintro ⟨h, m, hClock, rfl, hBound⟩
    have hSplit :
        splitOnce s ':' =
          some (String.ofList h, String.ofList m) := by
      apply splitOnce_of_toList
      · rw [hClock.text]
        simp
      · rw [String.toList_ofList]
        exact
          hClock.isHour.not_mem (by decide) (by decide)
    have hHour :
        parseUnsigned 16 (String.ofList h) =
          some (numberValue h) := by
      rw [parseUnsigned_eq_some_iff, String.toList_ofList]
      have hLt := hClock.isHour.value_lt hClock.short
      exact ⟨hClock.isHour, rfl, by omega⟩
    have hMinute :
        parseUnsigned 16 (String.ofList m) =
          some (numberValue m) := by
      rw [parseUnsigned_eq_some_iff, String.toList_ofList]
      have hLe := hClock.below
      exact ⟨hClock.isMinute, rfl, by omega⟩
    have hSizes :
        ¬((String.ofList h).isEmpty ∨
          Utf8.size (String.ofList h).toList > 2 ∨
            Utf8.size (String.ofList m).toList ≠ 2) := by
      rw [String.toList_ofList, String.toList_ofList,
        hClock.isHour.size_eq, hClock.isMinute.size_eq,
        hClock.two, String.isEmpty_iff]
      rintro (hEmpty | hLong | hTwo)
      · apply hClock.isHour.ne_nil
        have hList := congrArg String.toList hEmpty
        simpa using hList
      · have hShort := hClock.short
        omega
      · exact hTwo rfl
    unfold parseTime
    simp only [hSplit, if_neg hSizes, hHour, hMinute]
    rw [if_neg (Nat.not_lt.mpr hClock.below)]
    unfold minuteOf at hBound ⊢
    rcases hBound with hLt | ⟨hEnd, hDay⟩
    · rw [if_neg (by omega), if_neg (by omega)]
    · rw [if_pos hDay, if_pos hEnd]

end Keepwarm

------------------------------------------------------------
-- Entries
------------------------------------------------------------

namespace Keepwarm

open RustText

/- An entry is accepted where it is of the grammar. -/
theorem parseWindow_eq_ok
    {text : String}
    {w : Window}
    (hParse : parseWindow text = .ok w) :
    ∃ first last,
      Entry true text first last w.start w.stop ∧
        first < 7 ∧ last < 7 ∧
          w.days = daysFrom 7 first last := by
  unfold parseWindow at hParse
  split at hParse
  · rename_i days span hWords
    split at hParse
    · cases hParse
    · rename_i mask hDays
      split at hParse
      · cases hParse
      · rename_i a b hSplit
        split at hParse
        · cases hParse
        · rename_i start hStart
          split at hParse
          · cases hParse
          · rename_i stop hStop
            split at hParse
            · cases hParse
            · rename_i hOther
              cases hParse
              rcases parseDays_ok hDays with
                ⟨first, last, hWord, hFirst, hLast, rfl⟩
              rcases parseTime_eq_ok_iff.mp hStart with
                ⟨h, m, hClock, hIs, hBound⟩
              rcases parseTime_eq_ok_iff.mp hStop with
                ⟨h', m', hClock', hIs', hBound'⟩
              have hStartBound := hBound.resolve_right (by simp)
              have hStopBound : stop ≤ 1440 := by
                omega
              exact
                ⟨first, last,
                  ⟨days, span, a, b, h, m, h', m', hWords,
                    hWord, (splitOnce_eq_some hSplit).1, hClock,
                    hIs, hClock', hIs', hStartBound, hStopBound,
                    hOther⟩,
                  hFirst, hLast, rfl⟩
  · cases hParse

theorem Clock.not_dash
    {signed : Bool}
    {s : String}
    {h m : List Char}
    (hClock : Clock signed s h m) :
    '-' ∉ s.toList := by
  rw [hClock.text, List.mem_append, List.mem_cons]
  rintro (hHour | hColon | hMinute)
  · exact
      hClock.isHour.not_mem (by decide) (by decide) hHour
  · exact absurd hColon (by decide)
  · exact
      hClock.isMinute.not_mem (by decide) (by decide) hMinute

theorem parseWindow_of_entry
    {text : String}
    {first last start stop : Nat}
    (hEntry : Entry true text first last start stop) :
    ∃ w, parseWindow text = .ok w ∧ first < 7 ∧ last < 7 ∧
      w.days = daysFrom 7 first last ∧ w.start = start ∧
        w.stop = stop := by
  rcases hEntry with
    ⟨days, span, a, b, h, m, h', m', hWords, hWord, hSpan,
      hClock, hStart, hClock', hStop, hStartBound, hStopBound,
      hOther⟩
  rcases parseDays_of_dayWord hWord with
    ⟨hDays, hFirst, hLast⟩
  have hSplit :=
    splitOnce_of_toList hSpan hClock.not_dash
  have hStartTime : parseTime a false = .ok start :=
    parseTime_eq_ok_iff.mpr
      ⟨h, m, hClock, hStart, Or.inl hStartBound⟩
  have hStopTime : parseTime b true = .ok stop := by
    refine
      parseTime_eq_ok_iff.mpr ⟨h', m', hClock', hStop, ?_⟩
    rcases Nat.lt_or_eq_of_le hStopBound with hLt | hEq
    · exact Or.inl hLt
    · exact Or.inr ⟨rfl, hEq⟩
  refine
    ⟨{ days := daysFrom 7 first last
       start := start
       stop := stop
       text := days ++ " " ++ span },
      ?_, hFirst, hLast, rfl, rfl, rfl⟩
  unfold parseWindow
  simp only [hWords, hDays, hSplit, hStartTime, hStopTime,
    if_neg hOther]

/-
  The minutes an entry covers: those of its span, counted
  from the start of one of its days.
-/
def Covers
    (first last start stop d m : Nat) : Prop :=
  ∃ k t,
    InDays first last k ∧ start ≤ t ∧
      t < (if start < stop then stop else stop + 1440) ∧
        (k + t / 1440) % 7 = d ∧ t % 1440 = m

/- A window contains the minutes its entry covers. -/
theorem contains_iff_covers
    {w : Window}
    {first last d m : Nat}
    (hFirst : first < 7)
    (hLast : last < 7)
    (hDays : w.days = daysFrom 7 first last)
    (hStart : w.start < 1440)
    (hStop : w.stop ≤ 1440)
    (hD : d < 7)
    (hM : m < 1440) :
    w.contains d m = true ↔
      Covers first last w.start w.stop d m := by
  have hOn :
      ∀ k, k < 7 →
        (w.days.getLsbD k = true ↔ InDays first last k) := by
    intro k hK
    rw [hDays]
    exact daysFrom_getLsbD hFirst hLast hK
  unfold Window.contains Covers
  by_cases hOrder : w.start < w.stop
  · simp only [if_pos hOrder, Bool.and_eq_true,
      decide_eq_true_eq, hOn d hD]
    constructor
    · rintro ⟨⟨hIn, hFrom⟩, hTo⟩
      exact ⟨d, m, hIn, hFrom, hTo, by omega, by omega⟩
    · rintro ⟨k, t, hIn, hFrom, hTo, hDay, hMinute⟩
      have hK := hIn.1
      have hSame : k = d := by omega
      have hTime : t = m := by omega
      subst hSame hTime
      exact ⟨⟨hIn, hFrom⟩, hTo⟩
  · have hBefore : (d + 6) % 7 < 7 := Nat.mod_lt _ (by omega)
    simp only [if_neg hOrder, Bool.or_eq_true,
      Bool.and_eq_true, decide_eq_true_eq, hOn d hD,
      hOn _ hBefore]
    constructor
    · rintro (⟨hIn, hFrom⟩ | ⟨hIn, hTo⟩)
      · exact ⟨d, m, hIn, hFrom, by omega, by omega, by omega⟩
      · -- the morning after one of the days
        exact
          ⟨(d + 6) % 7, m + 1440, hIn, by omega, by omega,
            by omega, by omega⟩
    · rintro ⟨k, t, hIn, hFrom, hTo, hDay, hMinute⟩
      have hK := hIn.1
      by_cases hSameDay : t < 1440
      · have hSame : k = d := by omega
        have hTime : t = m := by omega
        subst hSame hTime
        exact Or.inl ⟨hIn, hFrom⟩
      · have hSame : k = (d + 6) % 7 := by omega
        subst hSame
        exact Or.inr ⟨hIn, by omega⟩

end Keepwarm

------------------------------------------------------------
-- The Documented Grammar
------------------------------------------------------------

namespace Keepwarm

/-
  A text is accepted just where it is of the documented
  grammar, and contains what it says.
-/
def Documented
    (text : String) : Prop :=
  ((∃ w, parseWindow text = .ok w) ↔
      ∃ first last start stop,
        Entry false text first last start stop) ∧
    ∀ w, parseWindow text = .ok w →
      ∃ first last,
        Entry true text first last w.start w.stop ∧
          ∀ d m, d < 7 → m < 1440 →
            (w.contains d m = true ↔
              Covers first last w.start w.stop d m)

/- Of the grammar, but for a plus sign in place of a digit. -/
def Signed
    (text : String) : Prop :=
  (∃ first last start stop,
      Entry true text first last start stop) ∧
    ¬ ∃ first last start stop,
        Entry false text first last start stop

theorem Number.signed
    {digits : List Char}
    (hNumber : Number false digits) :
    Number true digits := by
  rcases hNumber with hDigits | ⟨hFalse, -⟩
  · exact Or.inl hDigits
  · cases hFalse

theorem Clock.signed
    {s : String}
    {h m : List Char}
    (hClock : Clock false s h m) :
    Clock true s h m :=
  ⟨hClock.text, hClock.isHour.signed, hClock.short,
    hClock.isMinute.signed, hClock.two, hClock.below⟩

theorem Entry.signed
    {text : String}
    {first last start stop : Nat}
    (hEntry : Entry false text first last start stop) :
    Entry true text first last start stop := by
  rcases hEntry with
    ⟨days, span, a, b, h, m, h', m', hWords, hWord, hSpan,
      hClock, hStart, hClock', hStop, hRest⟩
  exact
    ⟨days, span, a, b, h, m, h', m', hWords, hWord, hSpan,
      hClock.signed, hStart, hClock'.signed, hStop, hRest⟩

theorem covers_of_parseWindow
    {text : String}
    {w : Window}
    (hParse : parseWindow text = .ok w) :
    ∃ first last,
      Entry true text first last w.start w.stop ∧
        ∀ d m, d < 7 → m < 1440 →
          (w.contains d m = true ↔
            Covers first last w.start w.stop d m) := by
  rcases parseWindow_eq_ok hParse with
    ⟨first, last, hEntry, hFirst, hLast, hDays⟩
  refine ⟨first, last, hEntry, ?_⟩
  rcases hEntry with
    ⟨-, -, -, -, -, -, -, -, -, -, -, -, -, -, -, hStart,
      hStop, -⟩
  intro d m hD hM
  exact
    contains_iff_covers hFirst hLast hDays hStart hStop hD hM

/- A text is read as documented where no number is signed. -/
theorem windowGrammar
    (text : String) :
    Documented text ↔ ¬ Signed text := by
  constructor
  · rintro ⟨hAccepts, -⟩ ⟨⟨first, last, start, stop, hEntry⟩, hNot⟩
    rcases parseWindow_of_entry hEntry with ⟨w, hParse, -⟩
    exact hNot (hAccepts.mp ⟨w, hParse⟩)
  · intro hNot
    refine ⟨?_, fun w hParse => covers_of_parseWindow hParse⟩
    constructor
    · rintro ⟨w, hParse⟩
      rcases parseWindow_eq_ok hParse with
        ⟨first, last, hEntry, -⟩
      by_contra hNone
      exact hNot ⟨⟨first, last, _, _, hEntry⟩, hNone⟩
    · rintro ⟨first, last, start, stop, hEntry⟩
      rcases parseWindow_of_entry hEntry.signed with
        ⟨w, hParse, -⟩
      exact ⟨w, hParse⟩

/- A minute of the grammar is digits, so none is `+5`. -/
theorem not_clock_plus
    {s : String}
    {hour minute : List Char}
    (hText : s.toList = ['9', ':', '+', '5']) :
    ¬ Clock false s hour minute := by
  intro hClock
  have hSplit := hClock.text
  rw [hText] at hSplit
  have hDigits :
      hour ≠ [] ∧ ∀ c ∈ hour, c.isDigit = true := by
    rcases hClock.isHour with hHour | ⟨hSigned, -⟩
    · exact hHour
    · cases hSigned
  have hMinute : ∀ c ∈ minute, c.isDigit = true := by
    rcases hClock.isMinute with hMinute | ⟨hSigned, -⟩
    · exact hMinute.2
    · cases hSigned
  cases hour with
  | nil => exact hDigits.1 rfl
  | cons c hour =>
      cases hour with
      | nil =>
          simp only [List.cons_append, List.nil_append,
            List.cons.injEq, true_and] at hSplit
          have hPlus := hMinute '+' (by simp [← hSplit.2])
          revert hPlus
          decide
      | cons c' hour =>
          simp only [List.cons_append,
            List.cons.injEq] at hSplit
          have hColon := hDigits.2 ':' (by simp [← hSplit.2.1])
          revert hColon
          decide

/- The minute of this entry is written with a plus sign. -/
theorem not_documented_plus :
    ¬ ∀ text, Documented text := by
  intro hClaim
  have hOk :
      ∃ w, parseWindow "daily 9:+5-10:00" = .ok w :=
    ⟨⟨0x7f#8, 545, 600, "daily 9:+5-10:00"⟩, by decide⟩
  rcases (hClaim "daily 9:+5-10:00").1.mp hOk with
    ⟨first, last, start, stop, days, span, a, b, h, m, h', m',
      hWords, -, hSpan, hClock, -⟩
  have hTwo :
      RustText.splitWhitespace "daily 9:+5-10:00" =
        ["daily", "9:+5-10:00"] := by
    decide
  rw [hTwo] at hWords
  cases hWords
  have hSplit := splitOnce_of_toList hSpan hClock.not_dash
  have hParts :
      RustText.splitOnce "9:+5-10:00" '-' = some ("9:+5", "10:00") := by
    decide
  rw [hParts] at hSplit
  cases hSplit
  exact not_clock_plus (by decide) hClock

end Keepwarm
