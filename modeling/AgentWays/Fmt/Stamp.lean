import AgentWays.Fmt.Civil
import AgentWays.Lib.Decimal

/-
  The stamps of the event log: written for a second, read
  back, and ordered as texts in the order of their seconds.

  A stamp read names a date and a time of it in decimals. The
  reader takes any day up to 31 in any month, and a year as
  long as an `i64`.

  Key definitions include:
    * `When.utcIso`
    * `When.Stamp`
    * `When.Names`
    * `When.RealInstant`

  Main declarations:
    * `When.calendar_exact`
    * `When.realInstant_iff`
-/

------------------------------------------------------------
-- Writing Stamps
------------------------------------------------------------

namespace When

open RustText

/- An integer in at least four columns, with its sign. -/
def padYear
    (y : Int) : String :=
  if y < 0 then
    let digits := toString y.natAbs
    "-" ++ String.ofList (List.replicate (3 - digits.length) '0') ++
      digits
  else pad4 y.toNat

/- `YYYY-MM-DDThh:mm:ssZ` for a Unix second. -/
def utcIso
    (secs : Nat) : String :=
  let (y, m, d) := civilFromDays (secs / 86400 : Nat)
  let tod := secs % 86400
  padYear y ++ "-" ++ pad2 m ++ "-" ++ pad2 d ++ "T" ++
    pad2 (tod / 3600) ++ ":" ++ pad2 (tod % 3600 / 60) ++
    ":" ++ pad2 (tod % 60) ++ "Z"

end When

------------------------------------------------------------
-- Reading Stamps
------------------------------------------------------------

namespace When

open RustText Calendar

/- The numbers of a stamp. -/
@[ext]
structure Stamp where
  year : Nat
  month : Nat
  day : Nat
  hour : Nat
  minute : Nat
  second : Nat
deriving DecidableEq

/- What the reader takes for a date and a time. -/
structure Stamp.InRange
    (f : Stamp) : Prop where
  year : f.year < 2 ^ 63
  month : 1 ≤ f.month ∧ f.month ≤ 12
  day : 1 ≤ f.day ∧ f.day ≤ 31
  hour : f.hour ≤ 23
  minute : f.minute ≤ 59
  second : f.second ≤ 60

/- The first half of the reader: the numbers of a text. -/
def stampFields
    (s : String) : Option Stamp := do
  let s ← stripSuffix (trim s) "Z"
  let (date, time) ← splitOnce s 'T'
  let (y, m, day) ← civilDate date
  let time ← (split time '.').head?
  let (hh, mm, ss) ← timeOfDay time
  some ⟨y, m, day, hh, mm, ss⟩

/- The second half: the second that the numbers come to. -/
def Stamp.instant
    (f : Stamp) : Option Nat :=
  let days := daysFromCivil f.year f.month f.day
  if days < 0 then none
  else
    some
      ((days.toNat * 86400 + f.hour * 3600 + f.minute * 60 +
          f.second) %
        2 ^ 64)

theorem parseUtcIso_eq
    (s : String) :
    parseUtcIso s = (stampFields s).bind Stamp.instant := by
  unfold parseUtcIso stampFields
  cases stripSuffix (trim s) "Z" with
  | none => rfl
  | some body =>
      simp only [Option.bind_eq_bind, Option.bind_some]
      cases splitOnce body 'T' with
      | none => rfl
      | some ends =>
          simp only [Option.bind_some]
          cases civilDate ends.1 with
          | none => rfl
          | some date =>
              simp only [Option.bind_some]
              cases (split ends.2 '.').head? with
              | none => rfl
              | some time =>
                  simp only [Option.bind_some]
                  cases timeOfDay time <;> rfl

/-
  A text, trimmed, names a stamp: decimals between the marks,
  and a fraction before the `Z`.
-/
def Names
    (s : String)
    (f : Stamp) : Prop :=
  ∃ y m d hh mm ss rest : List Char,
    (trim s).toList =
        y ++ '-' :: (m ++ '-' :: (d ++ 'T' :: (hh ++ ':' ::
          (mm ++ ':' :: (ss ++ (rest ++ ['Z'])))))) ∧
      Decimal y f.year ∧ Decimal m f.month ∧
      Decimal d f.day ∧ Decimal hh f.hour ∧
      Decimal mm f.minute ∧ Decimal ss f.second ∧
      (rest = [] ∨ ∃ more, rest = '.' :: more)

end When

------------------------------------------------------------
-- What A Text Names
------------------------------------------------------------

namespace RustText

/- No mark of a stamp is in a decimal. -/
theorem Decimal.free
    {cs : List Char}
    {n : Nat}
    (hDecimal : Decimal cs n) :
    '-' ∉ cs ∧ 'T' ∉ cs ∧ ':' ∉ cs ∧ '.' ∉ cs ∧ 'Z' ∉ cs :=
  ⟨hDecimal.not_mem (by decide) (by decide),
    hDecimal.not_mem (by decide) (by decide),
    hDecimal.not_mem (by decide) (by decide),
    hDecimal.not_mem (by decide) (by decide),
    hDecimal.not_mem (by decide) (by decide)⟩

/- A text before the first copy of a character. -/
theorem head?_split_eq_some_iff
    {s part : String}
    {c : Char} :
    (split s c).head? = some part ↔
      c ∉ part.toList ∧
        (s.toList = part.toList ∨
          ∃ rest, s.toList = part.toList ++ c :: rest) := by
  unfold split
  by_cases hIn : c ∈ s.toList
  · rcases List.eq_append_cons_of_mem hIn with
      ⟨head, rest, hText, hOut⟩
    rw [hText, List.splitOn_append_cons_self_of_not_mem hOut,
      List.map_cons, List.head?_cons, Option.some.injEq]
    constructor
    · rintro rfl
      rw [String.toList_ofList]
      exact ⟨hOut, .inr ⟨rest, rfl⟩⟩
    · rintro ⟨hOut', hSame | ⟨rest', hSame⟩⟩
      · rw [← hSame] at hOut'
        simp at hOut'
      · apply String.toList_inj.mp
        rw [String.toList_ofList]
        exact (cut_inj hSame hOut hOut').1
  · rw [List.splitOn_eq_singleton hIn, List.map_singleton,
      List.head?_cons, String.ofList_toList, Option.some.injEq]
    constructor
    · rintro rfl
      exact ⟨hIn, .inl rfl⟩
    · rintro ⟨-, hSame | ⟨rest, hSame⟩⟩
      · exact String.toList_inj.mp hSame
      · rw [hSame] at hIn
        simp at hIn

theorem toList_of_stripSuffix
    {s tail rest : String}
    (hStrip : stripSuffix s tail = some rest) :
    s.toList = rest.toList ++ tail.toList := by
  unfold stripSuffix endsWith at hStrip
  split at hStrip
  · rename_i hSuffix
    rw [List.isSuffixOf_iff_suffix] at hSuffix
    rcases hSuffix with ⟨front, hFront⟩
    injection hStrip with hRest
    rw [← hRest, String.toList_ofList, ← String.length_toList,
      ← String.length_toList, ← hFront, List.length_append,
      Nat.add_sub_cancel, List.take_left]
  · cases hStrip

end RustText

namespace When

open RustText Calendar

variable {s : String} {f f' : Stamp}

/- A text names one stamp at most. -/
theorem Names.inj
    (hNames : Names s f)
    (hNames' : Names s f') :
    f = f' := by
  rcases hNames with
    ⟨y, m, d, hh, mm, ss, rest, hText, hY, hM, hD, hHour,
      hMinute, hSecond, hRest⟩
  rcases hNames' with
    ⟨y', m', d', hh', mm', ss', rest', hText', hY', hM', hD',
      hHour', hMinute', hSecond', hRest'⟩
  rw [hText] at hText'
  rcases cut_inj hText' hY.free.1 hY'.free.1 with ⟨rfl, hText₁⟩
  rcases cut_inj hText₁ hM.free.1 hM'.free.1 with ⟨rfl, hText₂⟩
  rcases cut_inj hText₂ hD.free.2.1 hD'.free.2.1 with
    ⟨rfl, hText₃⟩
  rcases cut_inj hText₃ hHour.free.2.2.1 hHour'.free.2.2.1 with
    ⟨rfl, hText₄⟩
  rcases cut_inj hText₄ hMinute.free.2.2.1
      hMinute'.free.2.2.1 with
    ⟨rfl, hText₅⟩
  rw [← List.append_assoc, ← List.append_assoc] at hText₅
  have hEnd := List.append_cancel_right hText₅
  have hSame : ss = ss' := by
    rcases hRest with rfl | ⟨more, rfl⟩
    · rcases hRest' with rfl | ⟨more', rfl⟩
      · simpa using hEnd
      · rw [List.append_nil] at hEnd
        have hFree := hSecond.free.2.2.2.1
        rw [hEnd] at hFree
        simp at hFree
    · rcases hRest' with rfl | ⟨more', rfl⟩
      · rw [List.append_nil] at hEnd
        have hFree := hSecond'.free.2.2.2.1
        rw [← hEnd] at hFree
        simp at hFree
      · exact
          (cut_inj hEnd hSecond.free.2.2.2.1
            hSecond'.free.2.2.2.1).1
  subst hSame
  exact
    Stamp.ext (hY.inj hY') (hM.inj hM') (hD.inj hD')
      (hHour.inj hHour') (hMinute.inj hMinute')
      (hSecond.inj hSecond')

/- The dates taken: three decimals, month and day in range. -/
theorem civilDate_eq_some_iff
    {date : String}
    {y m d : Nat} :
    civilDate date = some (y, m, d) ↔
      ∃ ys ms ds : List Char,
        date.toList = ys ++ '-' :: (ms ++ '-' :: ds) ∧
          Decimal ys y ∧ Decimal ms m ∧ Decimal ds d ∧
          y < 2 ^ 63 ∧ (1 ≤ m ∧ m ≤ 12) ∧ (1 ≤ d ∧ d ≤ 31) := by
  unfold civilDate
  constructor
  · intro hDate
    split at hDate
    · rename_i ys ms ds hSplit
      simp only [Option.bind_eq_bind, Option.bind_eq_some_iff]
        at hDate
      rcases hDate with ⟨y', hY, m', hM, d', hD, hRange⟩
      split at hRange
      · cases hRange
      · rename_i hIn
        cases hRange
        rw [parseUnsigned_iff] at hY hM hD
        rcases (split_eq_iff (by simp)).mp hSplit with ⟨hText, -⟩
        refine
          ⟨ys.toList, ms.toList, ds.toList, ?_, hY.1, hM.1,
            hD.1, hY.2, by omega, by omega⟩
        rw [hText]
        simp [List.intercalate, List.intersperse]
    · cases hDate
  · rintro ⟨ys, ms, ds, hText, hY, hM, hD, hYear, hMonth, hDay⟩
    have hSplit :
        split date '-' =
          [String.ofList ys, String.ofList ms,
            String.ofList ds] := by
      rw [split_eq_iff (by simp)]
      constructor
      · rw [hText]
        simp [List.intercalate, List.intersperse]
      · intro part hMem
        simp only [List.mem_cons, List.not_mem_nil, or_false]
          at hMem
        rcases hMem with rfl | rfl | rfl
        · rw [String.toList_ofList]
          exact hY.free.1
        · rw [String.toList_ofList]
          exact hM.free.1
        · rw [String.toList_ofList]
          exact hD.free.1
    rw [hSplit]
    have hParseY :
        parseUnsigned 63 (String.ofList ys) = some y :=
      parseUnsigned_iff.mpr
        ⟨by rwa [String.toList_ofList], hYear⟩
    have hParseM :
        parseUnsigned 32 (String.ofList ms) = some m :=
      parseUnsigned_iff.mpr
        ⟨by rwa [String.toList_ofList], by omega⟩
    have hParseD :
        parseUnsigned 32 (String.ofList ds) = some d :=
      parseUnsigned_iff.mpr
        ⟨by rwa [String.toList_ofList], by omega⟩
    simp only [hParseY, hParseM, hParseD, Option.bind_eq_bind,
      Option.bind_some]
    rw [if_neg (by omega)]

/- The times taken: three decimals of a time of day. -/
theorem timeOfDay_eq_some_iff
    {time : String}
    {hh mm ss : Nat} :
    timeOfDay time = some (hh, mm, ss) ↔
      ∃ hs ms zs : List Char,
        time.toList = hs ++ ':' :: (ms ++ ':' :: zs) ∧
          Decimal hs hh ∧ Decimal ms mm ∧ Decimal zs ss ∧
          ':' ∉ zs ∧ hh ≤ 23 ∧ mm ≤ 59 ∧ ss ≤ 60 := by
  unfold timeOfDay
  constructor
  · intro hTime
    split at hTime
    · rename_i hs ms zs hSplit
      simp only [Option.bind_eq_bind, Option.bind_eq_some_iff]
        at hTime
      rcases hTime with ⟨hh', hHour, mm', hMinute, ss', hSecond,
        hRange⟩
      split at hRange
      · cases hRange
      · rename_i hIn
        cases hRange
        rw [parseUnsigned_iff] at hHour hMinute hSecond
        rcases (split_eq_iff (by simp)).mp hSplit with
          ⟨hText, hFree⟩
        refine
          ⟨hs.toList, ms.toList, zs.toList, ?_, hHour.1,
            hMinute.1, hSecond.1, hFree zs (by simp), by omega,
            by omega, by omega⟩
        rw [hText]
        simp [List.intercalate, List.intersperse]
    · cases hTime
  · rintro ⟨hs, ms, zs, hText, hHour, hMinute, hSecond, -, hIn⟩
    have hSplit :
        split time ':' =
          [String.ofList hs, String.ofList ms,
            String.ofList zs] := by
      rw [split_eq_iff (by simp)]
      constructor
      · rw [hText]
        simp [List.intercalate, List.intersperse]
      · intro part hMem
        simp only [List.mem_cons, List.not_mem_nil, or_false]
          at hMem
        rcases hMem with rfl | rfl | rfl
        · rw [String.toList_ofList]
          exact hHour.free.2.2.1
        · rw [String.toList_ofList]
          exact hMinute.free.2.2.1
        · rw [String.toList_ofList]
          exact hSecond.free.2.2.1
    rw [hSplit]
    have hParseHour :
        parseUnsigned 64 (String.ofList hs) = some hh :=
      parseUnsigned_iff.mpr
        ⟨by rwa [String.toList_ofList], by omega⟩
    have hParseMinute :
        parseUnsigned 64 (String.ofList ms) = some mm :=
      parseUnsigned_iff.mpr
        ⟨by rwa [String.toList_ofList], by omega⟩
    have hParseSecond :
        parseUnsigned 64 (String.ofList zs) = some ss :=
      parseUnsigned_iff.mpr
        ⟨by rwa [String.toList_ofList], by omega⟩
    simp only [hParseHour, hParseMinute, hParseSecond,
      Option.bind_eq_bind, Option.bind_some]
    rw [if_neg (by omega)]

/- The reader takes what is named and in range. -/
theorem stampFields_eq_some_iff :
    stampFields s = some f ↔ Names s f ∧ f.InRange := by
  unfold stampFields
  constructor
  · intro hFields
    simp only [Option.bind_eq_bind, Option.bind_eq_some_iff]
      at hFields
    rcases hFields with
      ⟨body, hStrip, ⟨date, time⟩, hCut, ⟨y, m, d⟩, hDate, clock,
        hClock, ⟨hh, mm, ss⟩, hTime, hStamp⟩
    cases hStamp
    rcases civilDate_eq_some_iff.mp hDate with
      ⟨ys, ms, ds, hDateText, hY, hM, hD, hYear, hMonth, hDay⟩
    rcases timeOfDay_eq_some_iff.mp hTime with
      ⟨hs, mins, zs, hTimeText, hHour, hMinute, hSecond, -,
        hHourLe, hMinuteLe, hSecondLe⟩
    rcases head?_split_eq_some_iff.mp hClock with
      ⟨-, hRest⟩
    have hText := (splitOnce_eq_some hCut).1
    have hRest' :
        ∃ rest, time.toList = clock.toList ++ rest ∧
          (rest = [] ∨ ∃ more, rest = '.' :: more) := by
      rcases hRest with hWhole | ⟨more, hMore⟩
      · exact ⟨[], by rw [hWhole, List.append_nil], .inl rfl⟩
      · exact ⟨_, hMore, .inr ⟨more, rfl⟩⟩
    rcases hRest' with ⟨rest, hClockText, hFraction⟩
    constructor
    · refine
        ⟨ys, ms, ds, hs, mins, zs, rest, ?_, hY, hM, hD, hHour,
          hMinute, hSecond, hFraction⟩
      rw [toList_of_stripSuffix hStrip, hText, hDateText,
        hClockText, hTimeText]
      simp
    · exact
        ⟨hYear, hMonth, hDay, hHourLe, hMinuteLe, hSecondLe⟩
  · rintro ⟨hNames, hRange⟩
    rcases hNames with
      ⟨ys, ms, ds, hs, mins, zs, rest, hText, hY, hM, hD, hHour,
        hMinute, hSecond, hFraction⟩
    have hStrip :
        stripSuffix (trim s) "Z" =
          some
            (String.ofList
              (ys ++ '-' :: (ms ++ '-' :: (ds ++ 'T' ::
                (hs ++ ':' :: (mins ++ ':' :: (zs ++ rest))))))) := by
      have hWhole :
          trim s =
            String.ofList
                (ys ++ '-' :: (ms ++ '-' :: (ds ++ 'T' ::
                  (hs ++ ':' ::
                    (mins ++ ':' :: (zs ++ rest)))))) ++ "Z" := by
        apply String.toList_inj.mp
        rw [hText]
        simp
      rw [hWhole, stripSuffix_append]
    have hCut :
        splitOnce
            (String.ofList
              (ys ++ '-' :: (ms ++ '-' :: (ds ++ 'T' ::
                (hs ++ ':' :: (mins ++ ':' :: (zs ++ rest)))))))
            'T' =
          some
            (String.ofList (ys ++ '-' :: (ms ++ '-' :: ds)),
              String.ofList
                (hs ++ ':' :: (mins ++ ':' :: (zs ++ rest)))) := by
      have hFree : 'T' ∉ ys ++ '-' :: (ms ++ '-' :: ds) := by
        simp [hY.free.2.1, hM.free.2.1, hD.free.2.1]
      have hWhole :
          String.ofList
              (ys ++ '-' :: (ms ++ '-' :: (ds ++ 'T' ::
                (hs ++ ':' :: (mins ++ ':' :: (zs ++ rest)))))) =
            String.ofList (ys ++ '-' :: (ms ++ '-' :: ds)) ++
                "T" ++
              String.ofList
                (hs ++ ':' ::
                  (mins ++ ':' :: (zs ++ rest))) := by
        apply String.toList_inj.mp
        simp
      rw [hWhole]
      exact splitOnce_append rfl (by simpa using hFree)
    have hDate :
        civilDate
            (String.ofList (ys ++ '-' :: (ms ++ '-' :: ds))) =
          some (f.year, f.month, f.day) :=
      civilDate_eq_some_iff.mpr
        ⟨ys, ms, ds, by rw [String.toList_ofList], hY, hM, hD,
          hRange.year, hRange.month, hRange.day⟩
    have hClock :
        (split
            (String.ofList
              (hs ++ ':' :: (mins ++ ':' :: (zs ++ rest))))
            '.').head? =
          some
            (String.ofList
              (hs ++ ':' :: (mins ++ ':' :: zs))) := by
      rw [head?_split_eq_some_iff, String.toList_ofList,
        String.toList_ofList]
      constructor
      · simp [hHour.free.2.2.2.1, hMinute.free.2.2.2.1,
          hSecond.free.2.2.2.1]
      · rcases hFraction with rfl | ⟨more, rfl⟩
        · exact .inl (by simp)
        · exact .inr ⟨more, by simp⟩
    have hTime :
        timeOfDay
            (String.ofList
              (hs ++ ':' :: (mins ++ ':' :: zs))) =
          some (f.hour, f.minute, f.second) :=
      timeOfDay_eq_some_iff.mpr
        ⟨hs, mins, zs, by rw [String.toList_ofList], hHour,
          hMinute, hSecond, hSecond.free.2.2.1, hRange.hour,
          hRange.minute, hRange.second⟩
    simp only [hStrip, hCut, hDate, hClock, hTime,
      Option.bind_eq_bind, Option.bind_some]

end When

------------------------------------------------------------
-- Stamps Written
------------------------------------------------------------

namespace When

open RustText Calendar

/- The text of a stamp. -/
def Stamp.text
    (f : Stamp) : String :=
  pad4 f.year ++ "-" ++ pad2 f.month ++ "-" ++ pad2 f.day ++
    "T" ++ pad2 f.hour ++ ":" ++ pad2 f.minute ++ ":" ++
    pad2 f.second ++ "Z"

/- The date of a second and the time of its day. -/
def Stamp.at'
    (date : Date)
    (tod : Nat) : Stamp where
  year := date.year.toNat
  month := date.month
  day := date.day
  hour := tod / 3600
  minute := tod % 3600 / 60
  second := tod % 60

theorem Stamp.toList_text
    (f : Stamp) :
    f.text.toList =
      (pad4 f.year).toList ++ '-' ::
        ((pad2 f.month).toList ++ '-' ::
          ((pad2 f.day).toList ++ 'T' ::
            ((pad2 f.hour).toList ++ ':' ::
              ((pad2 f.minute).toList ++ ':' ::
                ((pad2 f.second).toList ++ ['Z']))))) := by
  unfold Stamp.text
  simp [String.toList_append]

/- A stamp is written for the date of its day. -/
theorem exists_date_of_secs
    {secs : Nat}
    (hSecs : secs < 2 ^ 64) :
    ∃ date : Date,
      date.number = (secs / 86400 : Nat) ∧ 1970 ≤ date.year ∧
        civilFromDays (secs / 86400 : Nat) =
          (date.year, date.month, date.day) ∧
        utcIso secs =
          (Stamp.at' date (secs % 86400)).text := by
  have hFits : FitsI64 ((secs / 86400 : Nat) + 719468) := by
    unfold FitsI64
    omega
  rcases civilFromDays_eq hFits with ⟨date, hCivil, hNumber⟩
  have hYear : 1970 ≤ date.year := by
    rw [Date.year_ge_iff, hNumber]
    omega
  refine ⟨date, hNumber, hYear, hCivil, ?_⟩
  unfold utcIso padYear
  rw [hCivil]
  dsimp only
  rw [if_neg (by omega)]
  rfl

theorem Stamp.trim_text
    (f : Stamp) :
    trim f.text = f.text := by
  apply trim_eq_self
  · unfold startsBare
    rw [Stamp.toList_text, toList_pad4, List.append_assoc]
    cases hYear :
      List.replicate (4 - (toString f.year).length) '0' ++
        (toString f.year).toList with
    | nil =>
        have hEmpty := (List.append_eq_nil_iff.mp hYear).2
        exact
          absurd (String.toList_eq_nil_iff.mp hEmpty)
            (toString_ne_empty f.year)
    | cons c rest =>
        rw [← List.append_assoc, hYear, List.cons_append,
          List.head?_cons, Option.all_some,
          isWhitespace_of_isDigit
            (digits_padded _ f.year c (by rw [hYear]; simp))]
        rfl
  · unfold endsBare
    rw [Stamp.toList_text]
    simp [List.getLast?_append, List.getLast?_cons]
    decide

theorem Stamp.names_text
    (f : Stamp) :
    Names f.text f := by
  refine
    ⟨_, _, _, _, _, _, [], ?_, decimal_pad4 f.year,
      decimal_pad2 f.month, decimal_pad2 f.day,
      decimal_pad2 f.hour, decimal_pad2 f.minute,
      decimal_pad2 f.second, .inl rfl⟩
  rw [f.trim_text, f.toList_text, List.nil_append]

end When

------------------------------------------------------------
-- The Second Of A Stamp
------------------------------------------------------------

namespace When

open Calendar

variable {s : String} {f : Stamp}

/- The seconds since 1970 that a stamp counts. -/
def Stamp.seconds
    (f : Stamp) : Int :=
  dayNumber f.year f.month f.day * 86400 + f.hour * 3600 +
    f.minute * 60 + f.second

/- Every value computed from the days on, as a `u64`. -/
def Stamp.wideSteps
    (f : Stamp) : List Int :=
  let days := exactDays f.year f.month f.day
  if days < 0 then []
  else
    [days * 86400, f.hour * 3600,
      days * 86400 + f.hour * 3600, f.minute * 60,
      days * 86400 + f.hour * 3600 + f.minute * 60,
      days * 86400 + f.hour * 3600 + f.minute * 60 + f.second]

theorem Stamp.InRange.exactDays_eq
    (hRange : f.InRange) :
    exactDays f.year f.month f.day =
      dayNumber f.year f.month f.day :=
  When.exactDays_eq f.year f.day hRange.month.1 hRange.month.2

/- Whether a stamp in range is before 1970 is told by its year. -/
theorem Stamp.InRange.dayNumber_neg_iff
    (hRange : f.InRange) :
    dayNumber f.year f.month f.day < 0 ↔ f.year < 1970 := by
  constructor
  · intro hNeg
    by_cases hYear : f.year < 1970
    · exact hYear
    · have hStart :=
        yearStart_nonneg (y := f.year) (by omega)
      have hDay := hRange.day
      unfold dayNumber at hNeg
      omega
  · intro hYear
    have hEnd :=
      dayNumber_lt_yearStart f.year hRange.month.1
        hRange.month.2 hRange.day.2
    have hStart := yearStart_neg (y := f.year) (by omega)
    omega

theorem Stamp.InRange.dayNumber_ge
    (hRange : f.InRange) :
    -719528 ≤ dayNumber f.year f.month f.day := by
  have hStart :=
    yearStart_ge (y := f.year) (Int.natCast_nonneg f.year)
  have hDay := hRange.day
  unfold dayNumber
  omega

/- Below 2^64 seconds no step of the days leaves an `i64`. -/
theorem Stamp.InRange.daysSteps_fit
    (hRange : f.InRange)
    (hSeconds : f.year < 1970 ∨ f.seconds < 2 ^ 64) :
    ∀ x ∈ daysSteps f.year f.month f.day, FitsI64 x := by
  have hLow := hRange.dayNumber_ge
  have hNeg := hRange.dayNumber_neg_iff
  apply When.daysSteps_fit hRange.month hRange.day
  · rw [hRange.exactDays_eq]
    omega
  · rw [hRange.exactDays_eq]
    unfold Stamp.seconds at hSeconds
    omega

theorem daysFromCivil_of_fit
    {y : Int}
    {m d : Nat}
    (hFit : ∀ x ∈ daysSteps y m d, FitsI64 x) :
    daysFromCivil y m d = exactDays y m d := by
  apply daysFromCivil_eq
  apply hFit
  unfold daysSteps exactDays
  simp

theorem Stamp.InRange.instant_eq
    (hRange : f.InRange)
    (hSeconds : f.year < 1970 ∨ f.seconds < 2 ^ 64) :
    f.instant =
      if f.year < 1970 then none else some f.seconds.toNat := by
  have hNeg := hRange.dayNumber_neg_iff
  unfold Stamp.instant
  rw [daysFromCivil_of_fit (hRange.daysSteps_fit hSeconds),
    hRange.exactDays_eq]
  dsimp only
  by_cases hYear : f.year < 1970
  · rw [if_pos (hNeg.mpr hYear), if_pos hYear]
  · have hDays := mt hNeg.mp hYear
    rw [if_neg hDays, if_neg hYear]
    have hLt : f.seconds < 2 ^ 64 := by
      rcases hSeconds with hBefore | hLt
      · exact absurd hBefore hYear
      · exact hLt
    have hExact :
        (dayNumber f.year f.month f.day).toNat * 86400 +
            f.hour * 3600 + f.minute * 60 + f.second =
          f.seconds.toNat := by
      unfold Stamp.seconds
      omega
    rw [hExact, Nat.mod_eq_of_lt (by omega)]

end When

------------------------------------------------------------
-- A Parsed Stamp Is A Real Instant
------------------------------------------------------------

namespace When

open Calendar

variable {s : String} {f : Stamp}

/- No step of a parse leaves its integer type. -/
def NoOverflow
    (s : String) : Prop :=
  ∀ f, stampFields s = some f →
    (∀ x ∈ daysSteps f.year f.month f.day, FitsI64 x) ∧
      ∀ x ∈ f.wideSteps, x < 2 ^ 64

/-
  What is parsed is the second of a date that exists and of
  a time of that day, both named by the text.
-/
structure RealInstant
    (s : String) : Prop where
  exact : NoOverflow s
  real :
    ∀ t, parseUtcIso s = some t →
      ∃ (date : Date) (f : Stamp),
        Names s f ∧ date.year = f.year ∧
          date.month = f.month ∧ date.day = f.day ∧
          f.hour ≤ 23 ∧ f.minute ≤ 59 ∧ f.second ≤ 60 ∧
          (t : Int) =
            date.number * 86400 + f.hour * 3600 +
              f.minute * 60 + f.second

/- A stamp with a day of its month, of fewer than 2^64 seconds. -/
def Stamp.Exists
    (f : Stamp) : Prop :=
  f.day ≤ daysIn f.year f.month ∧ f.seconds < 2 ^ 64

theorem noOverflow_of_seconds
    (hSeconds :
      ∀ f, Names s f → f.InRange →
        f.year < 1970 ∨ f.seconds < 2 ^ 64) :
    NoOverflow s := by
  intro f hFields
  rcases stampFields_eq_some_iff.mp hFields with
    ⟨hNames, hRange⟩
  have hLt := hSeconds f hNames hRange
  refine ⟨hRange.daysSteps_fit hLt, ?_⟩
  unfold Stamp.wideSteps
  rw [hRange.exactDays_eq]
  dsimp only
  split
  · intro x hMem
    cases hMem
  · rename_i hDays
    have hYear := mt hRange.dayNumber_neg_iff.mpr hDays
    have hBound : f.seconds < 2 ^ 64 := by
      rcases hLt with hBefore | hBound
      · exact absurd hBefore hYear
      · exact hBound
    unfold Stamp.seconds at hBound
    intro x hMem
    simp only [List.mem_cons, List.not_mem_nil, or_false]
      at hMem
    rcases hMem with rfl | rfl | rfl | rfl | rfl | rfl
    all_goals omega

theorem seconds_of_noOverflow
    (hExact : NoOverflow s)
    (hNames : Names s f)
    (hRange : f.InRange)
    (hYear : ¬ f.year < 1970) :
    f.seconds < 2 ^ 64 := by
  have hSteps :=
    (hExact f
      (stampFields_eq_some_iff.mpr ⟨hNames, hRange⟩)).2
  apply hSteps
  unfold Stamp.wideSteps
  rw [hRange.exactDays_eq]
  dsimp only
  rw [if_neg (mt hRange.dayNumber_neg_iff.mp hYear)]
  unfold Stamp.seconds
  simp

/-
  The reader is right of a text exactly when the text names
  no stamp from 1970 on with a day past the end of its month
  or 2^64 seconds or more.
-/
theorem realInstant_iff
    (s : String) :
    RealInstant s ↔
      ∀ f, Names s f → f.InRange →
        f.year < 1970 ∨ f.Exists := by
  constructor
  · intro hReal f hNames hRange
    by_cases hYear : f.year < 1970
    · exact .inl hYear
    · have hSeconds :=
        seconds_of_noOverflow hReal.exact hNames hRange hYear
      have hParse :
          parseUtcIso s = some f.seconds.toNat := by
        rw [parseUtcIso_eq,
          stampFields_eq_some_iff.mpr ⟨hNames, hRange⟩,
          Option.bind_some, hRange.instant_eq (.inr hSeconds),
          if_neg hYear]
      rcases hReal.real _ hParse with
        ⟨date, f', hNames', hDateYear, hMonth, hDay, -⟩
      have hSame := hNames.inj hNames'
      subst hSame
      have hLe := date.day_le
      rw [hDateYear, hMonth, hDay] at hLe
      exact .inr ⟨hLe, hSeconds⟩
  · intro hAll
    have hSeconds :
        ∀ f, Names s f → f.InRange →
          f.year < 1970 ∨ f.seconds < 2 ^ 64 := by
      intro f hNames hRange
      rcases hAll f hNames hRange with hYear | hThere
      · exact .inl hYear
      · exact .inr hThere.2
    refine ⟨noOverflow_of_seconds hSeconds, ?_⟩
    intro t hParse
    rw [parseUtcIso_eq, Option.bind_eq_some_iff] at hParse
    rcases hParse with ⟨f, hFields, hInstant⟩
    rcases stampFields_eq_some_iff.mp hFields with
      ⟨hNames, hRange⟩
    rw [hRange.instant_eq (hSeconds f hNames hRange)]
      at hInstant
    split at hInstant
    · cases hInstant
    · rename_i hYear
      injection hInstant with hTime
      rcases hAll f hNames hRange with hBefore | hThere
      · exact absurd hBefore hYear
      · refine
          ⟨{ year := f.year
             month := f.month
             day := f.day
             month_pos := hRange.month.1
             month_le := hRange.month.2
             day_pos := hRange.day.1
             day_le := hThere.1 },
            f, hNames, rfl, rfl, rfl, hRange.hour,
            hRange.minute, hRange.second, ?_⟩
        have hNeg := mt hRange.dayNumber_neg_iff.mp hYear
        unfold Date.number
        unfold Stamp.seconds at hTime
        dsimp only
        omega

/- A 31st of February is read as the third of March. -/
theorem not_realInstant :
    ¬ ∀ s, RealInstant s := by
  intro hAll
  have hParse :
      parseUtcIso "2026-02-31T00:00:00Z" = some 1772496000 := by
    decide
  rcases (hAll "2026-02-31T00:00:00Z").real _ hParse with
    ⟨date, f, hNames, hYear, hMonth, hDay, -⟩
  have hNamed :
      Names "2026-02-31T00:00:00Z" ⟨2026, 2, 31, 0, 0, 0⟩ :=
    Stamp.names_text ⟨2026, 2, 31, 0, 0, 0⟩
  have hSame := hNamed.inj hNames
  subst hSame
  have hLe := date.day_le
  rw [hYear, hMonth, hDay] at hLe
  revert hLe
  decide

end When

------------------------------------------------------------
-- Stamps Round Trip And Sort
------------------------------------------------------------

namespace When

open RustText Calendar

theorem Stamp.inRange_at
    {date : Date}
    {tod : Nat}
    (hTod : tod < 86400)
    (hYear : date.year < 2 ^ 63) :
    (Stamp.at' date tod).InRange where
  year := by
    unfold Stamp.at'
    dsimp only
    omega
  month := ⟨date.month_pos, date.month_le⟩
  day :=
    ⟨date.day_pos,
      Nat.le_trans date.day_le (daysIn_le date.year date.month)⟩
  hour := by
    unfold Stamp.at'
    dsimp only
    omega
  minute := by
    unfold Stamp.at'
    dsimp only
    omega
  second := by
    unfold Stamp.at'
    dsimp only
    omega

/- A second is read back from its stamp. -/
theorem parseUtcIso_utcIso
    {secs : Nat}
    (hSecs : secs < 2 ^ 64) :
    parseUtcIso (utcIso secs) = some secs := by
  rcases exists_date_of_secs hSecs with
    ⟨date, hNumber, hYear, -, hText⟩
  have hBound := Date.year_le_number hYear
  have hRange :
      (Stamp.at' date (secs % 86400)).InRange :=
    Stamp.inRange_at (by omega) (by omega)
  have hSeconds :
      (Stamp.at' date (secs % 86400)).seconds = secs := by
    have hDays :
        dayNumber (date.year.toNat : Nat) date.month date.day =
          (secs / 86400 : Nat) := by
      rw [← hNumber, Int.toNat_of_nonneg (by omega)]
      rfl
    unfold Stamp.seconds Stamp.at'
    dsimp only
    rw [hDays]
    omega
  rw [hText, parseUtcIso_eq,
    stampFields_eq_some_iff.mpr ⟨Stamp.names_text _, hRange⟩,
    Option.bind_some, hRange.instant_eq (.inr (by omega)),
    hSeconds]
  have hAfter :
      ¬ (Stamp.at' date (secs % 86400)).year < 1970 := by
    unfold Stamp.at'
    dsimp only
    omega
  rw [if_neg hAfter]
  rfl

theorem Stamp.InRange.short
    {f : Stamp}
    (hRange : f.InRange) :
    f.month < 100 ∧ f.day < 100 ∧ f.hour < 100 ∧
      f.minute < 100 ∧ f.second < 100 := by
  rcases hRange with ⟨-, hMonth, hDay, hHour, hMinute, hSecond⟩
  omega

/- Stamps of four-digit years sort as their parts do. -/
theorem Stamp.text_lt_iff
    {f g : Stamp}
    (hRange : f.InRange)
    (hRange' : g.InRange)
    (hYear : f.year < 10000)
    (hYear' : g.year < 10000) :
    f.text < g.text ↔
      f.year < g.year ∨ (f.year = g.year ∧
        (f.month < g.month ∨ (f.month = g.month ∧
          (f.day < g.day ∨ (f.day = g.day ∧
            (f.hour < g.hour ∨ (f.hour = g.hour ∧
              (f.minute < g.minute ∨ (f.minute = g.minute ∧
                f.second < g.second))))))))) := by
  rcases hRange.short with
    ⟨hMonth, hDay, hHour, hMinute, hSecond⟩
  rcases hRange'.short with
    ⟨hMonth', hDay', hHour', hMinute', hSecond'⟩
  rw [String.lt_iff, f.toList_text, g.toList_text,
    pad4_cons_lt_iff hYear hYear',
    pad2_cons_lt_iff hMonth hMonth',
    pad2_cons_lt_iff hDay hDay', pad2_cons_lt_iff hHour hHour',
    pad2_cons_lt_iff hMinute hMinute',
    pad2_cons_lt_iff hSecond hSecond']
  simp only [List.lt_irrefl, and_false, or_false]

/- Stamps of years up to 9999 sort as their seconds do. -/
theorem utcIso_lt_iff
    {s t : Nat}
    (hS : s < 2 ^ 64)
    (hT : t < 2 ^ 64)
    (hYear : (civilFromDays (s / 86400 : Nat)).1 ≤ 9999)
    (hYear' : (civilFromDays (t / 86400 : Nat)).1 ≤ 9999) :
    utcIso s < utcIso t ↔ s < t := by
  rcases exists_date_of_secs hS with
    ⟨date, hNumber, hFrom, hCivil, hText⟩
  rcases exists_date_of_secs hT with
    ⟨date', hNumber', hFrom', hCivil', hText'⟩
  rw [hCivil] at hYear
  rw [hCivil'] at hYear'
  dsimp only at hYear hYear'
  rw [hText, hText',
    Stamp.text_lt_iff
      (Stamp.inRange_at (by omega) (by omega))
      (Stamp.inRange_at (by omega) (by omega))
      (by unfold Stamp.at'; dsimp only; omega)
      (by unfold Stamp.at'; dsimp only; omega)]
  have hDays := @Date.number_lt_iff date date'
  have hBack := @Date.number_lt_iff date' date
  rw [hNumber, hNumber'] at hDays hBack
  unfold Stamp.at'
  dsimp only
  omega

/-
  The conversions are exact: a day has a date that exists,
  the next day has the next date, and each gives the other
  back. A second is read back from its stamp, and stamps of
  four-digit years sort in time.
-/
theorem calendar_exact :
    (∀ z : Int, (∀ x ∈ civilSteps z, FitsI64 x) →
      FitsI64 z →
        ∃ date : Date,
          civilFromDays z =
              (date.year, date.month, date.day) ∧
            (∀ x ∈ daysSteps date.year date.month date.day,
              FitsI64 x) ∧
            daysFromCivil date.year date.month date.day = z ∧
            ((∀ x ∈ civilSteps (z + 1), FitsI64 x) →
              civilFromDays (z + 1) =
                (date.next.year, date.next.month,
                  date.next.day))) ∧
      (∀ date : Date,
        (∀ x ∈ daysSteps date.year date.month date.day,
          FitsI64 x) →
        (∀ x ∈ civilSteps
            (daysFromCivil date.year date.month date.day),
          FitsI64 x) →
          civilFromDays
              (daysFromCivil date.year date.month date.day) =
            (date.year, date.month, date.day)) ∧
      (∀ secs < 2 ^ 64, parseUtcIso (utcIso secs) = some secs) ∧
      ∀ s < 2 ^ 64, ∀ t < 2 ^ 64,
        (civilFromDays (s / 86400 : Nat)).1 ≤ 9999 →
          (civilFromDays (t / 86400 : Nat)).1 ≤ 9999 →
            (utcIso s < utcIso t ↔ s < t) := by
  have hShift :
      ∀ z : Int, (∀ x ∈ civilSteps z, FitsI64 x) →
        FitsI64 (z + 719468) := by
    intro z hSteps
    exact hSteps (z + 719468) List.mem_cons_self
  refine ⟨?_, ?_, ?_, ?_⟩
  · intro z hSteps hZ
    rcases civilFromDays_eq (hShift z hSteps) with
      ⟨date, hCivil, hNumber⟩
    have hFit :
        ∀ x ∈ daysSteps date.year date.month date.day,
          FitsI64 x := by
      have hRange := hShift z hSteps
      unfold FitsI64 at hZ hRange
      apply daysSteps_fit ⟨date.month_pos, date.month_le⟩
        ⟨date.day_pos,
          Nat.le_trans date.day_le (daysIn_le _ _)⟩
      · rw [exactDays_date, hNumber]
        exact hZ.1
      · rw [exactDays_date, hNumber]
        exact hRange.2
    refine ⟨date, hCivil, hFit, ?_, ?_⟩
    · rw [daysFromCivil_of_fit hFit, exactDays_date, hNumber]
    · intro hNext
      have hSame : z + 1 = date.next.number := by
        rw [Date.number_next, hNumber]
      have hRange := hShift (z + 1) hNext
      rw [hSame] at hRange ⊢
      exact civilFromDays_number hRange
  · intro date hFit hSteps
    rw [daysFromCivil_of_fit hFit, exactDays_date] at hSteps ⊢
    exact civilFromDays_number (hShift date.number hSteps)
  · intro secs hSecs
    exact parseUtcIso_utcIso hSecs
  · intro s hS t hT hYear hYear'
    exact utcIso_lt_iff hS hT hYear hYear'

end When
