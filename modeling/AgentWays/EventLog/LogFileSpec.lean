import AgentWays.EventLog.LogFile
import Mathlib.Data.List.Infix
import Mathlib.Data.List.Perm.Basic

/-
  Maintenance conserves the lines of a log.

  A pass cuts the file where a line starts. What it removes
  is in the archive, in its order, and what it keeps is in
  the live file. A compaction that only has judge calls to
  carry, the last of them without a newline, is the one that
  subtracts below zero.

  Key definitions include:
    * `LogFile.Compacts`
    * `LogFile.Rotates`
    * `LogFile.Trims`
    * `LogFile.CarriesAll`

  Main declarations:
    * `LogFile.conserves_iff`
-/

------------------------------------------------------------
-- What A Pass Conserves
------------------------------------------------------------

namespace LogFile

open EventLog (newline lineTs cutoffOf)

variable (eventOf : Bytes → Option String)

/-
  A compaction splits the old lines: those of the head that
  are no judge call go to the archive, the others come first
  in the live file, and the tail follows them.
-/
structure Compacts
    (data : Bytes)
    (p : Pass) : Prop where
  stays : p.moved = false → p.live = data ∧ p.archived = []
  splits :
    p.moved = true →
      ∃ head tail,
        lines data = head ++ tail ∧
          lines p.archived =
            (head.filter
              (fun line => !isJudgeCall eventOf line)).map
                ended ∧
          lines p.live =
            (head.filter (isJudgeCall eventOf)).map ended ++ tail
  together :
    ((lines p.archived ++ lines p.live).map ended).Perm
      ((lines data).map ended)
  judge :
    ∀ line ∈ lines data, isJudgeCall eventOf line = true →
      line ∈ lines p.live ∨ ended line ∈ lines p.live
  exact : p.underflows = false

/- A line that is no judge call, with a second not too old. -/
def isCurrent
    (cutoff : Nat)
    (line : Bytes) : Bool :=
  !isJudgeCall eventOf line &&
    (lineTs line).any (fun ts => decide (cutoff ≤ ts))

/- A line that is no judge call, with a second too old. -/
def expires
    (cutoff : Nat)
    (line : Bytes) : Bool :=
  !isJudgeCall eventOf line &&
    (lineTs line).any (fun ts => decide (ts < cutoff))

/-
  A rotation archives what expires before the first current
  line, and keeps the rest in its order.
-/
structure Rotates
    (cutoff : Nat)
    (data : Bytes)
    (p : Pass) : Prop where
  stays :
    (∀ line ∈ lines data,
        isCurrent eventOf cutoff line = false) →
      p = standDown data
  splits :
    ∀ front line back,
      lines data = front ++ line :: back →
        (∀ other ∈ front,
            isCurrent eventOf cutoff other = false) →
          isCurrent eventOf cutoff line = true →
            lines p.archived =
                front.filter (expires eventOf cutoff) ∧
              lines p.live =
                front.filter
                    (fun line => !expires eventOf cutoff line) ++
                  line :: back

/- A trim keeps whole turns, the newest, so many of them. -/
def Trims
    (keep : Nat)
    (data : Bytes)
    (p : Pass) : Prop :=
  p = standDown data ∨
    ∃ front line back,
      lines data = front ++ line :: back ∧
        startsTurn line = true ∧
          (line :: back).countP startsTurn = max keep 1 ∧
            p.live = (line :: back).flatten ∧
              lines p.live = line :: back ∧
                p.archived = front.flatten ∧
                  lines p.archived = front

/- The three passes over a log conserve its lines. -/
structure Conserves
    (data : Bytes)
    (keepBytes minFreed now retentionDays keep : Nat) :
    Prop where
  compaction :
    Compacts eventOf data
      (compactLogTail eventOf false keepBytes minFreed data)
  rotation :
    Rotates eventOf
      (cutoffOf now retentionDays (newestTs data)) data
      (rotateLogByAge eventOf false now retentionDays data)
  trim :
    keep < 2 ^ 64 → ∀ chunks chunks' : List Bytes,
      chunks.flatten = data → chunks'.flatten = data →
        Trims keep data
          (trimToTurns false keep chunks chunks' data)

/-
  A log of judge calls alone, the last of them without a
  newline and longer than the bytes to be kept.
-/
structure CarriesAll
    (keepBytes : Nat)
    (data : Bytes) : Prop where
  long : keepBytes < data.length
  unended : ¬[newline] <:+ data
  uncut : newline ∉ data.drop (data.length - keepBytes)
  calls :
    ∀ line ∈ lines data, isJudgeCall eventOf line = true

end LogFile

------------------------------------------------------------
-- Lines
------------------------------------------------------------

namespace LogFile

open EventLog (newline)

variable {data rest : Bytes} {line : Bytes}

theorem ended_append_newline
    (body : Bytes) :
    ended (body ++ [newline]) = body ++ [newline] := by
  rw [ended, if_pos (List.suffix_append _ _)]

theorem ended_of_not_mem
    (hOpen : newline ∉ line) :
    ended line = line ++ [newline] := by
  rw [ended, if_neg]
  intro hSuffix
  exact hOpen (hSuffix.subset (by simp))

/- A line with its newline has one. -/
theorem ended_eq
    (hMember : line ∈ lines data) :
    ∃ body, newline ∉ body ∧ ended line = body ++ [newline] := by
  rcases (Inclusive.pieces_split data).of_mem hMember with
    ⟨-, hOpen⟩ | ⟨body, hBody, rfl⟩
  · exact ⟨line, hOpen, ended_of_not_mem hOpen⟩
  · exact ⟨body, hBody, ended_append_newline body⟩

theorem ended_ended
    (hMember : line ∈ lines data) :
    ended (ended line) = ended line := by
  rcases ended_eq hMember with ⟨body, -, hSame⟩
  rw [hSame, ended_append_newline]

/- Lines with their newlines, and what follows them. -/
theorem lines_flatMap_ended
    {picked : List Bytes}
    (hPicked : ∀ line ∈ picked, line ∈ lines data)
    (rest : Bytes) :
    lines (picked.flatMap ended ++ rest) =
      picked.map ended ++ lines rest := by
  have hPieces :
      Inclusive.Pieces newline
        (picked.map ended ++ lines rest) := by
    refine
      Inclusive.Pieces.append ?_ (Inclusive.pieces_split rest)
    intro piece hMember
    rcases List.mem_map.mp hMember with ⟨line, hIn, rfl⟩
    exact ended_eq (hPicked line hIn)
  have hText := Inclusive.split_flatten hPieces
  rw [List.flatten_append, ← List.flatMap_def] at hText
  have hRest : (lines rest).flatten = rest :=
    Inclusive.flatten_split rest
  rw [hRest] at hText
  exact hText

theorem flatten_lines
    (data : Bytes) :
    (lines data).flatten = data :=
  Inclusive.flatten_split data

/- Of a file's lines, only the last can gain a newline. -/
theorem flatMap_ended
    {pieces : List Bytes}
    (hPieces : Inclusive.Pieces newline pieces)
    (hSome : pieces ≠ []) :
    pieces.flatMap ended = ended pieces.flatten := by
  induction hPieces with
  | nil => exact absurd rfl hSome
  | tail hRest hOpen => simp
  | @cons body pieces hBody hPieces ih =>
      rw [List.flatMap_cons, ended_append_newline,
        List.flatten_cons]
      by_cases hNone : pieces = []
      · rw [hNone, List.flatMap_nil, List.flatten_nil,
          List.append_nil, ended_append_newline]
      · -- the last line is among those that follow
        rw [ih hNone]
        have hFilled : pieces.flatten ≠ [] := by
          intro hEmpty
          rcases List.exists_mem_of_ne_nil pieces hNone with
            ⟨piece, hIn⟩
          have hPiece :=
            List.flatten_eq_nil_iff.mp hEmpty piece hIn
          rcases hPieces.of_mem hIn with
            ⟨hNot, -⟩ | ⟨body', -, hSame⟩
          · exact hNot hPiece
          · rw [hSame] at hPiece
            simp at hPiece
        have hEnds :
            [newline] <:+ body ++ [newline] ++ pieces.flatten ↔
              [newline] <:+ pieces.flatten := by
          rw [List.singleton_suffix_iff_getLast?_eq_some,
            List.singleton_suffix_iff_getLast?_eq_some,
            List.getLast?_append_of_ne_nil _ hFilled]
        unfold ended
        simp only [hEnds]
        split
        · rfl
        · simp

theorem lines_eq_nil_iff :
    lines data = [] ↔ data = [] := by
  constructor
  · intro hNone
    rw [← flatten_lines data, hNone]
    rfl
  · rintro rfl
    rfl

end LogFile

------------------------------------------------------------
-- Compaction
------------------------------------------------------------

namespace LogFile

open EventLog (newline)

variable {eventOf : Bytes → Option String}
variable {data : Bytes} {keepBytes minFreed : Nat}

/- The tail starts after a newline, or there is no tail. -/
theorem tailStart_cases
    (keepBytes : Nat)
    (data : Bytes) :
    (tailStart keepBytes data = data.length ∧
        newline ∉ data.drop (data.length - keepBytes)) ∨
      ((data.take (tailStart keepBytes data)).getLast? =
          some newline ∧
        newline ∈ data.drop (data.length - keepBytes)) := by
  unfold tailStart
  simp only
  split
  · rename_i off hFind
    rw [List.findIdx?_eq_some_iff_getElem] at hFind
    rcases hFind with ⟨hBound, hHere, -⟩
    rw [decide_eq_true_eq] at hHere
    refine Or.inr ⟨?_, ?_⟩
    · rw [List.length_drop] at hBound
      rw [List.getElem_drop] at hHere
      rw [List.take_succ_eq_append_getElem (by omega), hHere]
      simp
    · rw [← hHere]
      exact List.getElem_mem hBound
  · rename_i hFind
    rw [List.findIdx?_eq_none_iff] at hFind
    refine Or.inl ⟨rfl, ?_⟩
    intro hMember
    simpa using hFind newline hMember

theorem lines_tailStart
    (keepBytes : Nat)
    (data : Bytes) :
    lines data =
      lines (data.take (tailStart keepBytes data)) ++
        lines (data.drop (tailStart keepBytes data)) := by
  rcases tailStart_cases keepBytes data with
    ⟨hAll, -⟩ | ⟨hLast, -⟩
  · rw [hAll, List.take_length, List.drop_length]
    exact (List.append_nil _).symm
  · have hSplit :=
      Inclusive.split_append_of_getLast? hLast
        (data.drop (tailStart keepBytes data))
    rw [List.take_append_drop] at hSplit
    exact hSplit

/- What is carried and what is removed is all of the head. -/
theorem length_carried
    (p : Bytes → Bool)
    (head : List Bytes) :
    ((head.filter p).flatMap ended).length +
        ((head.filter (fun line => !p line)).flatMap
          ended).length =
      (head.flatMap ended).length := by
  have hPerm :=
    (List.filter_append_perm p head).flatMap_right ended
  rw [List.flatMap_append] at hPerm
  rw [← List.length_append]
  exact hPerm.length_eq

theorem flatMap_ended_eq_nil_iff
    {picked : List Bytes} :
    picked.flatMap ended = [] ↔ picked = [] := by
  constructor
  · intro hNone
    rw [List.flatMap_eq_nil_iff] at hNone
    rw [List.eq_nil_iff_forall_not_mem]
    intro line hMember
    have hEmpty := hNone line hMember
    unfold ended at hEmpty
    split at hEmpty
    · rename_i hSuffix
      rw [hEmpty] at hSuffix
      simp at hSuffix
    · simp at hEmpty
  · rintro rfl
    rfl

/- The file that a compaction writes. -/
def compacted
    (eventOf : Bytes → Option String)
    (keepBytes : Nat)
    (data : Bytes) : Bytes :=
  ((lines (data.take (tailStart keepBytes data))).filter
      (isJudgeCall eventOf)).flatMap ended ++
    data.drop (tailStart keepBytes data)

/- Where a compaction subtracts below zero. -/
theorem lt_length_compacted_iff
    (hLong : keepBytes < data.length) :
    data.length < (compacted eventOf keepBytes data).length ↔
      CarriesAll eventOf keepBytes data := by
  have hSum :=
    length_carried (isJudgeCall eventOf)
      (lines (data.take (tailStart keepBytes data)))
  unfold compacted
  rw [List.length_append, List.length_drop]
  rcases tailStart_cases keepBytes data with
    ⟨hAll, hUncut⟩ | ⟨hLast, hCut⟩
  · -- the whole file is the head
    rw [hAll, List.take_length] at hSum ⊢
    have hData : lines data ≠ [] := by
      intro hNone
      rw [lines_eq_nil_iff.mp hNone] at hLong
      simp at hLong
    have hEnded :=
      flatMap_ended (Inclusive.pieces_split data) hData
    rw [show (Inclusive.split newline data).flatten = data from
      Inclusive.flatten_split data] at hEnded
    have hLines : lines data = Inclusive.split newline data :=
      rfl
    rw [hLines, hEnded] at hSum
    by_cases hSuffix : [newline] <:+ data
    · rw [ended, if_pos hSuffix] at hSum
      constructor
      · intro hMore
        rw [hLines] at hMore
        omega
      · intro hCarries
        exact absurd hSuffix hCarries.unended
    · rw [ended, if_neg hSuffix, List.length_append,
        List.length_singleton] at hSum
      constructor
      · intro hMore
        rw [hLines] at hMore
        have hNone :
            ((Inclusive.split newline data).filter
              (fun line => !isJudgeCall eventOf line)).flatMap
                ended = [] := by
          rw [← List.length_eq_zero_iff]
          omega
        rw [flatMap_ended_eq_nil_iff, List.filter_eq_nil_iff]
          at hNone
        refine ⟨hLong, hSuffix, hUncut, ?_⟩
        intro line hMember
        simpa using hNone line hMember
      · intro hCarries
        have hNone :
            (Inclusive.split newline data).filter
              (fun line => !isJudgeCall eventOf line) = [] := by
          rw [List.filter_eq_nil_iff]
          intro line hMember
          simp [hCarries.calls line hMember]
        rw [hNone] at hSum
        rw [hLines]
        simp only [List.flatMap_nil, List.length_nil] at hSum
        omega
  · constructor
    · intro hMore
      have hHead :
          lines (data.take (tailStart keepBytes data)) ≠ [] := by
        intro hNone
        rw [lines_eq_nil_iff.mp hNone] at hLast
        cases hLast
      have hEnded :=
        flatMap_ended
          (Inclusive.pieces_split
            (data.take (tailStart keepBytes data))) hHead
      rw [Inclusive.flatten_split, ended, if_pos
        (List.singleton_suffix_iff_getLast?_eq_some.mpr hLast)]
        at hEnded
      have hLength := congrArg List.length hEnded
      rw [List.length_take] at hLength
      have hLines :
          Inclusive.split newline
              (data.take (tailStart keepBytes data)) =
            lines (data.take (tailStart keepBytes data)) := rfl
      rw [hLines] at hLength
      omega
    · intro hCarries
      exact absurd hCut hCarries.uncut

/- What a compaction moves, where it rewrites the file. -/
theorem splits_compacted
    (eventOf : Bytes → Option String)
    (keepBytes : Nat)
    (data : Bytes) :
    let head := lines (data.take (tailStart keepBytes data))
    let tail := lines (data.drop (tailStart keepBytes data))
    lines data = head ++ tail ∧
      lines
          ((head.filter
            (fun line => !isJudgeCall eventOf line)).flatMap
              ended) =
        (head.filter
          (fun line => !isJudgeCall eventOf line)).map ended ∧
      lines (compacted eventOf keepBytes data) =
        (head.filter (isJudgeCall eventOf)).map ended ++
          tail := by
  refine ⟨lines_tailStart keepBytes data, ?_, ?_⟩
  · have hPicked :
        ∀ line ∈
            (lines (data.take (tailStart keepBytes data))).filter
              (fun line => !isJudgeCall eventOf line),
          line ∈ lines (data.take (tailStart keepBytes data)) :=
      fun line hIn => (List.mem_filter.mp hIn).1
    have hLines := lines_flatMap_ended hPicked []
    rw [List.append_nil] at hLines
    rw [hLines]
    exact List.append_nil _
  · exact
      lines_flatMap_ended
        (fun line hIn => (List.mem_filter.mp hIn).1) _

/- The removed lines and the kept ones are the old lines. -/
theorem perm_of_splits
    {head tail : List Bytes}
    {live archived : Bytes}
    (hData : lines data = head ++ tail)
    (hArchived :
      lines archived =
        (head.filter
          (fun line => !isJudgeCall eventOf line)).map ended)
    (hLive :
      lines live =
        (head.filter (isJudgeCall eventOf)).map ended ++ tail) :
    ((lines archived ++ lines live).map ended).Perm
      ((lines data).map ended) := by
  have hTwice :
      ∀ picked : List Bytes, (∀ line ∈ picked, line ∈ head) →
        (picked.map ended).map ended = picked.map ended := by
    intro picked hPicked
    rw [List.map_map]
    apply List.map_congr_left
    intro line hIn
    have hMember : line ∈ lines data := by
      rw [hData]
      exact List.mem_append_left _ (hPicked line hIn)
    exact ended_ended hMember
  rw [hArchived, hLive, hData]
  simp only [List.map_append]
  rw [hTwice _ (fun line hIn => (List.mem_filter.mp hIn).1),
    hTwice _ (fun line hIn => (List.mem_filter.mp hIn).1),
    ← List.append_assoc, ← List.map_append]
  apply List.Perm.append_right
  apply List.Perm.map
  exact
    List.perm_append_comm.trans
      (List.filter_append_perm (isJudgeCall eventOf) head)

theorem compacts_standDown
    (data : Bytes)
    {p : Pass}
    (hLive : p.live = data)
    (hArchived : p.archived = [])
    (hMoved : p.moved = false)
    (hExact : p.underflows = false) :
    Compacts eventOf data p where
  stays _ := ⟨hLive, hArchived⟩
  splits hMoves := by
    rw [hMoved] at hMoves
    cases hMoves
  together := by
    rw [hLive, hArchived]
    exact List.Perm.refl _
  judge line hMember _ := by
    rw [hLive]
    exact Or.inl hMember
  exact := hExact

theorem compacts_compacted
    (eventOf : Bytes → Option String)
    (keepBytes : Nat)
    (data : Bytes) :
    Compacts eventOf data
      { live := compacted eventOf keepBytes data
        archived :=
          ((lines (data.take (tailStart keepBytes data))).filter
            (fun line => !isJudgeCall eventOf line)).flatMap
              ended
        moved := true
        underflows := false } := by
  rcases splits_compacted eventOf keepBytes data with
    ⟨hData, hArchived, hLive⟩
  refine
    ⟨(fun hStays => nomatch hStays),
      fun _ => ⟨_, _, hData, hArchived, hLive⟩,
      perm_of_splits hData hArchived hLive, ?_, rfl⟩
  intro line hMember hJudge
  simp only [hLive]
  rw [hData] at hMember
  rcases List.mem_append.mp hMember with hHead | hTail
  · refine Or.inr (List.mem_append_left _ ?_)
    exact
      List.mem_map_of_mem
        (List.mem_filter.mpr ⟨hHead, hJudge⟩)
  · exact Or.inl (List.mem_append_right _ hTail)

/- A compaction conserves the lines where it subtracts well. -/
theorem compacts_iff
    (eventOf : Bytes → Option String)
    (keepBytes minFreed : Nat)
    (data : Bytes) :
    Compacts eventOf data
        (compactLogTail eventOf false keepBytes minFreed data) ↔
      ¬CarriesAll eventOf keepBytes data := by
  by_cases hLong : keepBytes < data.length
  · rw [← lt_length_compacted_iff hLong, Nat.not_lt]
    have hGoes :
        ¬(data.length ≤ keepBytes ∨ false = true) := by
      simpa using hLong
    unfold compactLogTail
    rw [if_neg hGoes]
    simp only
    constructor
    · intro hCompacts
      have hExact := hCompacts.exact
      split at hExact
      · simpa [compacted] using hExact
      · simpa [compacted] using hExact
    · intro hFits
      have hUnder :
          decide
              (data.length <
                (compacted eventOf keepBytes data).length) =
            false := by
        simpa using hFits
      unfold compacted at hUnder
      rw [hUnder]
      split
      · exact compacts_standDown data rfl rfl rfl rfl
      · exact compacts_compacted eventOf keepBytes data
  · have hShort : data.length ≤ keepBytes ∨ false = true :=
      Or.inl (Nat.not_lt.mp hLong)
    unfold compactLogTail
    rw [if_pos hShort]
    constructor
    · intro _ hCarries
      exact hLong hCarries.long
    · intro _
      exact compacts_standDown data rfl rfl rfl rfl

end LogFile

------------------------------------------------------------
-- Rotation By Age
------------------------------------------------------------

namespace LogFile

open EventLog (newline lineTs cutoffOf)

variable {eventOf : Bytes → Option String}
variable {cutoff : Nat} {front : List Bytes} {line : Bytes}

/- What the scan has found once it is past some lines. -/
def Split.past
    (eventOf : Bytes → Option String)
    (cutoff : Nat)
    (s : Split)
    (front : List Bytes) : Split where
  kept :=
    s.kept ++
      (front.filter
        (fun line => !expires eventOf cutoff line)).flatten
  expired :=
    s.expired ++
      (front.filter (expires eventOf cutoff)).flatten
  currentFrom := s.currentFrom + front.flatten.length

/- A line that is not current is kept, or expires. -/
theorem splitFrom_cons
    (hOld : isCurrent eventOf cutoff line = false)
    (s : Split)
    (rest : List Bytes) :
    splitFrom eventOf cutoff s (line :: rest) =
      splitFrom eventOf cutoff (s.past eventOf cutoff [line])
        rest := by
  rw [splitFrom]
  cases hJudge : isJudgeCall eventOf line with
  | true =>
      have hNot : expires eventOf cutoff line = false := by
        simp [expires, hJudge]
      simp [Split.past, hNot]
  | false =>
      cases hTs : lineTs line with
      | none =>
          have hNot : expires eventOf cutoff line = false := by
            simp [expires, hTs]
          simp [Split.past, hNot]
      | some ts =>
          have hBelow : ts < cutoff := by
            simpa [isCurrent, hJudge, hTs] using hOld
          have hYes : expires eventOf cutoff line = true := by
            simp [expires, hJudge, hTs, hBelow]
          simp [Split.past, hYes, Nat.not_le.mpr hBelow]

theorem splitFrom_append
    (hOld :
      ∀ line ∈ front, isCurrent eventOf cutoff line = false)
    (s : Split)
    (rest : List Bytes) :
    splitFrom eventOf cutoff s (front ++ rest) =
      splitFrom eventOf cutoff (s.past eventOf cutoff front)
        rest := by
  induction front generalizing s with
  | nil => simp [Split.past]
  | cons line front ih =>
      rw [List.cons_append, splitFrom_cons (hOld line (by simp)),
        ih (fun other hIn =>
          hOld other (List.mem_cons_of_mem _ hIn))]
      congr 1
      simp only [Split.past, List.filter_cons, List.filter_nil]
      cases expires eventOf cutoff line <;>
        simp [Nat.add_assoc]

theorem splitFrom_current
    (hCurrent : isCurrent eventOf cutoff line = true)
    (s : Split)
    (rest : List Bytes) :
    splitFrom eventOf cutoff s (line :: rest) =
      if s.expired.isEmpty then none else some s := by
  simp only [isCurrent, Bool.and_eq_true, Bool.not_eq_true',
    Option.any_eq_true, decide_eq_true_eq] at hCurrent
  rcases hCurrent with ⟨hJudge, ts, hTs, hReached⟩
  rw [splitFrom]
  simp [hJudge, hTs, hReached]

theorem flatten_eq_nil_iff
    {data : Bytes}
    {picked : List Bytes}
    (hPicked : ∀ line ∈ picked, line ∈ lines data) :
    picked.flatten = [] ↔ picked = [] := by
  constructor
  · intro hNone
    rw [List.eq_nil_iff_forall_not_mem]
    intro line hIn
    have hEmpty := List.flatten_eq_nil_iff.mp hNone line hIn
    rcases (Inclusive.pieces_split data).of_mem
      (hPicked line hIn) with ⟨hSome, -⟩ | ⟨body, -, hSame⟩
    · exact hSome hEmpty
    · rw [hSame] at hEmpty
      simp at hEmpty
  · rintro rfl
    rfl

theorem lines_flatten
    {pieces : List Bytes}
    (hPieces : Inclusive.Pieces newline pieces) :
    lines pieces.flatten = pieces :=
  Inclusive.split_flatten hPieces

/- A rotation conserves the lines, whatever its cutoff. -/
theorem rotates
    (eventOf : Bytes → Option String)
    (now retentionDays : Nat)
    (data : Bytes) :
    Rotates eventOf
      (cutoffOf now retentionDays (newestTs data)) data
      (rotateLogByAge eventOf false now retentionDays data) := by
  generalize hCutoff :
    cutoffOf now retentionDays (newestTs data) = cutoff
  have hStands
      (hNone : splitExpired eventOf cutoff data = none) :
      rotateLogByAge eventOf false now retentionDays data =
        standDown data := by
    simp only [rotateLogByAge, hCutoff, hNone, Bool.false_eq_true,
      if_false]
  have hGoes
      {split : Split}
      (hSome : splitExpired eventOf cutoff data = some split) :
      rotateLogByAge eventOf false now retentionDays data =
        { live := split.kept ++ data.drop split.currentFrom
          archived := split.expired
          moved := true
          underflows := false } := by
    simp only [rotateLogByAge, hCutoff, hSome, Bool.false_eq_true,
      if_false]
  constructor
  · intro hNone
    have hScan :=
      splitFrom_append hNone
        { kept := [], expired := [], currentFrom := 0 } []
    rw [List.append_nil] at hScan
    apply hStands
    rw [splitExpired, hScan]
    rfl
  · intro front line back hData hOld hCurrent
    have hScan :=
      splitFrom_append hOld
        { kept := [], expired := [], currentFrom := 0 }
        (line :: back)
    rw [splitFrom_current hCurrent, ← hData] at hScan
    simp only [Split.past, List.nil_append, Nat.zero_add]
      at hScan
    have hPieces :
        Inclusive.Pieces newline (front ++ line :: back) := by
      rw [← hData]
      exact Inclusive.pieces_split data
    rcases hPieces.ended_of_append (by simp) with
      ⟨hEnded, hBack⟩
    have hPicked :
        ∀ p : Bytes → Bool, ∀ rest : List Bytes,
          Inclusive.Pieces newline rest →
            lines ((front.filter p ++ rest).flatten) =
              front.filter p ++ rest :=
      fun p rest hRest =>
        lines_flatten
          (Inclusive.Pieces.append
            (fun piece hIn =>
              hEnded piece (List.mem_filter.mp hIn).1) hRest)
    have hDrop :
        data.drop front.flatten.length =
          (line :: back).flatten := by
      have hText := flatten_lines data
      rw [hData, List.flatten_append] at hText
      rw [← hText, List.drop_left]
    have hExpired :=
      hPicked (expires eventOf cutoff) [] .nil
    rw [List.append_nil] at hExpired
    by_cases hNone :
        front.filter (expires eventOf cutoff) = []
    · -- nothing expires, and nothing moves
      rw [hNone] at hScan ⊢
      simp only [List.flatten_nil, List.isEmpty_nil, if_true]
        at hScan
      rw [hStands hScan]
      have hAll :
          front.filter
              (fun line => !expires eventOf cutoff line) =
            front := by
        rw [List.filter_eq_self]
        intro other hIn
        rw [List.filter_eq_nil_iff] at hNone
        simpa using hNone other hIn
      rw [hAll]
      exact ⟨rfl, hData⟩
    · have hFilled :
          ((front.filter
              (expires eventOf cutoff)).flatten).isEmpty =
            false := by
        rw [List.isEmpty_eq_false_iff]
        intro hEmpty
        refine
          hNone ((@flatten_eq_nil_iff data _ ?_).mp hEmpty)
        intro other hIn
        rw [hData]
        exact
          List.mem_append_left _ (List.mem_filter.mp hIn).1
      rw [hFilled] at hScan
      simp only [Bool.false_eq_true, if_false] at hScan
      rw [hGoes hScan]
      refine ⟨hExpired, ?_⟩
      rw [hDrop, ← List.flatten_append]
      exact hPicked _ _ hBack

end LogFile

------------------------------------------------------------
-- The Scan For Turns
------------------------------------------------------------

namespace LogFile

open EventLog (newline within)

/- The offsets of the lines that start a turn. -/
def startsFrom
    (pos : Nat) : List Bytes → List Nat
| [] => []
| line :: rest =>
    if startsTurn line then
      pos :: startsFrom (pos + line.length) rest
    else startsFrom (pos + line.length) rest

theorem startsFrom_append
    (pos : Nat)
    (front back : List Bytes) :
    startsFrom pos (front ++ back) =
      startsFrom pos front ++
        startsFrom (pos + front.flatten.length) back := by
  induction front generalizing pos with
  | nil => simp [startsFrom]
  | cons line front ih =>
      rw [List.cons_append, startsFrom, startsFrom, ih,
        List.flatten_cons, List.length_append, Nat.add_assoc]
      split <;> rfl

theorem within_iff
    {word bytes : Bytes} :
    within word bytes = true ↔ word <:+: bytes := by
  unfold within
  rw [List.any_eq_true]
  constructor
  · rintro ⟨tail, hTail, hPrefix⟩
    rw [List.isPrefixOf_iff_prefix] at hPrefix
    exact
      hPrefix.isInfix.trans
        ((List.mem_tails _ _).mp hTail).isInfix
  · rintro ⟨before, after, rfl⟩
    refine
      ⟨word ++ after, (List.mem_tails _ _).mpr ?_, ?_⟩
    · rw [List.append_assoc]
      exact List.suffix_append _ _
    · exact
        List.isPrefixOf_iff_prefix.mpr (List.prefix_append _ _)

/- A segment's marker, or one across it, is the line's. -/
theorem startsTurn_append
    (cur seg : Bytes) :
    startsTurn (cur ++ seg) =
      (startsTurn cur ||
        markerIn (Windows.tailOf (turnStart.length - 1) cur)
          seg) := by
  rw [Bool.eq_iff_iff]
  unfold startsTurn markerIn
  simp only [Bool.or_eq_true, within_iff]
  exact Windows.infix_append_iff turnStart cur seg

/-
  What the scan knows of the bytes it has read: the lines
  that are done, and the one it is in.
-/
structure Scan.Ok
    (s : Scan)
    (done : List Bytes)
    (cur : Bytes) : Prop where
  ended :
    ∀ line ∈ done, ∃ body, newline ∉ body ∧
      line = body ++ [newline]
  unended : newline ∉ cur
  pos : s.pos = done.flatten.length + cur.length
  lineStart : s.lineStart = done.flatten.length
  found : s.found = startsTurn cur
  tail : s.tail = Windows.tailOf (turnStart.length - 1) cur
  visited :
    s.visited =
      startsFrom 0 done ++
        if startsTurn cur then [done.flatten.length] else []

variable {s : Scan} {done : List Bytes} {cur seg : Bytes}

/- A line is visited once, when its marker is first seen. -/
theorem Scan.Ok.visit
    (hOk : s.Ok done cur)
    (seg : Bytes) :
    (if !s.found && markerIn s.tail seg then
        s.visited ++ [s.lineStart]
      else s.visited) =
      startsFrom 0 done ++
        if startsTurn (cur ++ seg) then [done.flatten.length]
        else [] := by
  rw [hOk.found, hOk.tail, hOk.visited, hOk.lineStart,
    startsTurn_append]
  cases startsTurn cur with
  | true => simp
  | false =>
      simp only [Bool.not_false, Bool.true_and, Bool.false_or,
        Bool.false_eq_true, if_false, List.append_nil]
      split <;> simp

theorem Scan.Ok.segment_open
    (hOk : s.Ok done cur)
    (hOpen : newline ∉ seg) :
    (scanSegment s seg).Ok done (cur ++ seg) := by
  have hNot : ¬[newline] <:+ seg := by
    intro hSuffix
    exact hOpen (hSuffix.subset (by simp))
  unfold scanSegment
  simp only [if_neg hNot]
  refine ⟨hOk.ended, ?_, ?_, hOk.lineStart, ?_, ?_, hOk.visit seg⟩
  · rw [List.mem_append, not_or]
    exact ⟨hOk.unended, hOpen⟩
  · simp only [hOk.pos, List.length_append, Nat.add_assoc]
  · simp only [hOk.found, hOk.tail, startsTurn_append]
    cases startsTurn cur <;> simp
  · simp only [hOk.tail, Windows.tailOf_append]

theorem Scan.Ok.segment_ended
    {body : Bytes}
    (hOk : s.Ok done cur)
    (hBody : newline ∉ body) :
    (scanSegment s (body ++ [newline])).Ok
      (done ++ [cur ++ (body ++ [newline])]) [] := by
  have hVisit := hOk.visit (body ++ [newline])
  unfold scanSegment
  simp only [if_pos (List.suffix_append body [newline])]
  refine ⟨?_, by simp, ?_, ?_, rfl, by simp, ?_⟩
  · intro line hMember
    rcases List.mem_append.mp hMember with hIn | hLast
    · exact hOk.ended line hIn
    · rw [List.mem_singleton.mp hLast]
      refine ⟨cur ++ body, ?_, by simp⟩
      rw [List.mem_append, not_or]
      exact ⟨hOk.unended, hBody⟩
  · simp [hOk.pos, Nat.add_assoc]
  · simp [hOk.pos, Nat.add_assoc]
  · have hNone : startsTurn [] = false := by decide
    rw [hVisit, startsFrom_append, hNone]
    simp only [Nat.zero_add, startsFrom, Bool.false_eq_true,
      if_false, List.append_nil]

/- The segments of a chunk, the last of them perhaps open. -/
theorem Scan.Ok.chunk
    {pieces : List Bytes}
    (hOk : s.Ok done cur)
    (hPieces : Inclusive.Pieces newline pieces) :
    ∃ done' cur',
      (pieces.foldl scanSegment s).Ok done' cur' ∧
        done'.flatten ++ cur' =
          done.flatten ++ cur ++ pieces.flatten := by
  induction hPieces generalizing s done cur with
  | nil => exact ⟨done, cur, hOk, by simp⟩
  | tail hRest hOpen =>
      rename_i rest
      exact
        ⟨done, cur ++ rest, hOk.segment_open hOpen, by simp⟩
  | cons hBody _ ih =>
      rename_i body pieces
      rcases ih (hOk.segment_ended hBody) with
        ⟨done', cur', hOk', hText⟩
      refine ⟨done', cur', hOk', ?_⟩
      rw [hText]
      simp

/- However a file is read, its turns start where they do. -/
theorem scanTurnStarts_eq
    (chunks : List Bytes) :
    scanTurnStarts chunks =
      startsFrom 0 (lines chunks.flatten) := by
  have hRun :
      ∀ (chunks : List Bytes) (s : Scan) done cur,
        s.Ok done cur →
          ∃ done' cur',
            (chunks.foldl
              (fun s chunk => (lines chunk).foldl scanSegment s)
                s).Ok done' cur' ∧
              done'.flatten ++ cur' =
                done.flatten ++ cur ++ chunks.flatten := by
    intro chunks
    induction chunks with
    | nil =>
        intro s done cur hOk
        exact ⟨done, cur, hOk, by simp⟩
    | cons chunk chunks ih =>
        intro s done cur hOk
        rcases hOk.chunk (Inclusive.pieces_split chunk) with
          ⟨done', cur', hOk', hText⟩
        rcases ih _ done' cur' hOk' with
          ⟨done'', cur'', hOk'', hText'⟩
        refine ⟨done'', cur'', hOk'', ?_⟩
        rw [hText', hText, Inclusive.flatten_split]
        simp
  have hStart :
      Scan.Ok
        { pos := 0
          lineStart := 0
          found := false
          tail := []
          visited := [] } [] [] :=
    ⟨by simp, by simp, rfl, rfl, by decide, by simp, by decide⟩
  rcases hRun chunks _ [] [] hStart with
    ⟨done, cur, hOk, hText⟩
  simp only [List.flatten_nil, List.nil_append] at hText
  unfold scanTurnStarts
  rw [hOk.visited, ← hText]
  by_cases hNone : cur = []
  · have hLines : lines (done.flatten ++ cur) = done := by
      rw [hNone, List.append_nil]
      have hPieces := Inclusive.Pieces.append hOk.ended .nil
      rw [List.append_nil] at hPieces
      exact lines_flatten hPieces
    have hFalse : startsTurn [] = false := by decide
    rw [hLines, hNone, hFalse]
    simp
  · have hLines :
        lines (done.flatten ++ cur) = done ++ [cur] := by
      have hPieces :=
        Inclusive.Pieces.append hOk.ended
          (.tail hNone hOk.unended)
      have hSplit := lines_flatten hPieces
      rw [List.flatten_append, List.flatten_singleton] at hSplit
      exact hSplit
    rw [hLines, startsFrom_append, Nat.zero_add]
    simp only [startsFrom]

end LogFile

------------------------------------------------------------
-- The Turn Trim
------------------------------------------------------------

namespace LogFile

open EventLog (newline tooManyTurns)

variable {data : Bytes}

theorem length_startsFrom
    (pos : Nat)
    (pieces : List Bytes) :
    (startsFrom pos pieces).length =
      pieces.countP startsTurn := by
  induction pieces generalizing pos with
  | nil => rfl
  | cons line pieces ih =>
      rw [startsFrom, List.countP_cons]
      split
      · rw [List.length_cons, ih]
      · rw [ih, Nat.add_zero]

/- The lines before a turn's start, and those from it on. -/
theorem split_of_startsFrom
    {i pos offset : Nat}
    {pieces : List Bytes}
    (hAt : (startsFrom pos pieces)[i]? = some offset) :
    ∃ front line back,
      pieces = front ++ line :: back ∧
        startsTurn line = true ∧
          front.countP startsTurn = i ∧
            offset = pos + front.flatten.length := by
  induction pieces generalizing i pos with
  | nil => simp [startsFrom] at hAt
  | cons line pieces ih =>
      rw [startsFrom] at hAt
      have hLater :
          ∀ k, (startsFrom (pos + line.length) pieces)[k]? =
              some offset →
            ∃ front line' back,
              line :: pieces = (line :: front) ++ line' :: back ∧
                startsTurn line' = true ∧
                  front.countP startsTurn = k ∧
                    offset =
                      pos + (line :: front).flatten.length := by
        intro k hK
        rcases ih hK with
          ⟨front, line', back, hSame, hTurn, hCount, hPos⟩
        refine
          ⟨front, line', back, by rw [hSame]; rfl, hTurn, hCount,
            ?_⟩
        rw [hPos, List.flatten_cons, List.length_append,
          Nat.add_assoc]
      split at hAt
      · rename_i hTurn
        cases i with
        | zero =>
            have hPos : pos = offset := by
              simpa using hAt
            exact
              ⟨[], line, pieces, rfl, hTurn, rfl, by
                simp [hPos]⟩
        | succ i =>
            rw [List.getElem?_cons_succ] at hAt
            rcases hLater i hAt with
              ⟨front, line', back, hSame, hTurn', hCount, hPos⟩
            refine
              ⟨line :: front, line', back, hSame, hTurn', ?_,
                hPos⟩
            rw [List.countP_cons, hCount, if_pos hTurn]
      · rename_i hTurn
        rcases hLater i hAt with
          ⟨front, line', back, hSame, hTurn', hCount, hPos⟩
        refine
          ⟨line :: front, line', back, hSame, hTurn', ?_, hPos⟩
        rw [List.countP_cons, hCount, if_neg hTurn]
        rfl

/- A trim conserves the lines, however the file is read. -/
theorem trims
    {chunks chunks' : List Bytes}
    {keep : Nat}
    (hKeep : keep < 2 ^ 64)
    (hChunks : chunks.flatten = data)
    (hChunks' : chunks'.flatten = data) :
    Trims keep data (trimToTurns false keep chunks chunks' data) := by
  unfold trimToTurns
  rw [if_neg (by decide), scanTurnStarts_eq, scanTurnStarts_eq,
    hChunks, hChunks', length_startsFrom]
  simp only
  split
  · exact Or.inl rfl
  · rename_i hMany
    split
    · exact Or.inl rfl
    · rename_i cut hCut
      refine Or.inr ?_
      rcases split_of_startsFrom hCut with
        ⟨front, line, back, hData, hTurn, hCount, hPos⟩
      rw [Nat.zero_add] at hPos
      have hText := flatten_lines data
      rw [hData, List.flatten_append] at hText
      have hPieces :
          Inclusive.Pieces newline (front ++ line :: back) := by
        rw [← hData]
        exact Inclusive.pieces_split data
      rcases hPieces.ended_of_append (by simp) with
        ⟨hEnded, hBack⟩
      have hFront := Inclusive.Pieces.append hEnded .nil
      rw [List.append_nil] at hFront
      have hTake : data.take cut = front.flatten := by
        rw [hPos, ← hText, List.take_left]
      have hDrop : data.drop cut = (line :: back).flatten := by
        rw [hPos, ← hText, List.drop_left]
      have hKept :
          (line :: back).countP startsTurn = max keep 1 := by
        have hAll :
            (lines data).countP startsTurn =
              front.countP startsTurn +
                (line :: back).countP startsTurn := by
          rw [hData, List.countP_append]
        have hSome : max keep 1 ≤
            (lines data).countP startsTurn := by
          simp only [tooManyTurns, Bool.not_eq_true',
            decide_eq_false_iff_not, not_not] at hMany
          omega
        omega
      exact
        ⟨front, line, back, hData, hTurn, hKept, hDrop,
          by rw [hDrop]; exact lines_flatten hBack, hTake,
          by rw [hTake]; exact lines_flatten hFront⟩

end LogFile

------------------------------------------------------------
-- The Three Passes
------------------------------------------------------------

namespace LogFile

open EventLog (ascii)

/-
  Whatever a log holds, its maintenance conserves the lines,
  and the size arithmetic is exact but where a compaction
  has only judge calls to carry, the last of them with no
  newline.
-/
theorem conserves_iff
    (eventOf : Bytes → Option String)
    (data : Bytes)
    (keepBytes minFreed now retentionDays keep : Nat) :
    Conserves eventOf data keepBytes minFreed now retentionDays
        keep ↔
      ¬CarriesAll eventOf keepBytes data := by
  constructor
  · intro hConserves
    exact
      (compacts_iff eventOf keepBytes minFreed data).mp
        hConserves.compaction
  · intro hNot
    exact
      { compaction :=
          (compacts_iff eventOf keepBytes minFreed data).mpr hNot
        rotation := rotates eventOf now retentionDays data
        trim := fun hKeep _ _ hChunks hChunks' =>
          trims hKeep hChunks hChunks' }

/- A judge call that a crash left without its newline. -/
def tornCall : Bytes :=
  ascii "\x7b\x22event\x22:\x22judge_call\x22\x7d"

def tornEvent
    (line : Bytes) : Option String :=
  if line = tornCall then some "judge_call" else none

theorem not_conserves :
    ¬ ∀ eventOf data keepBytes minFreed now retentionDays keep,
      Conserves eventOf data keepBytes minFreed now
        retentionDays keep := by
  intro hClaim
  have hExact :=
    (hClaim tornEvent tornCall 8 1 0 1 1).compaction.exact
  exact absurd hExact (by decide)

end LogFile
