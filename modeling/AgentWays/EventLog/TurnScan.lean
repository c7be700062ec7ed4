import AgentWays.EventLog.LogFileSpec

/-
  The scan of a log for the lines that start a turn, as it
  reads the file: a buffer at a time, the marker looked for
  in a joint buffer of fixed size, and the caller's visit
  free to end it.

  An operation is `none` where a slice is out of bounds or a
  copy is of another length than its place.

  Key definitions include:
    * `TurnScan.markerIn`
    * `TurnScan.scanTurnStarts`
    * `TurnScan.visitAll`

  Main declarations:
    * `TurnScan.scanTurnStarts_visits`
-/

------------------------------------------------------------
-- The Scan
------------------------------------------------------------

namespace TurnScan

open EventLog (newline within)
open LogFile (Bytes turnStart)

/- `&bytes[from..to]`. -/
def slice
    (bytes : Bytes)
    (first last : Nat) : Option Bytes :=
  if first ≤ last ∧ last ≤ bytes.length then
    some ((bytes.take last).drop first)
  else none

/- `buffer[from..to].copy_from_slice(src)`. -/
def copyInto
    (buffer : Bytes)
    (first last : Nat)
    (src : Bytes) : Option Bytes :=
  if first ≤ last ∧ last ≤ buffer.length ∧
      src.length = last - first then
    some (buffer.take first ++ src ++ buffer.drop last)
  else none

/-
  Whether the marker is in a segment, or across the tail of
  its line and the segment, put together in the joint buffer.
-/
def markerIn
    (tail seg : Bytes) : Option Bool :=
  if within turnStart seg then some true
  else
    let joint := List.replicate (2 * turnStart.length) 0
    let k := min seg.length (turnStart.length - 1)
    (copyInto joint 0 tail.length tail).bind (fun joint =>
      (slice seg 0 k).bind (fun src =>
        (copyInto joint tail.length (tail.length + k) src).bind
          (fun joint =>
            (slice joint 0 (tail.length + k)).map
              (within turnStart))))

/- A scan under way, with what the caller's visits make. -/
structure State (σ : Type) where
  pos : Nat
  lineStart : Nat
  found : Bool
  count : Nat
  tail : Bytes
  visitor : σ

/- A scan goes on, or has returned. -/
inductive Flow (σ : Type)
| on (s : State σ)
| returned (count : Nat) (visitor : σ)

variable {σ : Type} (visit : σ → Nat → Nat → σ × Bool)

/- The line of a segment goes on, or ends with it. -/
def State.pass
    (s : State σ)
    (seg : Bytes)
    (last : Nat) : State σ :=
  if [newline] <:+ seg then
    { s with
      lineStart := s.pos + last
      found := false
      tail := [] }
  else
    let tail :=
      s.tail ++ seg.drop (seg.length - (turnStart.length - 1))
    let excess := tail.length - (turnStart.length - 1)
    { s with tail := tail.drop excess }

/- A segment of a chunk that ends at a place of it. -/
def scanSegment
    (s : State σ)
    (seg : Bytes)
    (last : Nat) : Option (Flow σ) :=
  (if s.found then some false else markerIn s.tail seg).map
    (fun hit =>
      if hit then
        let seen := visit s.visitor s.count s.lineStart
        let s :=
          { s with
            found := true
            count := s.count + 1
            visitor := seen.1 }
        if seen.2 then .on (s.pass seg last)
        else .returned s.count s.visitor
      else .on (s.pass seg last))

/- The end of the segment that starts at a place. -/
def segmentEnd
    (chunk : Bytes)
    (i : Nat) : Nat :=
  match (chunk.drop i).idxOf? newline with
  | some j => i + j + 1
  | none => chunk.length

theorem lt_segmentEnd
    {chunk : Bytes}
    {i : Nat}
    (hLt : i < chunk.length) :
    i < segmentEnd chunk i := by
  unfold segmentEnd
  split <;> omega

theorem segmentEnd_le
    {chunk : Bytes}
    {i : Nat}
    (hLt : i < chunk.length) :
    segmentEnd chunk i ≤ chunk.length := by
  unfold segmentEnd
  split
  · rename_i j hFind
    rcases List.idxOf?_eq_some_iff.mp hFind with ⟨hBound, -⟩
    rw [List.length_drop] at hBound
    omega
  · exact Nat.le_refl _

/- The segments of a chunk from a place on. -/
def scanChunk
    (chunk : Bytes)
    (i : Nat)
    (s : State σ) : Option (Flow σ) :=
  if _hLt : i < chunk.length then
    let last := segmentEnd chunk i
    match
      (slice chunk i last).bind
        (fun seg => scanSegment visit s seg last) with
    | none => none
    | some (.on s) => scanChunk chunk last s
    | some (.returned count visitor) =>
        some (.returned count visitor)
  else some (.on s)
termination_by chunk.length - i
decreasing_by
  have hMore := lt_segmentEnd _hLt
  omega

/- The reads of a file; an empty one is its end. -/
def scanReads
    (s : State σ) : List Bytes → Option (Nat × σ)
| [] => some (s.count, s.visitor)
| chunk :: rest =>
    if chunk.isEmpty then some (s.count, s.visitor)
    else
      match scanChunk visit chunk 0 s with
      | none => none
      | some (.on s) =>
          scanReads { s with pos := s.pos + chunk.length } rest
      | some (.returned count visitor) => some (count, visitor)

/-
  How many lines that start a turn were visited, and what
  the visits made.
-/
def scanTurnStarts
    (visitor : σ)
    (reads : List Bytes) : Option (Nat × σ) :=
  scanReads visit
    { pos := 0
      lineStart := 0
      found := false
      count := 0
      tail := []
      visitor := visitor } reads

/- Places visited one by one, until a visit ends them. -/
def visitAll
    (visitor : σ)
    (i : Nat) : List Nat → Nat × σ
| [] => (i, visitor)
| place :: rest =>
    let seen := visit visitor i place
    if seen.2 then visitAll seen.1 (i + 1) rest
    else (i + 1, seen.1)

/- Reads of a file into a buffer: none empty, none too long. -/
structure Reads
    (buf : Nat)
    (content : Bytes)
    (reads : List Bytes) : Prop where
  whole : reads.flatten = content
  filled : ∀ read ∈ reads, 0 < read.length ∧ read.length ≤ buf

end TurnScan

------------------------------------------------------------
-- The Joint Buffer
------------------------------------------------------------

namespace TurnScan

open EventLog (newline within)
open LogFile (Bytes turnStart lines)

theorem slice_eq
    {bytes : Bytes}
    {first last : Nat}
    (hOrder : first ≤ last)
    (hBound : last ≤ bytes.length) :
    slice bytes first last =
      some ((bytes.take last).drop first) :=
  if_pos ⟨hOrder, hBound⟩

theorem copyInto_append
    {front back : Bytes}
    {src : Bytes}
    (hRoom : src.length ≤ back.length) :
    copyInto (front ++ back) front.length
        (front.length + src.length) src =
      some (front ++ src ++ back.drop src.length) := by
  unfold copyInto
  rw [if_pos (by
    simp only [List.length_append]
    omega)]
  simp [List.drop_append]

/- A short tail and a segment's start fit the joint buffer. -/
theorem markerIn_eq
    {tail : Bytes}
    (hShort : tail.length ≤ turnStart.length - 1)
    (seg : Bytes) :
    markerIn tail seg = some (LogFile.markerIn tail seg) := by
  have hLength : turnStart.length = 17 := by decide
  unfold markerIn LogFile.markerIn
  cases hSeg : within turnStart seg with
  | true => rfl
  | false =>
      have hTake :
          seg.take (min seg.length (turnStart.length - 1)) =
            seg.take (turnStart.length - 1) := by
        rw [List.take_eq_take_iff]
        omega
      have hFirst :=
        @copyInto_append []
          (List.replicate (2 * turnStart.length) 0) tail (by
            rw [List.length_replicate]
            omega)
      have hSecond :=
        @copyInto_append tail
          ((List.replicate (2 * turnStart.length) 0).drop
            tail.length)
          (seg.take (turnStart.length - 1)) (by
            rw [List.length_take, List.length_drop,
              List.length_replicate]
            omega)
      have hLong :
          (seg.take (turnStart.length - 1)).length =
            min seg.length (turnStart.length - 1) := by
        rw [List.length_take, Nat.min_comm]
      simp only [List.nil_append, List.length_nil,
        Nat.zero_add] at hFirst
      rw [hLong] at hSecond
      rw [if_neg (by simp), Bool.false_or]
      simp only [hFirst,
        slice_eq (Nat.zero_le _) (Nat.min_le_left _ _),
        Option.bind_some, List.drop_zero, hTake, hSecond]
      rw [slice_eq (Nat.zero_le _) (by
        rw [List.length_append, List.length_append, hLong]
        omega), List.drop_zero, Option.map_some,
        List.take_left' (by rw [List.length_append, hLong])]

end TurnScan

------------------------------------------------------------
-- Segments
------------------------------------------------------------

namespace TurnScan

open EventLog (newline within)
open LogFile (Bytes turnStart lines)

/- A segment of a chunk is the first line of what is left. -/
theorem lines_drop
    {chunk : Bytes}
    {i : Nat}
    (hLt : i < chunk.length) :
    lines (chunk.drop i) =
      (chunk.take (segmentEnd chunk i)).drop i ::
        lines (chunk.drop (segmentEnd chunk i)) := by
  unfold segmentEnd lines
  cases hFind : (chunk.drop i).idxOf? newline with
  | none =>
      have hOpen : newline ∉ chunk.drop i := by
        rwa [List.idxOf?_eq_none_iff] at hFind
      simp only [List.take_length, List.drop_length]
      rw [Inclusive.split_of_not_mem (by
        rw [ne_eq, List.drop_eq_nil_iff]
        omega) hOpen]
      rfl
  | some j =>
      rcases List.idxOf?_eq_some_iff.mp hFind with
        ⟨hBound, hAt, hBefore⟩
      rw [List.length_drop] at hBound
      have hOpen : newline ∉ (chunk.drop i).take j := by
        intro hMember
        rcases List.getElem_of_mem hMember with
          ⟨k, hk, hSame⟩
        rw [List.length_take] at hk
        rw [List.getElem_take] at hSame
        exact hBefore k (by omega) hSame
      have hSplit :
          chunk.drop i =
            (chunk.drop i).take j ++ [newline] ++
              chunk.drop (i + j + 1) := by
        rw [← hAt, List.append_assoc, List.singleton_append]
        have hRest := List.drop_eq_getElem_cons
          (l := chunk.drop i) (i := j) (by
            rw [List.length_drop]
            exact hBound)
        rw [List.drop_drop, List.drop_drop, ← Nat.add_assoc]
          at hRest
        rw [← hRest, ← List.drop_drop, List.take_append_drop]
      have hSeg :
          (chunk.take (i + j + 1)).drop i =
            (chunk.drop i).take j ++ [newline] := by
        rw [List.drop_take, show i + j + 1 - i = j + 1 by omega,
          List.take_add_one,
          List.getElem?_eq_getElem (by
            rw [List.length_drop]
            exact hBound), hAt]
        rfl
      dsimp only
      rw [hSeg]
      conv_lhs => rw [hSplit]
      exact Inclusive.split_append_sep hOpen _

variable {σ : Type} {visit : σ → Nat → Nat → σ × Bool}
variable {v : σ} {s : State σ} {a : LogFile.Scan}

/-
  What a scan under way has of the scan that only notes the
  places: what it is to visit next goes on from there.
-/
structure Follows
    (visit : σ → Nat → Nat → σ × Bool)
    (v : σ)
    (s : State σ)
    (a : LogFile.Scan)
    (upto : Nat) : Prop where
  pos : a.pos = s.pos + upto
  lineStart : a.lineStart = s.lineStart
  found : a.found = s.found
  tail : a.tail = s.tail
  short : s.tail.length ≤ turnStart.length - 1
  visits :
    ∀ more,
      visitAll visit v 0 (a.visited ++ more) =
        visitAll visit s.visitor s.count more

/- A scan that has returned has visited all it will. -/
def Returned
    (visit : σ → Nat → Nat → σ × Bool)
    (v : σ)
    (a : LogFile.Scan)
    (count : Nat)
    (visitor : σ) : Prop :=
  ∀ more,
    visitAll visit v 0 (a.visited ++ more) = (count, visitor)

theorem Returned.later
    {b : LogFile.Scan}
    {count : Nat}
    {visitor : σ}
    (hReturned : Returned visit v a count visitor)
    (hLater : a.visited <+: b.visited) :
    Returned visit v b count visitor := by
  intro more
  rcases hLater with ⟨rest, hRest⟩
  rw [← hRest, List.append_assoc]
  exact hReturned (rest ++ more)

theorem visited_scanSegment
    (a : LogFile.Scan)
    (seg : Bytes) :
    (LogFile.scanSegment a seg).visited =
      if !a.found && LogFile.markerIn a.tail seg then
        a.visited ++ [a.lineStart]
      else a.visited := by
  unfold LogFile.scanSegment
  dsimp only
  split <;> rfl

theorem visited_foldl
    (a : LogFile.Scan)
    (segs : List Bytes) :
    a.visited <+: (segs.foldl LogFile.scanSegment a).visited := by
  induction segs generalizing a with
  | nil => exact List.prefix_refl _
  | cons seg segs ih =>
      refine List.IsPrefix.trans ?_ (ih _)
      rw [visited_scanSegment]
      split
      · exact List.prefix_append _ _
      · exact List.prefix_refl _

theorem visited_reads
    (reads : List Bytes)
    (a : LogFile.Scan) :
    a.visited <+:
      (reads.foldl
        (fun a read => (lines read).foldl LogFile.scanSegment a)
        a).visited := by
  induction reads generalizing a with
  | nil => exact List.prefix_refl _
  | cons read reads ih =>
      exact (visited_foldl a (lines read)).trans (ih _)

/- The line of a segment goes on, or ends, in both alike. -/
theorem follows_pass
    {upto : Nat}
    {seg : Bytes}
    (hPos : a.pos = s.pos + upto)
    (hLine : a.lineStart = s.lineStart)
    (hTail : a.tail = s.tail)
    (hFound :
      s.found =
        (a.found || !a.found && LogFile.markerIn a.tail seg))
    (hVisits :
      ∀ more,
        visitAll visit v 0
            ((LogFile.scanSegment a seg).visited ++ more) =
          visitAll visit s.visitor s.count more) :
    Follows visit v (s.pass seg (upto + seg.length))
      (LogFile.scanSegment a seg) (upto + seg.length) := by
  have hPlace :
      a.pos + seg.length = s.pos + (upto + seg.length) := by
    omega
  rw [visited_scanSegment] at hVisits
  unfold State.pass LogFile.scanSegment
  dsimp only
  by_cases hEnd : [newline] <:+ seg
  · rw [if_pos hEnd, if_pos hEnd]
    exact ⟨hPlace, hPlace, rfl, rfl, Nat.zero_le _, hVisits⟩
  · rw [if_neg hEnd, if_neg hEnd]
    refine ⟨hPlace, hLine, hFound.symm, ?_, ?_, hVisits⟩
    · rw [hTail]
      rfl
    · dsimp only
      rw [List.length_drop]
      omega

/- A segment is scanned, and the scan follows or returns. -/
theorem scanSegment_follows
    {upto : Nat}
    (hFollows : Follows visit v s a upto)
    (seg : Bytes) :
    (∃ s',
        scanSegment visit s seg (upto + seg.length) =
            some (.on s') ∧
          Follows visit v s' (LogFile.scanSegment a seg)
            (upto + seg.length) ∧
          s'.pos = s.pos) ∨
      ∃ count visitor,
        scanSegment visit s seg (upto + seg.length) =
            some (.returned count visitor) ∧
          Returned visit v (LogFile.scanSegment a seg) count
            visitor := by
  have hPass (t : State σ) :
      (t.pass seg (upto + seg.length)).pos = t.pos := by
    unfold State.pass
    split <;> rfl
  have hHit :
      (if s.found then some false else markerIn s.tail seg) =
        some (!a.found && LogFile.markerIn a.tail seg) := by
    rw [hFollows.found, hFollows.tail]
    cases s.found with
    | true => rfl
    | false => exact markerIn_eq hFollows.short seg
  have hVisited := visited_scanSegment a seg
  unfold scanSegment
  rw [hHit]
  cases hNew : !a.found && LogFile.markerIn a.tail seg with
  | false =>
      rw [hNew] at hVisited
      refine Or.inl ⟨_, rfl, ?_, hPass s⟩
      refine
        follows_pass hFollows.pos hFollows.lineStart
          hFollows.tail ?_ ?_
      · rw [hNew, Bool.or_false, hFollows.found]
      · rw [hVisited]
        exact hFollows.visits
  | true =>
      rw [hNew] at hVisited
      have hNext (more : List Nat) :
          visitAll visit v 0
              ((LogFile.scanSegment a seg).visited ++ more) =
            visitAll visit s.visitor s.count
              (s.lineStart :: more) := by
        rw [hVisited, if_pos rfl, List.append_assoc,
          hFollows.visits, hFollows.lineStart]
        rfl
      simp only [Option.map_some, if_true]
      cases hMore :
          (visit s.visitor s.count s.lineStart).2 with
      | true =>
          refine Or.inl ⟨_, rfl, ?_, hPass _⟩
          refine
            follows_pass hFollows.pos hFollows.lineStart
              hFollows.tail ?_ ?_
          · rw [hNew, Bool.or_true]
          · intro more
            rw [hNext, visitAll]
            simp only [hMore, if_true]
      | false =>
          refine Or.inr ⟨_, _, rfl, ?_⟩
          intro more
          rw [hNext, visitAll]
          simp only [hMore, Bool.false_eq_true, if_false]

end TurnScan

------------------------------------------------------------
-- Reads
------------------------------------------------------------

namespace TurnScan

open LogFile (Bytes lines)

variable {σ : Type} {visit : σ → Nat → Nat → σ × Bool}
variable {v : σ}

/- A chunk is scanned from a place on, line by line. -/
theorem scanChunk_follows
    (chunk : Bytes)
    (i : Nat)
    (s : State σ)
    (a : LogFile.Scan)
    (hBound : i ≤ chunk.length)
    (hFollows : Follows visit v s a i) :
    (∃ s',
        scanChunk visit chunk i s = some (.on s') ∧
          Follows visit v s'
            ((lines (chunk.drop i)).foldl LogFile.scanSegment a)
            chunk.length ∧
          s'.pos = s.pos) ∨
      ∃ count visitor,
        scanChunk visit chunk i s =
            some (.returned count visitor) ∧
          Returned visit v
            ((lines (chunk.drop i)).foldl LogFile.scanSegment a)
            count visitor := by
  induction hLeft : chunk.length - i using
    Nat.strong_induction_on generalizing i s a with
  | _ left ih =>
      by_cases hLt : i < chunk.length
      · have hLast := lt_segmentEnd hLt
        have hWithin := segmentEnd_le hLt
        have hPlace :
            i + ((chunk.take (segmentEnd chunk i)).drop
              i).length = segmentEnd chunk i := by
          rw [List.length_drop, List.length_take]
          omega
        have hSegment :=
          scanSegment_follows hFollows
            ((chunk.take (segmentEnd chunk i)).drop i)
        rw [hPlace] at hSegment
        rw [lines_drop hLt, List.foldl_cons, scanChunk,
          dif_pos hLt]
        dsimp only
        rw [slice_eq hLast.le hWithin]
        rcases hSegment with
          ⟨s', hOn, hFollows', hPos⟩ | ⟨count, w, hStop, hDone⟩
        · rcases
            ih _ (by omega) _ s' _ hWithin hFollows' rfl with
            ⟨s'', hRest, hFollows'', hPos'⟩ |
              ⟨count, w, hRest, hDone⟩
          · refine
              Or.inl ⟨s'', ?_, hFollows'', hPos'.trans hPos⟩
            simp only [Option.bind_some, hOn, hRest]
          · refine Or.inr ⟨count, w, ?_, hDone⟩
            simp only [Option.bind_some, hOn, hRest]
        · refine
            Or.inr ⟨count, w, ?_,
              hDone.later (visited_foldl _ _)⟩
          simp only [Option.bind_some, hStop]
      · have hEnd : i = chunk.length := by omega
        refine Or.inl ⟨s, ?_, ?_, rfl⟩
        · rw [scanChunk, dif_neg hLt]
        · rw [hEnd, List.drop_length]
          rw [hEnd] at hFollows
          exact hFollows

/- The reads are scanned as the chunks of the file. -/
theorem scanReads_follows
    (reads : List Bytes)
    (s : State σ)
    (a : LogFile.Scan)
    (hFilled : ∀ read ∈ reads, 0 < read.length)
    (hFollows : Follows visit v s a 0) :
    scanReads visit s reads =
      some
        (visitAll visit v 0
          (reads.foldl
            (fun a read =>
              (lines read).foldl LogFile.scanSegment a)
            a).visited) := by
  induction reads generalizing s a with
  | nil =>
      have hNone := hFollows.visits []
      rw [List.append_nil] at hNone
      rw [scanReads, List.foldl_nil, hNone, visitAll]
  | cons read reads ih =>
      have hFull := hFilled read List.mem_cons_self
      have hChunk :=
        scanChunk_follows read 0 s a (Nat.zero_le _) hFollows
      rw [List.drop_zero] at hChunk
      rw [List.foldl_cons, scanReads, if_neg (by
        rw [List.isEmpty_iff]
        rintro rfl
        exact absurd hFull (Nat.lt_irrefl 0))]
      rcases hChunk with
        ⟨s', hOn, hFollows', hPos⟩ | ⟨count, w, hStop, hDone⟩
      · simp only [hOn]
        apply ih _ _
          (fun r hMember =>
            hFilled r (List.mem_cons_of_mem read hMember))
        exact
          { hFollows' with
            pos := hFollows'.pos }
      · simp only [hStop]
        have hLater :=
          hDone.later (visited_reads reads _) []
        rw [List.append_nil] at hLater
        rw [hLater]

theorem follows_start :
    Follows visit v
      { pos := 0
        lineStart := 0
        found := false
        count := 0
        tail := []
        visitor := v }
      { pos := 0
        lineStart := 0
        found := false
        tail := []
        visited := [] } 0 :=
  ⟨rfl, rfl, rfl, rfl, Nat.zero_le _, fun _ => rfl⟩

/- The visits are of the places that the bare scan notes. -/
theorem scanTurnStarts_notes
    (visit : σ → Nat → Nat → σ × Bool)
    (v : σ)
    {buf : Nat}
    {content : Bytes}
    {reads : List Bytes}
    (hReads : Reads buf content reads) :
    scanTurnStarts visit v reads =
      some (visitAll visit v 0 (LogFile.scanTurnStarts reads)) :=
  scanReads_follows reads _ _
    (fun read hMember => (hReads.filled read hMember).1)
    follows_start

/-
  However a file is read, the lines that start a turn are
  visited in order, each with its index and its offset, until
  a visit ends the scan; the joint buffer has room for all
  that is put there.
-/
theorem scanTurnStarts_visits
    (visit : σ → Nat → Nat → σ × Bool)
    (v : σ)
    {buf : Nat}
    {content : Bytes}
    {reads : List Bytes}
    (hReads : Reads buf content reads) :
    scanTurnStarts visit v reads =
      some
        (visitAll visit v 0
          (LogFile.startsFrom 0 (lines content))) := by
  rw [scanTurnStarts_notes visit v hReads,
    LogFile.scanTurnStarts_eq, hReads.whole]

/- A marker that three reads of eight bytes cut twice. -/
def cutReads : List Bytes :=
  [EventLog.ascii "a\n\x22turn_", EventLog.ascii "start\x22:",
    EventLog.ascii "true"]

/- The visits noted, and none asked for after the first. -/
def noteFirst
    (notes : List (Nat × Nat))
    (i place : Nat) : List (Nat × Nat) × Bool :=
  (notes ++ [(i, place)], false)

theorem scanTurnStarts_visits_cut :
    Reads 8 cutReads.flatten cutReads ∧
      scanTurnStarts noteFirst [] cutReads =
        some
          (visitAll noteFirst [] 0
            (LogFile.startsFrom 0 (lines cutReads.flatten))) := by
  have hReads : Reads 8 cutReads.flatten cutReads :=
    ⟨rfl, by decide⟩
  exact ⟨hReads, scanTurnStarts_visits noteFirst [] hReads⟩

example :
    visitAll noteFirst [] 0
        (LogFile.startsFrom 0 (lines cutReads.flatten)) =
      (1, [(0, 2)]) := by
  decide

end TurnScan

------------------------------------------------------------
-- The Scans Of The Trim
------------------------------------------------------------

namespace TurnScan

open LogFile (Bytes)

/- The trim's first visit, which only lets the scan count. -/
def countAll
    (_ : Unit)
    (_ _ : Nat) : Unit × Bool :=
  ((), true)

/- The trim's second visit, which ends the scan at the cut. -/
def cutAt
    (n : Nat)
    (cut : Option Nat)
    (i place : Nat) : Option Nat × Bool :=
  let cut := if i = n then some place else cut
  (cut, cut.isNone)

theorem visitAll_countAll
    (i : Nat)
    (places : List Nat) :
    visitAll countAll () i places = (i + places.length, ()) := by
  induction places generalizing i with
  | nil => rfl
  | cons place places ih =>
      rw [visitAll]
      simp only [countAll, if_true, List.length_cons]
      rw [ih, Nat.add_assoc, Nat.add_comm 1]

theorem visitAll_cutAt
    {n i : Nat}
    (hLe : i ≤ n)
    (places : List Nat) :
    (visitAll (cutAt n) none i places).2 = places[n - i]? := by
  induction places generalizing i with
  | nil => simp [visitAll]
  | cons place places ih =>
      rw [visitAll]
      by_cases hHere : i = n
      · simp [cutAt, hHere]
      · simp only [cutAt, if_neg hHere, Option.isNone_none,
          if_true]
        rw [ih (by omega), show n - i = n - (i + 1) + 1 by omega,
          List.getElem?_cons_succ]

/-
  The two scans of a trim, whatever their reads, make what
  `LogFile.trimToTurns` takes from the turn starts.
-/
theorem scanTurnStarts_trim
    {buf : Nat}
    {content : Bytes}
    {reads : List Bytes}
    (hReads : Reads buf content reads)
    (n : Nat) :
    (scanTurnStarts countAll () reads).map Prod.fst =
        some (LogFile.scanTurnStarts reads).length ∧
      (scanTurnStarts (cutAt n) none reads).map Prod.snd =
        some ((LogFile.scanTurnStarts reads)[n]?) := by
  rw [scanTurnStarts_notes _ _ hReads,
    scanTurnStarts_notes _ _ hReads, Option.map_some,
    Option.map_some, visitAll_countAll,
    visitAll_cutAt (Nat.zero_le n), Nat.zero_add, Nat.sub_zero]
  exact ⟨rfl, rfl⟩

end TurnScan
