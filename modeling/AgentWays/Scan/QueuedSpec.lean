import AgentWays.Lib.Inclusive
import AgentWays.Lib.Marked
import AgentWays.Scan.Queued
import Mathlib.Data.List.ReduceOption
import Mathlib.Data.String.Basic

/-
  What a session's runs match of the messages on the queue.

  A read may end inside a line, which is an entry once its
  record is whole. What no run matches is an entry whose
  timestamp an earlier run has read, when it was not there
  yet. Every other entry is matched once, in its order.

  Key definitions include:
    * `Scan.entries`
    * `Scan.proseOf`
    * `Scan.Grows`

  Main declarations:
    * `Scan.runs_matched`
-/

------------------------------------------------------------
-- Entries
------------------------------------------------------------

namespace Scan

open Json (Value)

variable (parse : String → Option Value)

/- An enqueue entry: its timestamp, and its trimmed content. -/
def enqueued
    (line : String) : Option (String × String) :=
  (parse line).bind (fun v =>
    if strAt v "type" = some "queue-operation" ∧
        strAt v "operation" = some "enqueue" then
      (strAt v "timestamp").map (fun ts =>
        (ts, RustText.trim ((strAt v "content").getD "")))
    else none)

/- The enqueue entries of a transcript. -/
def entries
    (content : String) : List (String × String) :=
  (RustText.lines content).filterMap (enqueued parse)

/- Neither empty nor a system envelope. -/
def isProse
    (msg : String) : Bool :=
  !(decide (msg = "") || isSystemEnvelope msg)

def proseOf
    (es : List (String × String)) : List String :=
  (es.map Prod.snd).filter isProse

/- A piece of a text without the end of its line. -/
def withoutEnd
    (piece : List Char) : List Char :=
  match piece.reverse with
  | '\n' :: rest => RustText.stripReturn rest.reverse
  | _ => piece

/- A line of a text cut after its newlines. -/
def lineOf
    (piece : List Char) : String :=
  String.ofList (withoutEnd piece)

/-
  A line that has begun is no entry yet, or stays the entry
  it is: a record's text ends its line.
-/
def LinesWhole
    (whole : String) : Prop :=
  ∀ piece ∈ Inclusive.split '\n' whole.toList,
    ∀ begun further, begun <+: further → further <+: piece →
      enqueued parse (lineOf begun) = none ∨
        enqueued parse (lineOf begun) =
          enqueued parse (lineOf further)

/-
  A transcript that was read while it grew.

  Its timestamps never decrease, and have no blanks around
  them.
-/
structure Grows
    (reads : List (Option String))
    (whole : String) : Prop where
  appends :
    (reads.reduceOption ++ [whole]).Pairwise
      (fun a b => a.toList <+: b.toList)
  stamps : Marked.Sorted (entries parse whole)
  bare :
    ∀ e ∈ entries parse whole,
      RustText.trim e.1 = e.1 ∧ e.1 ≠ ""
  lines : LinesWhole parse whole

/- What each of the earlier reads had of the entries. -/
def readEntries
    (reads : List (Option String)) :
    List (List (String × String)) :=
  reads.reduceOption.map (entries parse)

end Scan

------------------------------------------------------------
-- Growing Transcripts
------------------------------------------------------------

namespace Scan

open Json (Value)

theorem linesFrom_eq
    (xs line : List Char)
    (hLine : '\n' ∉ line) :
    (RustText.linesFrom xs line).map String.ofList =
      (Inclusive.split '\n' (line.reverse ++ xs)).map
        lineOf := by
  induction xs generalizing line with
  | nil =>
      rw [List.append_nil, RustText.linesFrom]
      cases line with
      | nil => rfl
      | cons c line =>
          have hOpen : '\n' ∉ (c :: line).reverse :=
            List.mem_reverse.not.mpr hLine
          have hHead : c ≠ '\n' := by
            rintro rfl
            exact hLine (by simp)
          rw [Inclusive.split_of_not_mem (by simp) hOpen]
          simp only [List.isEmpty_cons, Bool.false_eq_true,
            if_false, List.map_singleton, lineOf, withoutEnd,
            List.reverse_reverse]
          split
          · rename_i rest hSame
            exact absurd (List.cons.inj hSame).1 hHead
          · rfl
  | cons c xs ih =>
      rw [RustText.linesFrom]
      split
      · rename_i hNewline
        subst hNewline
        have hSplit :=
          Inclusive.split_append_sep
            (List.mem_reverse.not.mpr hLine) xs
        rw [List.append_assoc, List.singleton_append] at hSplit
        rw [hSplit, List.map_cons, List.map_cons,
          ih [] (by simp)]
        simp [lineOf, withoutEnd]
      · rename_i hOther
        have hMore : '\n' ∉ c :: line := by
          simp only [List.mem_cons, not_or]
          exact ⟨fun hSame => hOther hSame.symm, hLine⟩
        rw [ih (c :: line) hMore]
        simp

theorem lines_eq
    (s : String) :
    RustText.lines s =
      (Inclusive.split '\n' s.toList).map lineOf :=
  linesFrom_eq s.toList [] (by simp)

variable {parse : String → Option Value}
variable {reads : List (Option String)} {whole read : String}

/- A transcript that goes on has the entries it had. -/
theorem entries_of_begun
    (hLines : LinesWhole parse whole)
    (hPrefix : read.toList <+: whole.toList) :
    entries parse read <+: entries parse whole := by
  rcases @Inclusive.split_of_begun _ '\n' _ _ _ hPrefix with
    ⟨pieces, rest, hWhole, hRead⟩
  unfold entries
  rw [lines_eq, lines_eq, hWhole, List.map_append,
    List.filterMap_append]
  rcases hRead with
    hRead | ⟨begun, piece, rest', rfl, hBegun, hRead⟩
  · rw [hRead]
    exact List.prefix_append _ _
  · rw [hRead, List.map_append, List.filterMap_append,
      List.map_singleton, List.map_cons,
      List.prefix_append_right_inj]
    have hPiece : piece ∈ Inclusive.split '\n' whole.toList := by
      rw [hWhole]
      simp
    rcases hLines piece hPiece begun piece hBegun
      (List.prefix_refl piece) with hNone | hSame
    · rw [List.filterMap_cons, hNone]
      exact List.nil_prefix
    · rw [List.filterMap_cons, List.filterMap_cons, hSame]
      cases enqueued parse (lineOf piece) with
      | none => exact List.nil_prefix
      | some e => simp

/- What a read has of a transcript's lines is as they are. -/
theorem LinesWhole.of_begun
    (hLines : LinesWhole parse whole)
    (hPrefix : read.toList <+: whole.toList) :
    LinesWhole parse read := by
  intro piece hMember begun further hBegun hFurther
  rcases @Inclusive.split_of_begun _ '\n' _ _ _ hPrefix with
    ⟨pieces, rest, hWhole, hRead⟩
  have hLonger :
      ∃ whole' ∈ Inclusive.split '\n' whole.toList,
        piece <+: whole' := by
    rw [hWhole]
    rcases hRead with
      hRead | ⟨last, next, rest', rfl, hLast, hRead⟩
    · rw [hRead] at hMember
      exact ⟨piece, by simp [hMember], List.prefix_refl piece⟩
    · rw [hRead] at hMember
      rcases List.mem_append.mp hMember with hIn | hIn
      · exact ⟨piece, by simp [hIn], List.prefix_refl piece⟩
      · rw [List.mem_singleton.mp hIn]
        exact ⟨next, by simp, hLast⟩
  rcases hLonger with ⟨whole', hIn, hPiece⟩
  exact
    hLines whole' hIn begun further hBegun
      (hFurther.trans hPiece)

theorem Grows.grows
    (hGrows : Grows parse reads whole) :
    (readEntries parse reads ++ [entries parse whole]).Pairwise
      (· <+: ·) := by
  have hParts := List.pairwise_append.mp hGrows.appends
  have hWhole :
      ∀ read ∈ reads.reduceOption,
        read.toList <+: whole.toList :=
    fun read hMember => hParts.2.2 read hMember whole (by simp)
  unfold readEntries
  refine
    List.pairwise_append.mpr
      ⟨?_, List.pairwise_singleton _ _, ?_⟩
  · rw [List.pairwise_map]
    refine hParts.1.imp_of_mem ?_
    intro a b _ hIn hPrefix
    exact
      entries_of_begun
        (hGrows.lines.of_begun (hWhole b hIn)) hPrefix
  · intro es hMember es' hLast
    rcases List.mem_map.mp hMember with ⟨read, hIn, rfl⟩
    rw [List.mem_singleton.mp hLast]
    exact entries_of_begun hGrows.lines (hWhole read hIn)

end Scan

------------------------------------------------------------
-- One Read
------------------------------------------------------------

namespace Scan

open Json (Value)

variable {parse : String → Option Value}

/- An entry taken, past the mark. -/
def collectEntry
    (mark : Option String)
    (scan : QueuedScan)
    (e : String × String) : QueuedScan :=
  if Marked.newer mark e then
    { fragments := scan.fragments ++ proseOf [e]
      newest :=
        if scan.newest.all (fun n => n < e.1) then some e.1
        else scan.newest }
  else scan

theorem any_le_mark
    (mark : Option String)
    (e : String × String) :
    mark.any (fun m => decide (e.1 ≤ m)) =
      !Marked.newer mark e := by
  cases mark with
  | none => rfl
  | some m =>
      simp only [Option.any_some, Marked.newer, Option.all_some,
        ← decide_not, not_lt]

theorem isProse_eq_false_iff
    {msg : String} :
    isProse msg = false ↔
      msg = "" ∨ isSystemEnvelope msg = true := by
  simp [isProse, or_iff_not_imp_left]

theorem proseOf_singleton
    (ts msg : String) :
    proseOf [(ts, msg)] = if isProse msg then [msg] else [] := by
  simp [proseOf, List.filter_cons]

theorem collectLine_eq
    (mark : Option String)
    (scan : QueuedScan)
    (line : String) :
    collectLine parse mark scan line =
      match enqueued parse line with
      | none => scan
      | some e => collectEntry mark scan e := by
  unfold collectLine enqueued
  cases parse line with
  | none => rfl
  | some v =>
      simp only [Option.bind_some]
      by_cases hKind :
          strAt v "type" = some "queue-operation" ∧
            strAt v "operation" = some "enqueue"
      · rw [if_neg (by simp [hKind.1, hKind.2]), if_pos hKind]
        cases strAt v "timestamp" with
        | none => rfl
        | some ts =>
            simp only [Option.map_some]
            generalize
              RustText.trim ((strAt v "content").getD "") = msg
            have hMark := any_le_mark mark (ts, msg)
            simp only at hMark
            rw [collectEntry, hMark, proseOf_singleton]
            cases Marked.newer mark (ts, msg) with
            | false => rfl
            | true =>
                simp only [Bool.not_true, Bool.false_eq_true,
                  if_false, if_true]
                cases hProse : isProse msg with
                | false =>
                    rw [if_pos (isProse_eq_false_iff.mp hProse)]
                    simp
                | true =>
                    have hNot :
                        ¬(msg = "" ∨
                          isSystemEnvelope msg = true) := by
                      intro hOther
                      rw [isProse_eq_false_iff.mpr hOther]
                        at hProse
                      cases hProse
                    rw [if_neg hNot]
                    simp
      · rw [if_neg hKind, if_pos (not_and_or.mp hKind)]

theorem foldl_collectLine
    (mark : Option String)
    (lines : List String)
    (scan : QueuedScan) :
    lines.foldl (collectLine parse mark) scan =
      (lines.filterMap (enqueued parse)).foldl
        (collectEntry mark) scan := by
  induction lines generalizing scan with
  | nil => rfl
  | cons line lines ih =>
      rw [List.foldl_cons, ih, collectLine_eq,
        List.filterMap_cons]
      cases enqueued parse line <;> rfl

theorem proseOf_append
    (es es' : List (String × String)) :
    proseOf (es ++ es') = proseOf es ++ proseOf es' := by
  simp [proseOf]

/- What a read takes, and the mark it leaves. -/
theorem foldl_collectEntry
    (mark : Option String)
    {es : List (String × String)}
    (hSorted : Marked.Sorted es) :
    es.foldl (collectEntry mark)
        { fragments := [], newest := none } =
      { fragments := proseOf (es.filter (Marked.newer mark))
        newest :=
          Marked.lastKey (es.filter (Marked.newer mark)) } := by
  induction es using List.reverseRecOn with
  | nil => rfl
  | append_singleton es e ih =>
      have hParts := List.pairwise_append.mp hSorted
      rw [List.foldl_append, ih hParts.1, List.foldl_cons,
        List.foldl_nil, List.filter_append, collectEntry]
      cases hNewer : Marked.newer mark e with
      | false => simp [hNewer]
      | true =>
          have hOne : [e].filter (Marked.newer mark) = [e] := by
            simp [hNewer]
          rw [if_pos rfl, hOne, proseOf_append,
            Marked.lastKey_append_singleton]
          -- the newest so far is at most this one
          cases hLast :
              Marked.lastKey (es.filter (Marked.newer mark)) with
          | none => rfl
          | some last =>
              rcases Marked.exists_of_lastKey hLast with
                ⟨a, hIn, rfl⟩
              have hLe : a.1 ≤ e.1 :=
                hParts.2.2 a (List.mem_filter.mp hIn).1 e
                  (by simp)
              simp only [Option.all_some, decide_eq_true_eq]
              split
              · rfl
              · rename_i hNot
                rw [le_antisymm hLe (not_lt.mp hNot)]

theorem collectQueued_eq
    {content : String}
    (mark : Option String)
    (hSorted : Marked.Sorted (entries parse content)) :
    collectQueued parse content mark =
      { fragments :=
          proseOf
            ((entries parse content).filter (Marked.newer mark))
        newest :=
          Marked.lastKey
            ((entries parse content).filter
              (Marked.newer mark)) } := by
  unfold collectQueued
  rw [foldl_collectLine]
  exact foldl_collectEntry mark hSorted

end Scan

------------------------------------------------------------
-- Every Run
------------------------------------------------------------

namespace Scan

open Json (Value)

variable {parse : String → Option Value}
variable {reads : List (Option String)} {whole : String}

/- The lane that a reader of the entries stands for. -/
def laneOf
    (r : Marked.Reader String String) : Lane where
  mark := r.mark
  matched := proseOf r.taken

/- A timestamp as it is stored, and read back. -/
def Bare
    (ts : String) : Prop :=
  RustText.trim ts = ts ∧ ts ≠ ""

/- A run reads the entries past the mark. -/
theorem messages_laneOf
    {r : Marked.Reader String String}
    {content : String}
    (hMark : ∀ ts, r.mark = some ts → Bare ts)
    (hSorted : Marked.Sorted (entries parse content)) :
    messages parse (laneOf r) (some content) =
      laneOf (r.read (entries parse content)) := by
  have hRead : readQueuedScanMark (laneOf r) = r.mark := by
    unfold readQueuedScanMark laneOf
    cases hSome : r.mark with
    | none => rfl
    | some ts =>
        rcases hMark ts hSome with ⟨hTrim, hSome'⟩
        simp [hTrim, hSome']
  simp only [messages]
  rw [hRead, collectQueued_eq r.mark hSorted]
  simp only [laneOf, Marked.Reader.read, proseOf_append]

theorem bare_read
    {r : Marked.Reader String String}
    {es : List (String × String)}
    (hMark : ∀ ts, r.mark = some ts → Bare ts)
    (hBare : ∀ e ∈ es, Bare e.1) :
    ∀ ts, (r.read es).mark = some ts → Bare ts := by
  intro ts hSome
  simp only [Marked.Reader.read, Option.or_eq_some_iff]
    at hSome
  rcases hSome with hFresh | ⟨-, hOld⟩
  · rcases Marked.exists_of_lastKey hFresh with ⟨e, hIn, rfl⟩
    exact hBare e (List.mem_filter.mp hIn).1
  · exact hMark ts hOld

theorem foldl_messages
    {r : Marked.Reader String String}
    (hMark : ∀ ts, r.mark = some ts → Bare ts)
    (hReads :
      ∀ read ∈ reads.reduceOption,
        Marked.Sorted (entries parse read) ∧
          ∀ e ∈ entries parse read, Bare e.1) :
    reads.foldl (messages parse) (laneOf r) =
      laneOf
        ((readEntries parse reads).foldl Marked.Reader.read
          r) := by
  induction reads generalizing r with
  | nil => rfl
  | cons read reads ih =>
      cases read with
      | none =>
          rw [List.reduceOption_cons_of_none] at hReads
          rw [List.foldl_cons, readEntries,
            List.reduceOption_cons_of_none]
          exact ih hMark hReads
      | some content =>
          rw [List.reduceOption_cons_of_some] at hReads
          rcases hReads content (by simp) with ⟨hSorted, hBare⟩
          rw [List.foldl_cons, messages_laneOf hMark hSorted,
            readEntries, List.reduceOption_cons_of_some,
            List.map_cons, List.foldl_cons]
          exact
            ih (bare_read hMark hBare)
              (fun read hIn =>
                hReads read (List.mem_cons_of_mem _ hIn))

/-
  What the runs match, the last of them of the whole
  transcript: the operator's messages but those of an entry
  that an earlier run has overlooked, each once and in their
  order. Where none is overlooked these are all.
-/
theorem runs_matched
    (hGrows : Grows parse reads whole) :
    (runs parse (reads ++ [some whole])).matched =
        proseOf
          (Marked.kept (readEntries parse reads)
            (entries parse whole)) ∧
      ((∀ e ∈ (entries parse whole).zipIdx,
          Marked.overlooked (readEntries parse reads) e =
            false) →
        (runs parse (reads ++ [some whole])).matched =
          proseOf (entries parse whole)) := by
  have hPrefixes := hGrows.grows
  have hAll :
      ∀ read ∈ (reads ++ [some whole]).reduceOption,
        Marked.Sorted (entries parse read) ∧
          ∀ e ∈ entries parse read, Bare e.1 := by
    intro read hMember
    have hPrefix :
        entries parse read <+: entries parse whole := by
      rw [List.reduceOption_append] at hMember
      rcases List.mem_append.mp hMember with hIn | hIn
      · exact
          (List.pairwise_append.mp hPrefixes).2.2 _
            (List.mem_map_of_mem hIn) _ (by simp)
      · have hSame : read = whole := by
          simpa using hIn
        subst hSame
        exact List.prefix_refl _
    exact
      ⟨hGrows.stamps.sublist hPrefix.sublist,
        fun e hIn => hGrows.bare e (hPrefix.subset hIn)⟩
  have hEntries :
      readEntries parse (reads ++ [some whole]) =
        readEntries parse reads ++ [entries parse whole] := by
    simp [readEntries, List.reduceOption_append]
  have hRuns :
      (runs parse (reads ++ [some whole])).matched =
        proseOf
          (Marked.kept (readEntries parse reads)
            (entries parse whole)) := by
    have hFold :=
      @foldl_messages parse (reads ++ [some whole])
        Marked.Reader.start (by simp [Marked.Reader.start]) hAll
    rw [hEntries, Marked.reads hPrefixes hGrows.stamps] at hFold
    exact congrArg Lane.matched hFold
  refine ⟨hRuns, ?_⟩
  intro hNone
  rw [hRuns, Marked.kept_eq_self hNone]

/- A reader that knows the texts of some enqueue entries. -/
def enqueueRecord
    (ts content : String) : Value :=
  Value.obj
    { entries :=
        [("content", Value.str content),
          ("operation", Value.str "enqueue"),
          ("timestamp", Value.str ts),
          ("type", Value.str "queue-operation")]
      sorted := by
        change
          List.Pairwise (· < ·)
            ["content", "operation", "timestamp", "type"]
        decide }

def readsRecords
    (records : List (String × String × String))
    (line : String) : Option Value :=
  (records.find? (fun r => r.1 = line)).map
    (fun r => enqueueRecord r.2.1 r.2.2)

theorem enqueued_of_find
    {records : List (String × String × String)}
    {line : String}
    {r : String × String × String}
    (hFind : records.find? (fun r => r.1 = line) = some r) :
    enqueued (readsRecords records) line =
      some (r.2.1, RustText.trim r.2.2) := by
  rw [enqueued, readsRecords, hFind]
  rfl

theorem enqueued_of_not_mem
    {records : List (String × String × String)}
    {line : String}
    (hNot : ∀ r ∈ records, r.1 ≠ line) :
    enqueued (readsRecords records) line = none := by
  have hFind :
      records.find? (fun r => r.1 = line) = none := by
    simpa using hNot
  rw [enqueued, readsRecords, hFind]
  rfl

/- A line with no newline in it, and no return at its end. -/
structure Plain
    (line : String) : Prop where
  open_ : '\n' ∉ line.toList
  bare : RustText.stripReturn line.toList = line.toList

theorem lineOf_ended
    {line : String}
    (hPlain : Plain line) :
    lineOf (line.toList ++ ['\n']) = line := by
  simp [lineOf, withoutEnd, hPlain.bare]

theorem lineOf_open
    {begun : List Char}
    (hOpen : '\n' ∉ begun) :
    lineOf begun = String.ofList begun := by
  rw [lineOf, withoutEnd]
  split
  · rename_i rest hSame
    exact absurd
      (List.mem_reverse.mp (by rw [hSame]; exact List.mem_cons_self))
      hOpen
  · rfl

/- A record as long as its line is not read before its end. -/
theorem linesWhole_readsRecords
    {records : List (String × String × String)}
    {whole : String}
    (hEach :
      ∀ piece ∈ Inclusive.split '\n' whole.toList,
        ∃ line, Plain line ∧ piece = line.toList ++ ['\n'] ∧
          ∀ r ∈ records,
            line.toList.length ≤ r.1.toList.length) :
    LinesWhole (readsRecords records) whole := by
  intro piece hPiece begun further hBegun hFurther
  rcases hEach piece hPiece with ⟨line, hPlain, rfl, hLong⟩
  have hSame {cs : List Char}
      (hWhole : line.toList <+: cs)
      (hWithin : cs <+: line.toList ++ ['\n']) :
      lineOf cs = line := by
    rcases hWhole with ⟨rest, rfl⟩
    rcases List.prefix_cons_iff.mp
      ((List.prefix_append_right_inj _).mp hWithin) with
      rfl | ⟨more, rfl, hMore⟩
    · rw [List.append_nil, lineOf_open hPlain.open_,
        String.ofList_toList]
    · rw [List.prefix_nil.mp hMore]
      exact lineOf_ended hPlain
  rcases List.prefix_concat_iff.mp (hBegun.trans hFurther) with
    rfl | hOpen
  · have hEnd := hSame (List.prefix_append _ _) (List.prefix_refl _)
    have hEnd' :=
      hSame ((List.prefix_append _ _).trans hBegun) hFurther
    exact Or.inr (by rw [hEnd, hEnd'])
  · by_cases hRecord :
      ∃ r ∈ records, r.1 = String.ofList begun
    · rcases hRecord with ⟨r, hMember, hText⟩
      have hLength := hLong r hMember
      rw [hText, String.toList_ofList] at hLength
      have hAll := hOpen.eq_of_length_le hLength
      subst hAll
      have hEnd :=
        hSame (List.prefix_refl _) (List.prefix_append _ _)
      exact Or.inr (by rw [hEnd, hSame hBegun hFurther])
    · refine Or.inl ?_
      apply enqueued_of_not_mem
      intro r hMember hText
      refine hRecord ⟨r, hMember, ?_⟩
      rw [hText, lineOf_open]
      exact fun hIn => hPlain.open_ (hOpen.subset hIn)

def firstLine : String :=
  "\x7b\"type\":\"queue-operation\",\"operation\":\"enqueue\"," ++
    "\"timestamp\":\"2026-07-05T20:00:01Z\",\"content\":\"a\"\x7d"

def secondLine : String :=
  "\x7b\"type\":\"queue-operation\",\"operation\":\"enqueue\"," ++
    "\"timestamp\":\"2026-07-05T20:00:01Z\",\"content\":\"b\"\x7d"

/- Two messages of one timestamp. -/
def oneStamp : String → Option Value :=
  readsRecords
    [(firstLine, "2026-07-05T20:00:01Z", "a"),
      (secondLine, "2026-07-05T20:00:01Z", "b")]

def bothLines : String :=
  firstLine ++ "\n" ++ secondLine ++ "\n"

/- A read that ends within the second of them. -/
def readWithin : String :=
  firstLine ++ "\n" ++ "\x7b\"type\":\"queue-op"

theorem plain_firstLine : Plain firstLine := by
  have hText : firstLine.toList = _ := String.toList_append
  simp only [String.reduceToList, List.cons_append,
    List.nil_append] at hText
  exact ⟨by rw [hText]; decide, by rw [hText]; rfl⟩

theorem plain_secondLine : Plain secondLine := by
  have hText : secondLine.toList = _ := String.toList_append
  simp only [String.reduceToList, List.cons_append,
    List.nil_append] at hText
  exact ⟨by rw [hText]; decide, by rw [hText]; rfl⟩

theorem length_firstLine :
    firstLine.toList.length = secondLine.toList.length := by
  have hText : firstLine.toList = _ := String.toList_append
  have hText' : secondLine.toList = _ := String.toList_append
  rw [hText, hText']
  simp only [String.reduceToList]
  rfl

theorem split_bothLines :
    Inclusive.split '\n' bothLines.toList =
      [firstLine.toList ++ ['\n'],
        secondLine.toList ++ ['\n']] := by
  have hText :
      bothLines.toList =
        firstLine.toList ++ ['\n'] ++
          (secondLine.toList ++ ['\n'] ++ []) := by
    simp [bothLines]
  rw [hText, Inclusive.split_append_sep plain_firstLine.open_,
    Inclusive.split_append_sep plain_secondLine.open_,
    Inclusive.split]

/- What the read within it has of the second line. -/
def begunLine : String :=
  "\x7b\"type\":\"queue-op"

theorem secondLine_eq :
    ∃ rest, secondLine = begunLine ++ rest := by
  refine ⟨String.ofList (secondLine.toList.drop 17), ?_⟩
  apply String.toList_inj.mp
  have hText : secondLine.toList = _ := String.toList_append
  rw [String.toList_append, String.toList_ofList, hText,
    begunLine]
  simp only [String.reduceToList]
  rfl

theorem firstLine_ne : firstLine ≠ secondLine := by
  intro hSame
  have hTexts := congrArg String.toList hSame
  have hText : firstLine.toList = _ := String.toList_append
  have hText' : secondLine.toList = _ := String.toList_append
  rw [hText, hText'] at hTexts
  simp only [String.reduceToList] at hTexts
  exact absurd hTexts (by decide)

theorem enqueued_firstLine :
    enqueued oneStamp firstLine =
      some ("2026-07-05T20:00:01Z", "a") :=
  enqueued_of_find
    (List.find?_cons_of_pos (decide_eq_true rfl))

theorem enqueued_secondLine :
    enqueued oneStamp secondLine =
      some ("2026-07-05T20:00:01Z", "b") := by
  refine
    enqueued_of_find
      (r := (secondLine, "2026-07-05T20:00:01Z", "b")) ?_
  rw [List.find?_cons_of_neg (by simpa using firstLine_ne)]
  exact List.find?_cons_of_pos (decide_eq_true rfl)

theorem enqueued_begunLine :
    enqueued oneStamp begunLine = none := by
  apply enqueued_of_not_mem
  have hShort : begunLine.toList.length = 17 := by decide
  have hLong : firstLine.toList.length ≠ 17 := by
    have hText : firstLine.toList = _ := String.toList_append
    rw [hText]
    simp only [String.reduceToList]
    decide
  intro r hMember hText
  rw [← hText] at hShort
  rcases List.mem_pair.mp hMember with rfl | rfl
  · exact hLong hShort
  · exact hLong (length_firstLine.trans hShort)

theorem entries_bothLines :
    entries oneStamp bothLines =
      [("2026-07-05T20:00:01Z", "a"),
        ("2026-07-05T20:00:01Z", "b")] := by
  rw [entries, lines_eq, split_bothLines]
  simp [lineOf_ended plain_firstLine,
    lineOf_ended plain_secondLine, enqueued_firstLine,
    enqueued_secondLine]

theorem entries_readWithin :
    entries oneStamp readWithin =
      [("2026-07-05T20:00:01Z", "a")] := by
  have hText :
      readWithin.toList =
        firstLine.toList ++ ['\n'] ++ begunLine.toList := by
    simp [readWithin, begunLine]
  have hOpen : '\n' ∉ begunLine.toList := by decide
  rw [entries, lines_eq, hText,
    Inclusive.split_append_sep plain_firstLine.open_,
    Inclusive.split_of_not_mem (by decide) hOpen]
  simp [lineOf_ended plain_firstLine, lineOf_open hOpen,
    enqueued_firstLine, enqueued_begunLine]

theorem linesWhole_bothLines :
    LinesWhole oneStamp bothLines := by
  apply linesWhole_readsRecords
  rw [split_bothLines]
  intro piece hPiece
  rcases List.mem_pair.mp hPiece with rfl | rfl
  · refine ⟨firstLine, plain_firstLine, rfl, ?_⟩
    simp [length_firstLine]
  · refine ⟨secondLine, plain_secondLine, rfl, ?_⟩
    simp [length_firstLine]

theorem grows_oneStamp :
    Grows oneStamp [some readWithin, none] bothLines where
  appends := by
    rcases secondLine_eq with ⟨rest, hRest⟩
    have hWhole : bothLines = readWithin ++ (rest ++ "\n") := by
      rw [bothLines, hRest, readWithin, begunLine]
      simp only [String.append_assoc]
    rw [hWhole]
    simp
  stamps := by
    rw [entries_bothLines]
    unfold Marked.Sorted
    decide
  bare := by
    rw [entries_bothLines]
    decide
  lines := linesWhole_bothLines

theorem runs_matched_oneStamp :
    (runs oneStamp
          ([some readWithin, none] ++
            [some bothLines])).matched =
        proseOf
          (Marked.kept
            (readEntries oneStamp [some readWithin, none])
            (entries oneStamp bothLines)) ∧
      ((∀ e ∈ (entries oneStamp bothLines).zipIdx,
          Marked.overlooked
              (readEntries oneStamp
                [some readWithin, none]) e =
            false) →
        (runs oneStamp
            ([some readWithin, none] ++
              [some bothLines])).matched =
          proseOf (entries oneStamp bothLines)) :=
  runs_matched grows_oneStamp

/- The second of them is matched by no run. -/
theorem not_runs_matched :
    ¬ ∀ parse reads whole,
      Grows parse reads whole →
        (runs parse (reads ++ [some whole])).matched =
          proseOf (entries parse whole) := by
  intro hClaim
  have hAll :=
    hClaim oneStamp [some readWithin, none] bothLines
      grows_oneStamp
  have hReads :
      ∀ read ∈
          ([some readWithin, none] ++
            [some bothLines]).reduceOption,
        Marked.Sorted (entries oneStamp read) ∧
          ∀ e ∈ entries oneStamp read, Bare e.1 := by
    intro read hMember
    rcases (by simpa [List.reduceOption] using hMember) with
      rfl | rfl
    · rw [entries_readWithin]
      unfold Marked.Sorted Bare
      decide
    · exact ⟨grows_oneStamp.stamps, grows_oneStamp.bare⟩
  have hRuns :=
    @foldl_messages oneStamp
      ([some readWithin, none] ++ [some bothLines])
      Marked.Reader.start (by simp [Marked.Reader.start]) hReads
  have hFirst :
      (runs oneStamp
          ([some readWithin, none] ++ [some bothLines])).matched =
        ["a"] := by
    unfold runs
    refine (congrArg Lane.matched hRuns).trans ?_
    simp only [readEntries, List.reduceOption, List.cons_append,
      List.nil_append, List.filterMap_cons, id_eq,
      List.filterMap_nil, List.map_cons, List.map_nil,
      entries_readWithin, entries_bothLines]
    decide
  rw [hFirst, entries_bothLines] at hAll
  exact absurd hAll (by decide)

end Scan
