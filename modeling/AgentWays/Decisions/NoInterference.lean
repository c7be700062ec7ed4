import AgentWays.Decisions.Session
import Mathlib.Data.List.Induction

/-
  Whether the sessions of a decision log keep apart.

  What is handed on of a session is told by its own records,
  but for its stray scans: a scan that no turn of its agent
  takes is handed to another turn of the session, unless its
  agent has opened a turn in any session before.

  Key definitions include:
    * `Decisions.strays`
    * `Decisions.view`
    * `Decisions.WellFormed`

  Main declarations:
    * `Decisions.view_eq`
    * `Decisions.noInterference`
-/

------------------------------------------------------------
-- What A Session Shows
------------------------------------------------------------

namespace Decisions

/- The turns a session has opened by some scans. -/
def openedBy
    (session : String)
    (before : List Scan) : List Scan :=
  (before.filter Scan.turnStart).filter
    (fun s => s.session = session)

/-
  Whether a scan is nested: the session has turns, and the
  scan, which starts none, is by an agent without one there.
-/
def nested
    (session : String)
    (before : List Scan)
    (scan : Scan) : Bool :=
  scan.session = session ∧ scan.turnStart = false ∧
    scan.agent ≠ main ∧ openedBy session before ≠ [] ∧
      (openedBy session before).all
        (fun s => s.agent ≠ scan.agent)

def straysFrom
    (session : String)
    (before : List Scan) : List Record → List Scan
| [] => []
| .pull _ :: rest => straysFrom session before rest
| .scan scan :: rest =>
    if nested session before scan ∧
        elsewhere session before scan.agent
    then scan :: straysFrom session (before ++ [scan]) rest
    else straysFrom session (before ++ [scan]) rest

/-
  The nested scans of a session whose agents have opened a
  turn in another session before.
-/
def strays
    (session : String)
    (records : List Record) : List Scan :=
  straysFrom session [] records

/- The scans that open turns, over a whole stream. -/
def stream
    (records : List Record) : List Scan :=
  (scansOf records).filter Scan.turnStart

/- The records of a session. -/
def only
    (session : String)
    (records : List Record) : List Record :=
  records.filter (fun record => record.session = session)

/- What is handed on of a session, its turns by their place. -/
def view
    (session : String)
    (records : List Record) : List Grouped :=
  ((group records).filter
      (fun item => item.session = session)).map
    (Grouped.renumber (rank session (stream records)))

/-
  Scan ids are distinct, a pull names a scan of its session,
  each record has a time, and no sweep closes a turn.
-/
structure WellFormed
    (records : List Record) : Prop where
  ids : ((scansOf records).map Scan.scanId).Nodup
  named :
    ∀ pull ∈ pullsOf records, ∀ scan ∈ scansOf records,
      pull.scanId = some scan.scanId →
        scan.session = pull.session
  timed :
    ∀ record ∈ records, (When.parseUtcIso record.ts).isSome
  unswept :
    ∀ earlier record later,
      records = earlier ++ record :: later →
        ((pushAll .new earlier).1.sweep record.ts).2 = []

end Decisions

------------------------------------------------------------
-- Stray Scans
------------------------------------------------------------

namespace Decisions

variable {session : String} {records : List Record}
variable {before earlier later : List Record} {scan : Scan}

theorem scansOf_append
    (first second : List Record) :
    scansOf (first ++ second) =
      scansOf first ++ scansOf second :=
  List.filterMap_append

theorem mem_straysFrom
    {before : List Scan} :
    scan ∈ straysFrom session before records ↔
      ∃ earlier later,
        records = earlier ++ .scan scan :: later ∧
          nested session (before ++ scansOf earlier) scan ∧
            elsewhere session (before ++ scansOf earlier)
              scan.agent := by
  induction records generalizing before with
  | nil => simp [straysFrom]
  | cons record rest ih =>
      cases record with
      | pull p =>
          rw [straysFrom, ih]
          constructor
          · rintro ⟨earlier, later, rfl, hStray⟩
            exact ⟨.pull p :: earlier, later, rfl, hStray⟩
          · rintro ⟨earlier, later, hRest, hStray⟩
            cases earlier with
            | nil => cases hRest
            | cons first earlier =>
                cases hRest
                exact ⟨earlier, later, rfl, hStray⟩
      | scan q =>
          have hNext :
              scan ∈ straysFrom session (before ++ [q]) rest ↔
                ∃ earlier later,
                  .scan q :: rest =
                      (.scan q :: earlier) ++
                        .scan scan :: later ∧
                    nested session
                        (before ++ scansOf (.scan q :: earlier))
                        scan ∧
                      elsewhere session
                        (before ++ scansOf (.scan q :: earlier))
                        scan.agent := by
            rw [ih]
            simp only [List.cons_append, List.cons.injEq,
              true_and, List.append_assoc]
            rfl
          have hHead :
              scan ∈ straysFrom session before
                  (.scan q :: rest) ↔
                scan = q ∧ nested session before scan ∧
                    elsewhere session before scan.agent ∨
                  scan ∈ straysFrom session (before ++ [q])
                    rest := by
            rw [straysFrom]
            split
            · rename_i hStray
              rw [List.mem_cons]
              constructor
              · rintro (rfl | hRest)
                · exact Or.inl ⟨rfl, hStray⟩
                · exact Or.inr hRest
              · rintro (⟨rfl, -⟩ | hRest)
                · exact Or.inl rfl
                · exact Or.inr hRest
            · rename_i hStray
              constructor
              · exact Or.inr
              · rintro (⟨rfl, hNot⟩ | hRest)
                · exact absurd hNot hStray
                · exact hRest
          rw [hHead, hNext]
          constructor
          · rintro (⟨rfl, hStray⟩ | ⟨earlier, later, hAll⟩)
            · refine ⟨[], rest, rfl, ?_⟩
              simpa [scansOf] using hStray
            · exact ⟨.scan q :: earlier, later, hAll⟩
          · rintro ⟨earlier, later, hRest, hStray⟩
            cases earlier with
            | nil =>
                cases hRest
                refine Or.inl ⟨rfl, ?_⟩
                simpa [scansOf] using hStray
            | cons first earlier =>
                have hFirst : first = .scan q := by
                  injection hRest with hFirst hTail
                  exact hFirst.symm
                rw [hFirst] at hRest hStray
                exact Or.inr ⟨earlier, later, hRest, hStray⟩

/- A scan comes once. -/
theorem WellFormed.once
    (hWell : WellFormed records)
    (hSplit : records = earlier ++ .scan scan :: later) :
    Record.scan scan ∉ earlier ∧ Record.scan scan ∉ later := by
  have hOnce : (scansOf records).Nodup := hWell.ids.of_map _
  have hScans :
      scansOf records =
        scansOf earlier ++ scan :: scansOf later := by
    rw [hSplit, scansOf_append]
    rfl
  rw [hScans] at hOnce
  have hMem :
      ∀ part : List Record,
        .scan scan ∈ part → scan ∈ scansOf part :=
    fun part hMember =>
      List.mem_filterMap.mpr ⟨.scan scan, hMember, rfl⟩
  have hParts := List.nodup_append.mp hOnce
  refine ⟨?_, ?_⟩
  · intro hMember
    exact
      hParts.2.2 scan (hMem earlier hMember) scan
        List.mem_cons_self rfl
  · intro hMember
    exact
      (List.nodup_cons.mp hParts.2.1).1 (hMem later hMember)

theorem WellFormed.split
    (hWell : WellFormed records)
    {earlier' later' : List Record}
    (hSplit : records = earlier ++ .scan scan :: later)
    (hSplit' : records = earlier' ++ .scan scan :: later') :
    earlier = earlier' := by
  have hOnce := hWell.once hSplit
  exact
    ((List.append_cons_inj_of_notMem hOnce.1 hOnce.2).mp
      (hSplit.symm.trans hSplit')).1

/- Whether a nested scan strays is told where it stands. -/
theorem WellFormed.mem_strays
    (session : String)
    (hWell : WellFormed records)
    (hSplit : records = earlier ++ .scan scan :: later) :
    scan ∈ strays session records ↔
      nested session (scansOf earlier) scan ∧
        elsewhere session (scansOf earlier) scan.agent := by
  unfold strays
  rw [mem_straysFrom]
  constructor
  · rintro ⟨earlier', later', hSplit', hStray⟩
    rw [← hWell.split hSplit hSplit',
      List.nil_append] at hStray
    exact hStray
  · intro hStray
    exact ⟨earlier, later, hSplit, by simpa using hStray⟩

end Decisions

------------------------------------------------------------
-- A Session Read Alone
------------------------------------------------------------

namespace Decisions

variable {session : String} {all : List Scan}
variable {b b' : Book} {out : List Grouped}

/- What is told of a record's agent. -/
def Record.told
    (tell : Scan → Bool) : Record → Bool
| .scan s => tell s
| .pull _ => false

/- A session's records read by its own book. -/
def Book.readAll
    (tell : Scan → Bool)
    (b : Book) : List Record → Book × List Grouped
| [] => (b, [])
| record :: rest =>
    let (b, out) := b.read (record.told tell) record
    let (b, more) := b.readAll tell rest
    (b, out ++ more)

theorem readAll_concat
    (tell : Scan → Bool)
    (b : Book)
    (records : List Record)
    (record : Record) :
    b.readAll tell (records ++ [record]) =
      (((b.readAll tell records).1.read (record.told tell)
          record).1,
        (b.readAll tell records).2 ++
          ((b.readAll tell records).1.read (record.told tell)
            record).2) := by
  induction records generalizing b with
  | nil =>
      rw [List.nil_append]
      simp only [Book.readAll, List.append_nil, List.nil_append]
  | cons first rest ih =>
      rw [List.cons_append]
      simp only [Book.readAll, ih, List.append_assoc]

theorem pushAll_concat
    (b : Book)
    (records : List Record)
    (record : Record) :
    b.pushAll (records ++ [record]) =
      (((b.pushAll records).1.push record).1,
        (b.pushAll records).2 ++
          ((b.pushAll records).1.push record).2) := by
  rw [pushAll_append, pushAll_cons]
  simp only [Book.pushAll, List.append_nil]

theorem Alike.only
    (session : String)
    (all : List Scan)
    (hAlike : Alike b b') :
    b.only session all = b'.only session all := by
  unfold Book.only
  rw [hAlike.opened, hAlike.placed]

/- Where no sweep closes a turn, a record is just read. -/
theorem push_read
    {record : Record}
    (hNone : (b.sweep record.ts).2 = [])
    (hTimed : (When.parseUtcIso record.ts).isSome) :
    Alike (b.push record).1 (b.read false record).1 ∧
      (b.push record).2 = (b.read false record).2 := by
  have hAlike := alike_sweep hNone
  cases record with
  | pull p =>
      simp only [Record.ts] at hNone hAlike
      rw [push_pull, hNone, hAlike.placed]
      simp only [Book.read]
      exact ⟨hAlike, rfl⟩
  | scan s =>
      simp only [Record.ts] at hNone hAlike hTimed
      have hScan := alike_scan hAlike hTimed
      unfold Book.push
      simp only [Record.ts]
      generalize b.sweep s.ts = swept at hNone hScan ⊢
      rcases swept with ⟨b₁, closed⟩
      simp only at hNone hScan ⊢
      generalize b₁.scan s = read at hScan ⊢
      rcases read with ⟨b₂, handed⟩
      refine ⟨hScan.1, ?_⟩
      rw [hNone, List.nil_append]
      exact hScan.2

/- The turns a session has opened are in its book. -/
theorem openedBy_placed
    (all : List Scan)
    (b : Book) :
    openedBy session (b.placed.map Prod.fst) =
      starts (b.only session all).placed := by
  rw [starts_only]
  rfl

/- A session that has opened no turn has none open. -/
theorem Kept.opened_nil
    (hKept : Kept b out)
    (hNone :
      openedBy session (b.placed.map Prod.fst) = []) :
    (b.only session all).opened = [] := by
  unfold Book.only
  simp only
  rw [List.map_eq_nil_iff, List.filter_eq_nil_iff]
  intro o hOpen hOwn
  have hBegun := hKept.begun_opened hOpen
  have hMember : o.turn.start ∈ starts b.placed :=
    List.mem_of_getElem? hBegun
  have hStarts :
      o.turn.start ∈
        openedBy session (b.placed.map Prod.fst) :=
    List.mem_filter.mpr ⟨hMember, hOwn⟩
  rw [hNone] at hStarts
  cases hStarts

variable {told told' : Bool}

/- Only a nested scan's turn depends on what is told. -/
theorem turnWith_told
    (all : List Scan)
    {scan : Scan}
    (hKept : Kept b out)
    (hOwn : scan.session = session)
    (hLater : scan.turnStart = false)
    (hTold :
      nested session (b.placed.map Prod.fst) scan →
        told = told') :
    (b.only session all).turnWith told scan =
      (b.only session all).turnWith told' scan := by
  by_cases hNested :
      nested session (b.placed.map Prod.fst) scan = true
  · rw [hTold hNested]
  · unfold Book.turnWith
    cases
      (b.only session all).opened.find?
        (fun o => o.key = scan.key) with
    | some o => rfl
    | none =>
        by_cases hMain : scan.agent = main
        · simp [hMain]
        · by_cases hOpens :
            opensTurns (b.only session all).placed
              scan.agent = true
          · simp [hOpens]
          · -- the session has opened no turn
            have hNil :
                openedBy session (b.placed.map Prod.fst) =
                  [] := by
              by_contra hSome
              apply hNested
              unfold nested
              refine
                decide_eq_true ⟨hOwn, hLater, hMain, hSome, ?_⟩
              apply List.all_eq_true.mpr
              intro s hStarts
              apply decide_eq_true
              intro hAgent
              apply hOpens
              rw [openedBy_placed all] at hStarts
              exact
                List.any_eq_true.mpr
                  ⟨s, hStarts, decide_eq_true hAgent⟩
            have hRecent :
                (b.only session all).mostRecent scan.session =
                  none := by
              unfold Book.mostRecent
              rw [hKept.opened_nil hNil]
              rfl
            simp [hRecent]

theorem read_told
    {scan : Scan}
    (hKept : Kept b out)
    (hOwn : scan.session = session)
    (hTold :
      nested session (b.placed.map Prod.fst) scan →
        told = told') :
    (b.only session all).read told (.scan scan) =
      (b.only session all).read told' (.scan scan) := by
  cases hStart : scan.turnStart with
  | true => rw [read_start hStart, read_start hStart]
  | false =>
      have hTurn :=
        turnWith_told all hKept hOwn hStart hTold
      cases hPlace :
          (b.only session all).turnWith told' scan with
      | none =>
          rw [hPlace] at hTurn
          rw [read_orphan hStart hTurn,
            read_orphan hStart hPlace]
      | some e =>
          rw [hPlace] at hTurn
          rw [read_taken hStart hTurn, read_taken hStart hPlace]

end Decisions

------------------------------------------------------------
-- A Stream Read By A Session
------------------------------------------------------------

namespace Decisions

variable {session : String}
variable {records earlier later : List Record}

/- A stream's beginning is read by the session alone. -/
structure Alone
    (session : String)
    (all : List Scan)
    (tell : Scan → Bool)
    (records : List Record) : Prop where
  home : Home (Book.new.pushAll records).1
  book :
    (Book.new.pushAll records).1.only session all =
      (Book.new.readAll tell (only session records)).1
  out :
    ((Book.new.pushAll records).2.filter
          (fun item => item.session = session)).map
        (Grouped.renumber (rank session all)) =
      (Book.new.readAll tell (only session records)).2

theorem placed_pushAll
    (records : List Record) :
    (Book.new.pushAll records).1.placed.map Prod.fst =
      scansOf records := by
  have hPlaced := (kept_pushAll kept_new records).2.placed
  simpa [Book.new] using hPlaced

theorem kept_new_pushAll
    (records : List Record) :
    Kept (Book.new.pushAll records).1
      (Book.new.pushAll records).2 := by
  have hKept := (kept_pushAll kept_new records).1
  rw [List.nil_append] at hKept
  exact hKept

theorem starts_pushAll
    (records : List Record) :
    starts (Book.new.pushAll records).1.placed =
      stream records := by
  unfold starts stream
  rw [placed_pushAll]

theorem stream_prefix
    (hSplit : records = earlier ++ later) :
    stream earlier <+: stream records := by
  unfold stream
  rw [hSplit, scansOf_append, List.filter_append]
  exact List.prefix_append _ _

/- The next record is just read. -/
theorem WellFormed.read
    (hWell : WellFormed records)
    {record : Record}
    (hSplit : records = earlier ++ record :: later) :
    Alike ((Book.new.pushAll earlier).1.push record).1
        ((Book.new.pushAll earlier).1.read false record).1 ∧
      ((Book.new.pushAll earlier).1.push record).2 =
        ((Book.new.pushAll earlier).1.read false
          record).2 := by
  have hReads := (reads_pushAll reads_new earlier).1
  have hNone :=
    hWell.unswept earlier record later hSplit
  rw [(reads_sweep hReads record.ts).2] at hNone
  apply push_read hNone
  apply hWell.timed
  rw [hSplit]
  simp

/- A record of the session is read where its strays are told. -/
theorem WellFormed.read_own
    (hWell : WellFormed records)
    {record : Record}
    {b : Book}
    {out : List Grouped}
    (hSplit : records = earlier ++ record :: later)
    (hKept : Kept b out)
    (hHome : Home b)
    (hPlaced : b.placed.map Prod.fst = scansOf earlier)
    (hPrefix : starts b.placed <+: stream records)
    (hOwn : record.session = session) :
    (b.only session (stream records)).read
          (record.told
            (fun scan => scan ∈ strays session records))
          record =
        ((b.read false record).1.only session
            (stream records),
          (b.read false record).2.map
            (Grouped.renumber
              (rank session (stream records)))) ∧
      ∀ item ∈ (b.read false record).2,
        item.session = session := by
  have hAlone :=
    only_read_own record
      (record.told
        (fun scan =>
          elsewhere session (b.placed.map Prod.fst)
            scan.agent))
      hKept hHome hPrefix hOwn
      (by
        rintro pull id rfl hId e hMember rfl
        rw [← show pull.session = session from hOwn]
        apply hWell.named pull _ e.1 _ hId
        · rw [hSplit]
          simp [pullsOf]
        · have hScan : e.1 ∈ scansOf earlier := by
            rw [← hPlaced]
            exact List.mem_map_of_mem hMember
          rw [hSplit, scansOf_append]
          exact List.mem_append_left _ hScan)
      (by
        rintro scan rfl
        rfl)
  have hTold :
      (b.only session (stream records)).read
          (record.told
            (fun scan => scan ∈ strays session records))
          record =
        (b.only session (stream records)).read
          (record.told
            (fun scan =>
              elsewhere session (b.placed.map Prod.fst)
                scan.agent))
          record := by
    cases record with
    | pull p => rfl
    | scan s =>
        apply read_told hKept hOwn
        intro hNested
        rw [hPlaced] at hNested ⊢
        have hStray :=
          hWell.mem_strays session hSplit
        simp [Record.told, hStray, hNested]
  rw [hTold]
  exact hAlone

/-
  A stream is read by a session as its records alone are,
  where it is told which scans stray.
-/
theorem alone
    (session : String)
    (hWell : WellFormed records)
    (hSplit : records = earlier ++ later) :
    Alone session (stream records)
      (fun scan => scan ∈ strays session records) earlier := by
  induction earlier using List.reverseRecOn
    generalizing later with
  | nil => exact ⟨home_new, rfl, rfl⟩
  | append_singleton earlier record ih =>
      rw [List.append_assoc, List.singleton_append] at hSplit
      rcases ih hSplit with ⟨hHome, hBook, hOut⟩
      have hKept := kept_new_pushAll earlier
      have hRead := hWell.read hSplit
      have hPrefix := stream_prefix hSplit
      rw [← starts_pushAll earlier] at hPrefix
      have hNext :
          (Book.new.pushAll (earlier ++ [record])).1 =
            ((Book.new.pushAll earlier).1.push record).1 := by
        rw [pushAll_concat]
      have hMore :
          (Book.new.pushAll (earlier ++ [record])).2 =
            (Book.new.pushAll earlier).2 ++
              ((Book.new.pushAll earlier).1.push
                record).2 := by
        rw [pushAll_concat]
      have hHome' := (hHome.read hKept record).alike hRead.1
      have hBook' :=
        hRead.1.only session (stream records)
      by_cases hOwn : record.session = session
      · have hOnly :
            only session (earlier ++ [record]) =
              only session earlier ++ [record] := by
          simp [only, hOwn]
        have hAlone :=
          hWell.read_own hSplit hKept hHome
            (placed_pushAll earlier) hPrefix hOwn
        have hHanded :=
          List.filter_eq_self.mpr
            (fun item hItem =>
              decide_eq_true (hAlone.2 item hItem))
        refine ⟨?_, ?_, ?_⟩
        · rw [hNext]
          exact hHome'
        · rw [hNext, hBook', hOnly, readAll_concat, ← hBook,
            hAlone.1]
        · rw [hMore, hOnly, readAll_concat, ← hBook,
            hAlone.1, List.filter_append, List.map_append,
            hOut, hRead.2, hHanded]
      · have hOnly :
            only session (earlier ++ [record]) =
              only session earlier := by
          simp [only, hOwn]
        have hOther :=
          only_read_other (Book.new.pushAll earlier).1
            (stream records) hOwn
        have hNone :
            ((Book.new.pushAll earlier).1.read false
                  record).2.filter
                (fun item => item.session = session) = [] := by
          apply List.filter_eq_nil_iff.mpr
          intro item hItem hSession
          exact
            hOther.2 item hItem (of_decide_eq_true hSession)
        refine ⟨?_, ?_, ?_⟩
        · rw [hNext]
          exact hHome'
        · rw [hNext, hBook', hOther.1, hBook, hOnly]
        · rw [hMore, hOnly, List.filter_append, hRead.2,
            hNone, List.append_nil, hOut]

end Decisions

------------------------------------------------------------
-- What A Session Is Handed
------------------------------------------------------------

namespace Decisions

variable {b : Book} {out : List Grouped}
variable {session : String} {all : List Scan}
variable {records earlier later : List Record} {scan : Scan}

/- Turns in order are handed on as they are. -/
theorem finish_eq
    (hSorted :
      (b.opened.map (fun o => o.turn.ordinal)).Pairwise
        (· < ·)) :
    b.finish = b.opened.map (fun o => .turn o.turn) := by
  have hOrdered :
      (b.opened.map OpenTurn.turn).Pairwise
        (fun t u => t.ordinal ≤ u.ordinal) := by
    rw [List.pairwise_map] at hSorted ⊢
    exact hSorted.imp (fun hLt => Nat.le_of_lt hLt)
  unfold Book.finish inOrder
  rw [hOrdered.insertionSort_eq, List.map_map]
  rfl

/- The session's book has its turns in order. -/
theorem Home.sorted_only
    (hHome : Home b)
    (hKept : Kept b out)
    (hPrefix : starts b.placed <+: all) :
    ((b.only session all).opened.map
        (fun o => o.turn.ordinal)).Pairwise (· < ·) := by
  have hOrder := hHome.sorted
  unfold Book.only
  simp only
  rw [List.pairwise_map] at hOrder ⊢
  rw [List.pairwise_map]
  have hOwn :=
    List.Pairwise.filter
      (fun o : OpenTurn => decide (o.key.1 = session)) hOrder
  refine hOwn.imp_of_mem ?_
  intro o o' hMember hMember' hLt
  rcases List.mem_filter.mp hMember with ⟨hOpen, hSession⟩
  have hPlace :=
    hKept.home_opened hPrefix hOpen (of_decide_eq_true hSession)
  exact rank_lt hPlace.1 hPlace.2 hLt

/- The turns left open at the end, of a session. -/
theorem Home.finish_only
    (hHome : Home b)
    (hKept : Kept b out)
    (hPrefix : starts b.placed <+: all) :
    (b.finish.filter (fun item => item.session = session)).map
        (Grouped.renumber (rank session all)) =
      (b.only session all).finish := by
  rw [finish_eq hHome.sorted,
    finish_eq (hHome.sorted_only hKept hPrefix)]
  unfold Book.only
  simp only [List.filter_map, List.map_map]
  rfl

/- What a session is handed, by its records and its strays. -/
theorem view_eq
    (hWell : WellFormed records) :
    view session records =
      (Book.new.readAll
            (fun scan => scan ∈ strays session records)
            (only session records)).2 ++
        (Book.new.readAll
            (fun scan => scan ∈ strays session records)
            (only session records)).1.finish := by
  have hAlone :
      Alone session (stream records)
        (fun scan => scan ∈ strays session records) records :=
    alone session hWell (List.append_nil records).symm
  have hPrefix :
      starts (Book.new.pushAll records).1.placed <+:
        stream records := by
    simp only [starts_pushAll, List.prefix_rfl]
  unfold view
  rw [group_eq, List.filter_append, List.map_append,
    hAlone.out, ← hAlone.book]
  rw [hAlone.home.finish_only (kept_new_pushAll records)
    hPrefix]

/- A session with a turn open has a most recent one. -/
theorem foldl_laterTurn_eq_none
    {es : List OpenTurn}
    {best : Option OpenTurn}
    (hNone : es.foldl laterTurn best = none) :
    best = none ∧ es = [] := by
  induction es generalizing best with
  | nil => exact ⟨hNone, rfl⟩
  | cons o rest ih =>
      have hLater := (ih hNone).1
      unfold laterTurn at hLater
      split at hLater
      · cases hLater
      · split at hLater <;> cases hLater

theorem mostRecent_ne_none
    {o : OpenTurn}
    (hOpen : o ∈ b.opened)
    (hOwn : o.key.1 = session) :
    b.mostRecent session ≠ none := by
  intro hNone
  have hEmpty := (foldl_laterTurn_eq_none hNone).2
  have hMember :
      o ∈ b.opened.filter (fun o => o.key.1 = session) :=
    List.mem_filter.mpr ⟨hOpen, decide_eq_true hOwn⟩
  rw [hEmpty] at hMember
  cases hMember

/-
  A nested scan is an orphan just where its agent has opened
  a turn in another session before.
-/
theorem turnOf_nested
    (hKept : Kept b out)
    (hHome : Home b)
    (hNested :
      nested session (b.placed.map Prod.fst) scan = true) :
    b.turnWith false scan = none ↔
      elsewhere session (b.placed.map Prod.fst)
        scan.agent := by
  rcases of_decide_eq_true hNested with
    ⟨hOwn, hLater, hMain, hSome, hOther⟩
  have hStarts :
      ∀ s ∈ starts b.placed, s.session = session →
        s.agent ≠ scan.agent := by
    intro s hMember hSession
    have hOpened :
        s ∈ openedBy session (b.placed.map Prod.fst) :=
      List.mem_filter.mpr
        ⟨hMember, decide_eq_true hSession⟩
    exact of_decide_eq_true (List.all_eq_true.mp hOther s hOpened)
  have hFind :
      b.opened.find? (fun o => o.key = scan.key) = none := by
    apply List.find?_eq_none.mpr
    intro o hOpen hKey
    have hSame : o.key = scan.key := of_decide_eq_true hKey
    have hMember : o.turn.start ∈ starts b.placed :=
      List.mem_of_getElem? (hKept.begun_opened hOpen)
    have hPair :
        o.turn.start.session = scan.session ∧
          o.turn.start.agent = scan.agent :=
      Prod.mk.inj hSame
    exact
      hStarts o.turn.start hMember (hPair.1.trans hOwn)
        hPair.2
  have hOpens :
      opensTurns b.placed scan.agent =
        elsewhere session (b.placed.map Prod.fst)
          scan.agent := by
    rw [opensTurns_only session [] b]
    have hNot :
        opensTurns (b.only session []).placed scan.agent =
          false := by
      unfold opensTurns
      rw [← openedBy_placed, List.any_eq_false]
      intro s hMember
      have hAgent := List.all_eq_true.mp hOther s hMember
      simpa using hAgent
    rw [hNot, Bool.false_or]
  have hRecent : b.mostRecent scan.session ≠ none := by
    rcases List.exists_mem_of_ne_nil _ hSome with
      ⟨s, hMember⟩
    rcases List.mem_filter.mp hMember with ⟨hStart, hSession⟩
    rcases hHome.unclosed s hStart with ⟨o, hOpen, hKey⟩
    apply mostRecent_ne_none hOpen
    rw [hKey, hOwn]
    exact of_decide_eq_true hSession
  unfold Book.turnWith
  rw [hFind]
  simp only [hMain, false_or, hOpens, Bool.false_eq_true,
    or_false]
  split
  · rename_i hTrue
    exact ⟨fun _ => hTrue, fun _ => rfl⟩
  · rename_i hFalse
    exact
      ⟨fun hNone => absurd hNone hRecent,
        fun hTrue => absurd hTrue hFalse⟩

/- Where a scan that opens no turn is placed. -/
theorem placed_read
    (hLater : scan.turnStart = false) :
    (b.read false (.scan scan)).1.placed =
      b.placed ++
        [(scan,
          (b.turnWith false scan).map
            (fun o => o.turn.ordinal))] := by
  cases hTurn : b.turnWith false scan with
  | none => rw [read_orphan hLater hTurn, Option.map_none]
  | some o => rw [read_taken hLater hTurn, Option.map_some]

theorem orphansOf_group
    (records : List Record) :
    orphansOf (group records) =
      placedAt (Book.new.pushAll records).1.placed none := by
  have hEnd := (kept_new_pushAll records).finish
  rw [group_eq]
  exact hEnd.orphans

/- A scan is an orphan if no turn takes it where it stands. -/
theorem WellFormed.mem_orphans
    (hWell : WellFormed records)
    (hSplit : records = earlier ++ .scan scan :: later)
    (hLater : scan.turnStart = false) :
    scan ∈ orphansOf (group records) ↔
      (Book.new.pushAll earlier).1.turnWith false scan =
        none := by
  have hRead := hWell.read hSplit
  have hGrown :=
    (kept_pushAll
      (kept_push (kept_new_pushAll earlier) (.scan scan)).1
      later).2.grown
  have hAll :
      (Book.new.pushAll records).1 =
        (((Book.new.pushAll earlier).1.push
          (.scan scan)).1.pushAll later).1 := by
    rw [hSplit, pushAll_append, pushAll_cons]
  rw [hRead.1.placed, placed_read hLater, ← hAll] at hGrown
  have hPlaced :
      (scan,
          ((Book.new.pushAll earlier).1.turnWith false
            scan).map (fun o => o.turn.ordinal)) ∈
        (Book.new.pushAll records).1.placed :=
    hGrown.subset (by simp)
  have hOnce :
      ((Book.new.pushAll records).1.placed.map
        Prod.fst).Nodup := by
    rw [placed_pushAll]
    exact hWell.ids.of_map _
  rw [orphansOf_group]
  constructor
  · intro hOrphan
    rcases List.mem_map.mp hOrphan with ⟨e, hMember, rfl⟩
    rcases List.mem_filter.mp hMember with ⟨hAt, hNone⟩
    have hSame :=
      List.inj_on_of_nodup_map hOnce hAt hPlaced rfl
    have hTurn : e.2 = none := of_decide_eq_true hNone
    rw [hSame] at hTurn
    exact Option.map_eq_none_iff.mp hTurn
  · intro hNone
    rw [hNone, Option.map_none] at hPlaced
    exact
      List.mem_map.mpr
        ⟨(scan, none),
          List.mem_filter.mpr ⟨hPlaced, decide_eq_true rfl⟩,
          rfl⟩

theorem WellFormed.mem_orphans_of_nested
    (hWell : WellFormed records)
    (hSplit : records = earlier ++ .scan scan :: later)
    (hNested :
      nested session (scansOf earlier) scan = true) :
    scan ∈ orphansOf (group records) ↔
      elsewhere session (scansOf earlier) scan.agent := by
  have hLater := (of_decide_eq_true hNested).2.1
  rw [hWell.mem_orphans hSplit hLater, ← placed_pushAll]
  rw [← placed_pushAll] at hNested
  have hHome : Home (Book.new.pushAll earlier).1 :=
    (alone session hWell hSplit).home
  exact turnOf_nested (kept_new_pushAll earlier) hHome hNested

/- A session is shown its orphans. -/
theorem mem_orphansOf_view
    (hOwn : scan.session = session) :
    scan ∈ orphansOf (view session records) ↔
      scan ∈ orphansOf (group records) := by
  have hOrphan :
      ∀ out : List Grouped,
        scan ∈ orphansOf out ↔ .orphan scan ∈ out := by
    intro out
    unfold orphansOf
    rw [List.mem_filterMap]
    constructor
    · rintro ⟨item, hItem, hSame⟩
      cases item with
      | orphan s =>
          rw [← Option.some.inj hSame]
          exact hItem
      | turn t => cases hSame
      | pull j => cases hSame
    · intro hItem
      exact ⟨.orphan scan, hItem, rfl⟩
  rw [hOrphan, hOrphan]
  unfold view
  rw [List.mem_map]
  constructor
  · rintro ⟨item, hItem, hSame⟩
    cases item with
    | orphan s =>
        cases hSame
        exact List.mem_of_mem_filter hItem
    | turn t => cases hSame
    | pull j => cases hSame
  · intro hItem
    refine ⟨.orphan scan, ?_, rfl⟩
    exact List.mem_filter.mpr ⟨hItem, decide_eq_true hOwn⟩

/- A session's turns are opened by its own records. -/
theorem openedBy_only
    (records : List Record) :
    openedBy session (scansOf (only session records)) =
      openedBy session (scansOf records) := by
  unfold openedBy scansOf only
  induction records with
  | nil => rfl
  | cons record rest ih =>
      by_cases hOwn : record.session = session
      · rw [List.filter_cons_of_pos (by simpa using hOwn)]
        cases record with
        | pull p => exact ih
        | scan s =>
            cases hStart : s.turnStart <;>
              simp_all [Record.session]
      · rw [List.filter_cons_of_neg (by simpa using hOwn), ih]
        cases record with
        | pull p => rfl
        | scan s =>
            cases hStart : s.turnStart <;>
              simp_all [Record.session]

end Decisions

------------------------------------------------------------
-- Two Streams
------------------------------------------------------------

namespace Decisions

variable {session : String}
variable {records records' earlier earlier' : List Record}
variable {scan : Scan}

theorem nested_congr
    (hSame : only session earlier = only session earlier') :
    nested session (scansOf earlier) scan =
      nested session (scansOf earlier') scan := by
  have hOpened :
      openedBy session (scansOf earlier) =
        openedBy session (scansOf earlier') := by
    rw [← openedBy_only earlier, hSame, openedBy_only]
  unfold nested
  rw [hOpened]

/- A scan of the session stands in both streams alike. -/
theorem WellFormed.both
    {later : List Record}
    (hWell : WellFormed records)
    (hSame : only session records = only session records')
    (hSplit : records = earlier ++ .scan scan :: later)
    (hOwn : scan.session = session) :
    ∃ earlier' later',
      records' = earlier' ++ .scan scan :: later' ∧
        only session earlier = only session earlier' := by
  have hParts :
      ∀ first second : List Record,
        only session (first ++ .scan scan :: second) =
          only session first ++
            .scan scan :: only session second := by
    intro first second
    simp [only, Record.session, hOwn]
  have hOnly := hParts earlier later
  rw [← hSplit] at hOnly
  have hMember : Record.scan scan ∈ records' := by
    have hThere : Record.scan scan ∈ only session records' := by
      rw [← hSame, hOnly]
      simp
    exact List.mem_of_mem_filter hThere
  rcases List.append_of_mem hMember with
    ⟨earlier', later', hSplit'⟩
  refine ⟨earlier', later', hSplit', ?_⟩
  rw [hSame, hSplit', hParts] at hOnly
  have hOnce := hWell.once hSplit
  exact
    ((List.append_cons_inj_of_notMem
        (fun hIn => hOnce.1 (List.mem_of_mem_filter hIn))
        (fun hIn => hOnce.2 (List.mem_of_mem_filter hIn))).mp
      hOnly.symm).1

/- Streams that show the session alike have its strays alike. -/
theorem strays_of_view
    (hWell : WellFormed records)
    (hWell' : WellFormed records')
    (hSame : only session records = only session records')
    (hView : view session records = view session records')
    (hStray : scan ∈ strays session records) :
    scan ∈ strays session records' := by
  rcases mem_straysFrom.mp hStray with
    ⟨earlier, later, hSplit, hNested, hElsewhere⟩
  rw [List.nil_append] at hNested hElsewhere
  have hOwn := (of_decide_eq_true hNested).1
  rcases hWell.both hSame hSplit hOwn with
    ⟨earlier', later', hSplit', hPast⟩
  have hNested' :
      nested session (scansOf earlier') scan = true := by
    rw [← nested_congr hPast]
    exact hNested
  have hOrphan :=
    (hWell.mem_orphans_of_nested hSplit hNested).mpr
      hElsewhere
  rw [← mem_orphansOf_view hOwn, hView,
    mem_orphansOf_view hOwn] at hOrphan
  rw [hWell'.mem_strays session hSplit']
  exact
    ⟨hNested',
      (hWell'.mem_orphans_of_nested hSplit' hNested').mp
        hOrphan⟩

/-
  Two streams with a session's records alike show the session
  alike just where they have the same stray scans of it.
-/
theorem noInterference
    (hWell : WellFormed records)
    (hWell' : WellFormed records')
    (hSame : only session records = only session records') :
    view session records = view session records' ↔
      ∀ scan,
        scan ∈ strays session records ↔
          scan ∈ strays session records' := by
  constructor
  · intro hView scan
    exact
      ⟨strays_of_view hWell hWell' hSame hView,
        strays_of_view hWell' hWell hSame.symm hView.symm⟩
  · intro hStrays
    have hTell :
        (fun scan => decide (scan ∈ strays session records)) =
          fun scan =>
            decide (scan ∈ strays session records') := by
      funext scan
      exact decide_eq_decide.mpr (hStrays scan)
    rw [view_eq hWell, view_eq hWell', hSame, hTell]

/- Whether sweeps close turns, by the places of records. -/
theorem unswept_of_take
    (hTake :
      ∀ i : Fin records.length,
        ((pushAll .new (records.take i)).1.sweep
          (records.get i).ts).2 = []) :
    ∀ earlier record later,
      records = earlier ++ record :: later →
        ((pushAll .new earlier).1.sweep record.ts).2 = [] := by
  intro earlier record later hSplit
  subst hSplit
  have hAt := hTake ⟨earlier.length, by simp⟩
  simpa using hAt

/- Of scans alone, each is checked on its own. -/
theorem wellFormed_of_take
    (hIds : ((scansOf records).map Scan.scanId).Nodup)
    (hPulls : pullsOf records = [])
    (hTimed :
      ∀ record ∈ records, (When.parseUtcIso record.ts).isSome)
    (hTake :
      ∀ i : Fin records.length,
        ((pushAll .new (records.take i)).1.sweep
          (records.get i).ts).2 = []) :
    WellFormed records := by
  refine ⟨hIds, ?_, hTimed, unswept_of_take hTake⟩
  intro pull hMember
  rw [hPulls] at hMember
  cases hMember

def minute
    (mm : String) : String :=
  "2026-09-01T10:" ++ mm ++ ":00Z"

/- A turn start, or a later scan, in a project `/p`. -/
def scanAt
    (mm scanId session agent : String)
    (turnStart : Bool) : Record :=
  .scan
    { ts := minute mm
      scanId := scanId
      session := session
      agent := agent
      turnStart := turnStart
      project := "/p"
      outcomes := [] }

def mainThenMate : List Record :=
  [scanAt "01" "a1" "s" "main" true,
    scanAt "02" "a2" "s" "mate" false]

theorem wellFormed_mainThenMate :
    WellFormed mainThenMate :=
  wellFormed_of_take (by decide) rfl
    (by decide) (by decide)

/- Another session's turns, by its main agent. -/
def withMain : List Record :=
  scanAt "00" "o1" "o" "main" true :: mainThenMate

theorem wellFormed_withMain : WellFormed withMain :=
  wellFormed_of_take (by decide) rfl
    (by decide) (by decide)

theorem noInterference_withMain :
    WellFormed mainThenMate ∧ WellFormed withMain ∧
      only "s" mainThenMate = only "s" withMain ∧
        view "s" mainThenMate = view "s" withMain :=
  have hSame : only "s" mainThenMate = only "s" withMain := by
    decide
  have hStrays :
      strays "s" mainThenMate = strays "s" withMain := by
    decide
  ⟨wellFormed_mainThenMate, wellFormed_withMain, hSame,
    (noInterference wellFormed_mainThenMate wellFormed_withMain
      hSame).mpr (fun scan => by rw [hStrays])⟩

/- Another session's turn, by an agent of the same name. -/
def withMate : List Record :=
  scanAt "00" "o1" "o" "mate" true :: mainThenMate

theorem wellFormed_withMate : WellFormed withMate :=
  wellFormed_of_take (by decide) rfl
    (by decide) (by decide)

/-
  The other session's turn takes the mate's scan out of the
  session's turn, and makes it an orphan.
-/
theorem not_noInterference_withMate :
    ¬ ∀ session records records',
      WellFormed records → WellFormed records' →
        only session records = only session records' →
          view session records = view session records' := by
  intro hClaim
  have hView :=
    hClaim "s" mainThenMate withMate wellFormed_mainThenMate
      wellFormed_withMate (by decide)
  revert hView
  decide

end Decisions
