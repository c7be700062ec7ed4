import AgentWays.Decisions.Book

/-
  The grouper that interns names and keeps digests knows
  what the book knows, and hands on the same.

  Key definitions include:
    * `Decisions.ReadsAt`

  Main declarations:
    * `Decisions.reads_push`
    * `Decisions.group_eq`
-/

------------------------------------------------------------
-- The Same Knowledge
------------------------------------------------------------

namespace Decisions

variable {m n : Interner String}

/- An open turn with its agent as a number. -/
structure OpenReads
    (n : Interner String)
    (o : Open)
    (e : OpenTurn) : Prop where
  key : o.key = e.key
  turn : o.turn = e.turn
  last : o.last = e.last
  agent : n.Says o.agent e.turn.start.agent

/- What is kept of a scan. -/
structure InfoReads
    (n : Interner String)
    (info : ScanInfo)
    (e : Placed) : Prop where
  turn : info.turn = e.2
  agent : n.Says info.agent e.1.agent
  project : n.Says info.project e.1.project
  stashed :
    List.Forall₂ n.Says info.stashed
      (e.1.waysWith ["stashed"])
  delivered :
    List.Forall₂ n.Says info.delivered
      (e.1.waysWith deliveredResults)

/- What is kept of a turn. -/
structure TurnReads
    (n : Interner String)
    (placed : List Placed)
    (ordinal : Nat)
    (info : TurnInfo)
    (start : Scan) : Prop where
  agent : n.Says info.agent start.agent
  delivered :
    ∃ ways,
      List.Forall₂ n.Says info.delivered ways ∧
        ∀ way,
          way ∈ ways ↔
            gave placed start.agent ordinal way = true

/-
  The grouper knows by numbers what the book says by names.
  `opening` is the scan at hand when it has opened its turn
  and is not in the book yet.
-/
structure ReadsAt
    (opening : List Scan)
    (s : Turns)
    (b : Book) : Prop where
  time : s.time = b.time
  opened : List.Forall₂ (OpenReads s.names) s.opened b.opened
  scans :
    ∀ id, id ≠ "" →
      Option.Rel (InfoReads s.names) (s.scans.get? id)
        (latest b.placed id)
  unnamed : s.scans.get? "" = none
  count :
    s.turns.length = (starts b.placed ++ opening).length
  turns :
    ∀ ordinal info start,
      s.turns[ordinal]? = some info →
        (starts b.placed ++ opening)[ordinal]? = some start →
          TurnReads s.names b.placed ordinal info start
  turnAgents :
    ∃ agents,
      List.Forall₂ s.names.Says s.turnAgents agents ∧
        ∀ agent,
          agent ∈ agents ↔
            ∃ start ∈ starts b.placed ++ opening,
              start.agent = agent
  begun :
    ∀ e ∈ b.opened,
      (starts b.placed ++ opening)[e.turn.ordinal]? =
        some e.turn.start
  bounded :
    ∀ e ∈ b.placed, ∀ ordinal, e.2 = some ordinal →
      ordinal < (starts b.placed).length

/- Between two records the book holds every scan. -/
abbrev Reads := ReadsAt []

/- A table that has grown says what it said. -/
theorem OpenReads.grow
    {o : Open}
    {e : OpenTurn}
    (hReads : OpenReads n o e)
    (hGrow : m.Extends n) :
    OpenReads m o e :=
  ⟨hReads.key, hReads.turn, hReads.last,
    hGrow.said hReads.agent⟩

theorem InfoReads.grow
    {info : ScanInfo}
    {e : Placed}
    (hReads : InfoReads n info e)
    (hGrow : m.Extends n) :
    InfoReads m info e :=
  ⟨hReads.turn, hGrow.said hReads.agent,
    hGrow.said hReads.project,
    hGrow.says_all hReads.stashed,
    hGrow.says_all hReads.delivered⟩

theorem TurnReads.grow
    {placed : List Placed}
    {ordinal : Nat}
    {info : TurnInfo}
    {start : Scan}
    (hReads : TurnReads n placed ordinal info start)
    (hGrow : m.Extends n) :
    TurnReads m placed ordinal info start := by
  rcases hReads.delivered with ⟨ways, hSays, hGave⟩
  exact
    ⟨hGrow.said hReads.agent, ways, hGrow.says_all hSays,
      hGave⟩

theorem rel_imp
    {α β : Type}
    {R S : α → β → Prop}
    {x : Option α}
    {y : Option β}
    (hImp : ∀ a b, R a b → S a b)
    (hRel : Option.Rel R x y) :
    Option.Rel S x y := by
  cases hRel with
  | some hR => exact Option.Rel.some (hImp _ _ hR)
  | none => exact Option.Rel.none

variable {opening : List Scan} {s : Turns} {b : Book}

theorem ReadsAt.grow
    (hReads : ReadsAt opening s b)
    (hGrow : m.Extends s.names) :
    ReadsAt opening { s with names := m } b := by
  rcases hReads.turnAgents with ⟨agents, hSays, hOpens⟩
  refine
    ⟨hReads.time,
      hReads.opened.imp (fun _ _ hOpen => hOpen.grow hGrow),
      ?_, hReads.unnamed, hReads.count, ?_,
      ⟨agents, hGrow.says_all hSays, hOpens⟩, hReads.begun,
      hReads.bounded⟩
  · intro id hId
    exact
      rel_imp (fun _ _ hInfo => hInfo.grow hGrow)
        (hReads.scans id hId)
  · intro ordinal info start hInfo hStart
    exact
      (hReads.turns ordinal info start hInfo hStart).grow
        hGrow

/- The open turns are the same. -/
theorem turns_eq
    {os : List Open}
    {es : List OpenTurn}
    (hReads : List.Forall₂ (OpenReads n) os es) :
    os.map Open.turn = es.map OpenTurn.turn := by
  induction hReads with
  | nil => rfl
  | cons hHead _ ih =>
      rw [List.map_cons, List.map_cons, hHead.turn, ih]

/- The open turns of a kind are the same. -/
theorem filter_reads
    {os : List Open}
    {es : List OpenTurn}
    {p : Open → Bool}
    {q : OpenTurn → Bool}
    (hSame : ∀ o e, OpenReads n o e → p o = q e)
    (hReads : List.Forall₂ (OpenReads n) os es) :
    List.Forall₂ (OpenReads n) (os.filter p)
      (es.filter q) := by
  apply List.rel_filter _ hReads
  intro o e hOpen
  exact Bool.eq_iff_iff.mp (hSame o e hOpen)

/- What the grouper knows when some turns have been closed. -/
theorem ReadsAt.close
    {os : List Open}
    {es : List OpenTurn}
    (hReads : ReadsAt opening s b)
    (hOpened : List.Forall₂ (OpenReads s.names) os es)
    (hSub : ∀ e ∈ es, e ∈ b.opened)
    (time : Clock) :
    ReadsAt opening { s with opened := os, time := time }
      { b with opened := es, time := time } :=
  ⟨rfl, hOpened, hReads.scans, hReads.unnamed, hReads.count,
    hReads.turns, hReads.turnAgents,
    fun e hMember => hReads.begun e (hSub e hMember),
    hReads.bounded⟩

end Decisions

------------------------------------------------------------
-- The Same Steps
------------------------------------------------------------

namespace Decisions

variable {opening : List Scan} {s : Turns} {b : Book}

theorem reads_new : Reads .new .new := by
  refine ⟨rfl, .nil, ?_, rfl, rfl, ?_, ⟨[], .nil, ?_⟩, ?_, ?_⟩
  · intro id hId
    exact Option.Rel.none
  · intro ordinal info start hInfo
    simp [Turns.new] at hInfo
  · simp [Book.new, starts]
  · simp [Book.new]
  · simp [Book.new]

/- A sweep closes the same turns. -/
theorem reads_sweep
    (hReads : Reads s b)
    (ts : String) :
    Reads (s.sweep ts).1 (b.sweep ts).1 ∧
      (s.sweep ts).2 = (b.sweep ts).2 := by
  unfold Turns.sweep Book.sweep
  rw [hReads.time]
  rcases hSweep : b.time.sweep ts with ⟨due, time⟩
  cases due with
  | none =>
      exact
        ⟨hReads.close hReads.opened (fun _ hMember => hMember)
          time, rfl⟩
  | some now =>
      have hKept :
          List.Forall₂ (OpenReads s.names)
            (s.opened.filter
              (fun o => !decide (addSecs o.last idleSecs < now)))
            (b.opened.filter
              (fun o =>
                !decide (addSecs o.last idleSecs < now))) := by
        apply filter_reads _ hReads.opened
        intro o e hOpen
        rw [hOpen.last]
      have hIdle :
          List.Forall₂ (OpenReads s.names)
            (s.opened.filter
              (fun o => addSecs o.last idleSecs < now))
            (b.opened.filter
              (fun o => addSecs o.last idleSecs < now)) := by
        apply filter_reads _ hReads.opened
        intro o e hOpen
        rw [hOpen.last]
      refine ⟨?_, ?_⟩
      · exact
          hReads.close hKept
            (fun _ hMember => List.mem_of_mem_filter hMember)
            time
      · simp only [Turns.closeIdle, Book.closeIdle,
          turns_eq hIdle]

/- A turn is opened, and the agent's last one handed on. -/
theorem reads_openTurn
    {scan : Scan}
    {agent : Nat}
    (now : Nat)
    (hReads : Reads s b)
    (hAgent : s.names.Says agent scan.agent) :
    ReadsAt [scan] (s.openTurn scan agent now).1
        (b.openTurn scan now).1 ∧
      (s.openTurn scan agent now).2 =
        (b.openTurn scan now).2 := by
  have hCount : s.turns.length = (starts b.placed).length := by
    have hCount := hReads.count
    rwa [List.append_nil] at hCount
  have hRest :
      List.Forall₂ (OpenReads s.names)
        (s.opened.filter
          (fun o => o.key ≠ (scan.session, scan.agent)))
        (b.opened.filter (fun o => o.key ≠ scan.key)) := by
    apply filter_reads _ hReads.opened
    intro o e hOpen
    rw [hOpen.key]
    rfl
  have hDone :
      List.Forall₂ (OpenReads s.names)
        (s.opened.filter
          (fun o => o.key = (scan.session, scan.agent)))
        (b.opened.filter (fun o => o.key = scan.key)) := by
    apply filter_reads _ hReads.opened
    intro o e hOpen
    rw [hOpen.key]
    rfl
  rcases hReads.turnAgents with ⟨agents, hSays, hOpens⟩
  refine ⟨⟨hReads.time, ?_, hReads.scans, hReads.unnamed, ?_,
    ?_, ⟨scan.agent :: agents, ?_, ?_⟩, ?_, hReads.bounded⟩, ?_⟩
  · refine List.rel_append hRest (.cons ?_ .nil)
    refine ⟨rfl, ?_, rfl, hAgent⟩
    simp [hCount, Book.newTurn]
  · change (s.turns ++ [_]).length =
      (starts b.placed ++ [scan]).length
    simp [hCount]
  · intro ordinal info start hInfo hStart
    change (s.turns ++ [_])[ordinal]? = some info at hInfo
    change
      (starts b.placed ++ [scan])[ordinal]? = some start
        at hStart
    rcases Nat.lt_trichotomy ordinal s.turns.length with
      hOld | hNew | hPast
    · rw [List.getElem?_append_left hOld] at hInfo
      rw [List.getElem?_append_left (by omega)] at hStart
      refine hReads.turns ordinal info start hInfo ?_
      rw [List.append_nil]
      exact hStart
    · rw [hNew, List.getElem?_concat_length] at hInfo
      rw [hNew, hCount, List.getElem?_concat_length] at hStart
      cases hInfo
      cases hStart
      refine ⟨hAgent, [], .nil, ?_⟩
      intro way
      have hNone :
          gave b.placed scan.agent ordinal way = false := by
        rw [gave, List.any_eq_false]
        intro e hMember hGave
        have hAt := (of_decide_eq_true hGave).1
        have hBound := hReads.bounded e hMember ordinal hAt
        omega
      simp [Book.openTurn, hNone]
    · rw [List.getElem?_eq_none (by simp; omega)] at hInfo
      cases hInfo
  · exact .cons hAgent hSays
  · intro other
    simp only [List.mem_cons, hOpens, List.append_nil,
      Book.openTurn, List.mem_append, List.not_mem_nil,
      or_false]
    constructor
    · rintro (rfl | ⟨start, hStart, hSame⟩)
      · exact ⟨scan, Or.inr rfl, rfl⟩
      · exact ⟨start, Or.inl hStart, hSame⟩
    · rintro ⟨start, hStart | rfl, hSame⟩
      · exact Or.inr ⟨start, hStart, hSame⟩
      · exact Or.inl hSame.symm
  · intro e hMember
    rcases List.mem_append.mp hMember with hOld | hNew
    · have hBegun :=
        hReads.begun e (List.mem_of_mem_filter hOld)
      rw [List.append_nil] at hBegun
      have hBound := (List.getElem?_eq_some_iff.mp hBegun).1
      change (starts b.placed ++ [scan])[e.turn.ordinal]? = _
      rw [List.getElem?_append_left hBound]
      exact hBegun
    · rw [List.mem_singleton.mp hNew]
      exact List.getElem?_concat_length
  · change List.map _ _ = List.map _ _
    have hTurns := turns_eq hDone
    simpa [List.map_map, Function.comp_def] using
      congrArg (List.map Grouped.turn) hTurns

/- The first open turn of a kind is the same. -/
theorem rel_find
    {n : Interner String}
    {os : List Open}
    {es : List OpenTurn}
    {p : Open → Bool}
    {q : OpenTurn → Bool}
    (hSame : ∀ o e, OpenReads n o e → p o = q e)
    (hReads : List.Forall₂ (OpenReads n) os es) :
    Option.Rel (OpenReads n) (os.find? p) (es.find? q) := by
  induction hReads with
  | nil => exact Option.Rel.none
  | @cons o e os es hHead _ ih =>
      rw [List.find?_cons, List.find?_cons, hSame o e hHead]
      cases q e with
      | true => exact Option.Rel.some hHead
      | false => exact ih

theorem rel_later
    {n : Interner String}
    {x : Option Open}
    {y : Option OpenTurn}
    {o : Open}
    {e : OpenTurn}
    (hBest : Option.Rel (OpenReads n) x y)
    (hOpen : OpenReads n o e) :
    Option.Rel (OpenReads n) (later x o) (laterTurn y e) := by
  cases hBest with
  | none => exact Option.Rel.some hOpen
  | some hOld =>
      simp only [later, laterTurn]
      rw [hOld.last, hOld.turn, hOpen.last, hOpen.turn]
      split
      · exact Option.Rel.some hOpen
      · exact Option.Rel.some hOld

/- A scan belongs to the same turn. -/
theorem rel_turnKey
    {scan : Scan}
    {agent : Nat}
    (hReads : ReadsAt opening s b)
    (hAgent : s.names.Says agent scan.agent)
    (hOpening :
      opening = [] ∨ ∃ e ∈ b.opened, e.key = scan.key) :
    Option.Rel (OpenReads s.names) (s.turnKey scan agent)
      (b.turnOf scan) := by
  have hFind :
      Option.Rel (OpenReads s.names)
        (s.opened.find?
          (fun o => o.key = (scan.session, scan.agent)))
        (b.opened.find? (fun e => e.key = scan.key)) := by
    apply rel_find _ hReads.opened
    intro o e hOpen
    rw [hOpen.key]
    rfl
  unfold Turns.turnKey Book.turnOf
  cases hOwn : b.opened.find? (fun e => e.key = scan.key) with
  | some e =>
      rw [hOwn] at hFind
      cases hKey :
          s.opened.find?
            (fun o => o.key = (scan.session, scan.agent)) with
      | none =>
          rw [hKey] at hFind
          cases hFind
      | some o =>
          rw [hKey] at hFind
          exact hFind
  | none =>
      rw [hOwn] at hFind
      cases hKey :
          s.opened.find?
            (fun o => o.key = (scan.session, scan.agent)) with
      | some o =>
          rw [hKey] at hFind
          cases hFind
      | none =>
          have hEmpty : opening = [] := by
            rcases hOpening with hEmpty | ⟨e, hMember, hSame⟩
            · exact hEmpty
            · have hNone := List.find?_eq_none.mp hOwn e hMember
              simp [hSame] at hNone
          subst hEmpty
          rcases hReads.turnAgents with ⟨agents, hSays, hOpens⟩
          have hTurnAgent :
              agent ∈ s.turnAgents ↔
                opensTurns b.placed scan.agent = true := by
            rw [Interner.contains_of_says hSays hAgent, hOpens]
            simp [opensTurns]
          simp only [hTurnAgent]
          split
          · exact Option.Rel.none
          · apply List.rel_foldl _ Option.Rel.none
            · apply filter_reads _ hReads.opened
              intro o e hOpen
              rw [hOpen.key]
            · intro x y hBest o e hOpen
              exact rel_later hBest hOpen

/- What is kept of a scan says what the scan says. -/
theorem reads_scanInfo
    {scan : Scan}
    {agent : Nat}
    (turn : Option Nat)
    (hReads : ReadsAt opening s b)
    (hAgent : s.names.Says agent scan.agent) :
    ReadsAt opening (s.scanInfo scan agent turn).2 b ∧
      (s.scanInfo scan agent turn).2.names.Extends s.names ∧
      InfoReads (s.scanInfo scan agent turn).2.names
        (s.scanInfo scan agent turn).1 (scan, turn) := by
  have hProject := Interner.says_id (n := s.names)
    (a := scan.project)
  have hFirst := Interner.extends_id (n := s.names)
    (a := scan.project)
  have hStashed :=
    Interner.says_ids (n := (s.names.id scan.project).2)
      (l := scan.waysWith ["stashed"])
  have hSecond :=
    Interner.extends_ids (n := (s.names.id scan.project).2)
      (l := scan.waysWith ["stashed"])
  have hDelivered :=
    Interner.says_ids
      (n :=
        ((s.names.id scan.project).2.ids
          (scan.waysWith ["stashed"])).2)
      (l := scan.waysWith deliveredResults)
  have hThird :=
    Interner.extends_ids
      (n :=
        ((s.names.id scan.project).2.ids
          (scan.waysWith ["stashed"])).2)
      (l := scan.waysWith deliveredResults)
  have hAll := hThird.trans (hSecond.trans hFirst)
  refine ⟨hReads.grow hAll, hAll, ?_⟩
  exact
    ⟨rfl, hAll.said hAgent,
      (hThird.trans hSecond).said hProject,
      hThird.says_all hStashed, hDelivered⟩

/- The scans that open turns, with one more scan. -/
theorem starts_append
    (placed : List Placed)
    (scan : Scan)
    (turn : Option Nat) :
    starts (placed ++ [(scan, turn)]) =
      starts placed ++
        if scan.turnStart then [scan] else [] := by
  unfold starts
  rw [List.map_append, List.filter_append]
  cases hStart : scan.turnStart <;>
    simp [hStart]

theorem latest_append
    (placed : List Placed)
    (e : Placed)
    (id : String) :
    latest (placed ++ [e]) id =
      if e.1.scanId = id then some e else latest placed id := by
  unfold latest
  rw [List.reverse_append, List.reverse_singleton,
    List.singleton_append, List.find?_cons]
  by_cases hId : e.1.scanId = id <;> simp [hId]

theorem gave_append
    (placed : List Placed)
    (scan : Scan)
    (turn : Option Nat)
    (agent : String)
    (ordinal : Nat)
    (way : String) :
    gave (placed ++ [(scan, turn)]) agent ordinal way = true ↔
      gave placed agent ordinal way = true ∨
        (turn = some ordinal ∧ scan.agent = agent ∧
          way ∈ scan.waysWith deliveredResults) := by
  simp [gave, List.any_append, Scan.delivers]

/- A scan that gave a turn nothing leaves what is kept of it. -/
theorem TurnReads.skip
    {n : Interner String}
    {placed : List Placed}
    {ordinal : Nat}
    {info : TurnInfo}
    {start scan : Scan}
    {turn : Option Nat}
    (hReads : TurnReads n placed ordinal info start)
    (hOther :
      turn = some ordinal → scan.agent ≠ start.agent) :
    TurnReads n (placed ++ [(scan, turn)]) ordinal info
      start := by
  rcases hReads.delivered with ⟨ways, hSays, hGave⟩
  refine ⟨hReads.agent, ways, hSays, ?_⟩
  intro way
  rw [gave_append, hGave]
  constructor
  · exact Or.inl
  · rintro (hOld | ⟨hTurn, hAgent, -⟩)
    · exact hOld
    · exact absurd hAgent (hOther hTurn)

/- A scan of a turn's agent adds what it gave. -/
theorem TurnReads.add
    {n : Interner String}
    {placed : List Placed}
    {ordinal : Nat}
    {info : TurnInfo}
    {start scan : Scan}
    {more : List Nat}
    (hReads : TurnReads n placed ordinal info start)
    (hAgent : scan.agent = start.agent)
    (hMore :
      List.Forall₂ n.Says more
        (scan.waysWith deliveredResults)) :
    TurnReads n (placed ++ [(scan, some ordinal)]) ordinal
      { info with delivered := info.delivered ++ more }
      start := by
  rcases hReads.delivered with ⟨ways, hSays, hGave⟩
  refine
    ⟨hReads.agent, ways ++ scan.waysWith deliveredResults,
      List.rel_append hSays hMore, ?_⟩
  intro way
  rw [gave_append, List.mem_append, hGave]
  simp [hAgent]

/- An open turn takes a scan. -/
theorem OpenReads.take
    {n : Interner String}
    {o : Open}
    {e : OpenTurn}
    (hReads : OpenReads n o e)
    (scan : Scan)
    (now : Nat) :
    OpenReads n (o.take scan now) (e.take scan now) := by
  refine ⟨hReads.key, ?_, ?_, hReads.agent⟩
  · simp [Open.take, OpenTurn.take, hReads.turn]
  · simp [Open.take, OpenTurn.take, hReads.last]

/- What the grouper indexes is the scan just read. -/
theorem rel_index
    {s : Turns}
    {placed : List Placed}
    {scan : Scan}
    {turn : Option Nat}
    {info : ScanInfo}
    (hScans :
      ∀ id, id ≠ "" →
        Option.Rel (InfoReads s.names) (s.scans.get? id)
          (latest placed id))
    (hUnnamed : s.scans.get? "" = none)
    (hInfo : InfoReads s.names info (scan, turn)) :
    (∀ id, id ≠ "" →
        Option.Rel (InfoReads s.names)
          ((s.index scan info).scans.get? id)
          (latest (placed ++ [(scan, turn)]) id)) ∧
      (s.index scan info).scans.get? "" = none := by
  unfold Turns.index
  split
  · rename_i hNone
    refine ⟨?_, hUnnamed⟩
    intro id hId
    rw [latest_append, if_neg]
    · exact hScans id hId
    · intro hSame
      exact hId (hSame.symm.trans hNone)
  · rename_i hNamed
    refine ⟨?_, ?_⟩
    · intro id hId
      rw [latest_append, KeyMap.get?_insert]
      by_cases hSame : id = scan.scanId
      · rw [if_pos hSame, if_pos hSame.symm]
        exact Option.Rel.some hInfo
      · rw [if_neg hSame, if_neg (fun h => hSame h.symm)]
        exact hScans id hId
    · rw [KeyMap.get?_insert,
        if_neg (fun h => hNamed h.symm)]
      exact hUnnamed

theorem frame_index
    (s : Turns)
    (scan : Scan)
    (info : ScanInfo) :
    (s.index scan info).time = s.time ∧
      (s.index scan info).opened = s.opened ∧
      (s.index scan info).names = s.names ∧
      (s.index scan info).turns = s.turns ∧
      (s.index scan info).turnAgents = s.turnAgents := by
  unfold Turns.index
  split <;> exact ⟨rfl, rfl, rfl, rfl, rfl⟩

/- An orphan is placed in no turn. -/
theorem reads_orphan
    {scan : Scan}
    {info : ScanInfo}
    (hReads : Reads s b)
    (hLater : scan.turnStart = false)
    (hInfo : InfoReads s.names info (scan, none)) :
    Reads (s.index scan info)
      { b with placed := b.placed ++ [(scan, none)] } := by
  have hStarts :
      starts (b.placed ++ [(scan, none)]) =
        starts b.placed := by
    rw [starts_append, hLater]
    simp
  have hIndex :=
    rel_index hReads.scans hReads.unnamed hInfo
  rcases frame_index s scan info with
    ⟨hTime, hOpened, hNames, hTurns, hAgents⟩
  refine ⟨?_, ?_, ?_, hIndex.2, ?_, ?_, ?_, ?_, ?_⟩
  · rw [hTime]
    exact hReads.time
  · rw [hOpened, hNames]
    exact hReads.opened
  · rw [hNames]
    exact hIndex.1
  · rw [hTurns]
    change _ = (starts (b.placed ++ [(scan, none)]) ++ []).length
    rw [hStarts]
    exact hReads.count
  · intro ordinal turn start hTurn hStart
    rw [hTurns] at hTurn
    change
      (starts (b.placed ++ [(scan, none)]) ++ [])[ordinal]? =
        some start at hStart
    rw [hStarts] at hStart
    rw [hNames]
    exact
      (hReads.turns ordinal turn start hTurn hStart).skip
        (fun hNone => by cases hNone)
  · rw [hNames, hAgents]
    change
      ∃ agents, _ ∧ ∀ agent, agent ∈ agents ↔
        ∃ start ∈ starts (b.placed ++ [(scan, none)]) ++ [], _
    rw [hStarts]
    exact hReads.turnAgents
  · change
      ∀ e ∈ b.opened,
        (starts (b.placed ++ [(scan, none)]) ++ [])[_]? = _
    rw [hStarts]
    exact hReads.begun
  · change
      ∀ e ∈ b.placed ++ [(scan, none)], ∀ ordinal,
        e.2 = some ordinal →
          ordinal <
            (starts (b.placed ++ [(scan, none)])).length
    rw [hStarts]
    intro e hMember ordinal hAt
    rcases List.mem_append.mp hMember with hOld | hNew
    · exact hReads.bounded e hOld ordinal hAt
    · rw [List.mem_singleton.mp hNew] at hAt
      cases hAt

/- What is kept of the turns, when one takes a scan. -/
theorem turnReads_take
    {o : Open}
    {e : OpenTurn}
    {scan start : Scan}
    {info : ScanInfo}
    {now ordinal : Nat}
    {turn : TurnInfo}
    (hReads :
      ReadsAt (if scan.turnStart then [scan] else []) s b)
    (hOpen : OpenReads s.names o e)
    (hMember : e ∈ b.opened)
    (hInfo :
      InfoReads s.names info (scan, some e.turn.ordinal))
    (hTurn :
      (s.take o scan info now).turns[ordinal]? = some turn)
    (hStart :
      (starts b.placed ++
          if scan.turnStart then [scan] else [])[ordinal]? =
        some start) :
    TurnReads s.names
      (b.placed ++ [(scan, some e.turn.ordinal)]) ordinal turn
      start := by
  have hBegun := hReads.begun e hMember
  have hAgents :
      o.agent = info.agent ↔ e.turn.start.agent = scan.agent :=
    Interner.says_iff hOpen.agent hInfo.agent
  unfold Turns.take at hTurn
  simp only [hAgents] at hTurn
  by_cases hPlace : e.turn.ordinal = ordinal
  · have hSame : start = e.turn.start := by
      rw [hPlace] at hBegun
      exact Option.some.inj (hStart.symm.trans hBegun)
    rw [hPlace]
    by_cases hAgent : e.turn.start.agent = scan.agent
    · rw [if_pos hAgent, hOpen.turn, hPlace,
        List.getElem?_modify_eq] at hTurn
      rcases Option.map_eq_some_iff.mp hTurn with
        ⟨old, hOld, rfl⟩
      refine
        (hReads.turns ordinal old start hOld hStart).add ?_
          hInfo.delivered
      rw [hSame, hAgent]
    · rw [if_neg hAgent] at hTurn
      apply (hReads.turns ordinal turn start hTurn hStart).skip
      intro _ hSameAgent
      rw [hSame] at hSameAgent
      exact hAgent hSameAgent.symm
  · have hOld : s.turns[ordinal]? = some turn := by
      split at hTurn
      · simpa [hOpen.turn, hPlace] using hTurn
      · exact hTurn
    apply (hReads.turns ordinal turn start hOld hStart).skip
    intro hAt
    exact absurd (Option.some.inj hAt) hPlace

/- A scan is placed in the open turn that takes it. -/
theorem reads_take
    {o : Open}
    {e : OpenTurn}
    {scan : Scan}
    {info : ScanInfo}
    {now : Nat}
    (hReads :
      ReadsAt (if scan.turnStart then [scan] else []) s b)
    (hOpen : OpenReads s.names o e)
    (hMember : e ∈ b.opened)
    (hInfo :
      InfoReads s.names info (scan, some e.turn.ordinal)) :
    Reads ((s.take o scan info now).index scan info)
      { b.take e scan now with
        placed :=
          b.placed ++ [(scan, some e.turn.ordinal)] } := by
  have hStarts :=
    starts_append b.placed scan (some e.turn.ordinal)
  have hIndex :=
    rel_index (s := s.take o scan info now) hReads.scans
      hReads.unnamed hInfo
  rcases frame_index (s.take o scan info now) scan info with
    ⟨hTime, hOpened, hNames, hTurns, hAgents⟩
  refine ⟨?_, ?_, ?_, hIndex.2, ?_, ?_, ?_, ?_, ?_⟩
  · rw [hTime]
    exact hReads.time
  · rw [hOpened, hNames]
    refine List.rel_map ?_ hReads.opened
    intro o' e' hOther
    simp only [hOther.key, hOpen.key]
    split
    · exact hOther.take scan now
    · exact hOther
  · rw [hNames]
    exact hIndex.1
  · rw [hTurns]
    change
      (s.take o scan info now).turns.length =
        (starts
          (b.placed ++ [(scan, some e.turn.ordinal)]) ++
            []).length
    rw [hStarts, List.append_nil, ← hReads.count]
    unfold Turns.take
    simp only
    split
    · exact List.length_modify _ _ _
    · rfl
  · intro ordinal turn start hTurn hStart
    rw [hTurns] at hTurn
    change
      (starts
          (b.placed ++ [(scan, some e.turn.ordinal)]) ++
            [])[ordinal]? = some start at hStart
    rw [hStarts, List.append_nil] at hStart
    rw [hNames]
    exact
      turnReads_take (s := s) hReads hOpen hMember hInfo hTurn
        hStart
  · rw [hNames, hAgents]
    change
      ∃ agents, _ ∧ ∀ agent, agent ∈ agents ↔
        ∃ start ∈
            starts
              (b.placed ++ [(scan, some e.turn.ordinal)]) ++
              [], _
    rw [hStarts, List.append_nil]
    exact hReads.turnAgents
  · intro e' hTaken
    change
      (starts
          (b.placed ++ [(scan, some e.turn.ordinal)]) ++
            [])[e'.turn.ordinal]? = some e'.turn.start
    rw [hStarts, List.append_nil]
    rcases List.mem_map.mp hTaken with ⟨old, hOld, hSame⟩
    have hKept :
        e'.turn.ordinal = old.turn.ordinal ∧
          e'.turn.start = old.turn.start := by
      rw [← hSame]
      split <;> exact ⟨rfl, rfl⟩
    rw [hKept.1, hKept.2]
    exact hReads.begun old hOld
  · change
      ∀ x ∈ b.placed ++ [(scan, some e.turn.ordinal)],
        ∀ ordinal, x.2 = some ordinal →
          ordinal <
            (starts
              (b.placed ++
                [(scan, some e.turn.ordinal)])).length
    rw [hStarts]
    intro x hPlaced ordinal hAt
    rcases List.mem_append.mp hPlaced with hOld | hNew
    · have hBound := hReads.bounded x hOld ordinal hAt
      rw [List.length_append]
      omega
    · rw [List.mem_singleton.mp hNew] at hAt
      rw [← Option.some.inj hAt]
      exact
        (List.getElem?_eq_some_iff.mp
          (hReads.begun e hMember)).1

end Decisions

------------------------------------------------------------
-- The Same Runs
------------------------------------------------------------

namespace Decisions

variable {s : Turns} {b : Book}

/- The later of some open turns is one of them. -/
theorem foldl_laterTurn
    {es : List OpenTurn}
    {best : Option OpenTurn}
    {e : OpenTurn}
    (hLater : es.foldl laterTurn best = some e) :
    best = some e ∨ e ∈ es := by
  induction es generalizing best with
  | nil => exact Or.inl hLater
  | cons o rest ih =>
      rcases ih hLater with hBest | hRest
      · unfold laterTurn at hBest
        split at hBest
        · rw [← Option.some.inj hBest]
          exact Or.inr List.mem_cons_self
        · split at hBest
          · rw [← Option.some.inj hBest]
            exact Or.inr List.mem_cons_self
          · exact Or.inl hBest
      · exact Or.inr (List.mem_cons_of_mem _ hRest)

theorem mem_of_mostRecent
    {session : String}
    {e : OpenTurn}
    (hRecent : b.mostRecent session = some e) :
    e ∈ b.opened ∧ e.key.1 = session := by
  rcases foldl_laterTurn hRecent with hNone | hMember
  · cases hNone
  · exact
      ⟨List.mem_of_mem_filter hMember,
        of_decide_eq_true (List.mem_filter.mp hMember).2⟩

/- The turn a scan belongs to is an open one of its session. -/
theorem mem_of_turnOf
    {scan : Scan}
    {e : OpenTurn}
    (hTurn : b.turnOf scan = some e) :
    e ∈ b.opened ∧ e.key.1 = scan.session := by
  unfold Book.turnOf at hTurn
  split at hTurn
  · rename_i own hOwn
    rw [← Option.some.inj hTurn]
    have hFound := List.find?_some hOwn
    have hKey : own.key = scan.key := of_decide_eq_true hFound
    exact ⟨List.mem_of_find?_eq_some hOwn, by rw [hKey]; rfl⟩
  · split at hTurn
    · cases hTurn
    · exact mem_of_mostRecent hTurn

/- A scan is placed alike. -/
theorem reads_place
    {agent : Nat}
    (scan : Scan)
    (now : Nat)
    (hReads :
      ReadsAt (if scan.turnStart then [scan] else []) s b)
    (hAgent : s.names.Says agent scan.agent)
    (hOpening :
      scan.turnStart = true →
        ∃ e ∈ b.opened, e.key = scan.key) :
    Reads (s.place scan agent now).1 (b.place scan now).1 ∧
      (s.place scan agent now).2 = (b.place scan now).2 := by
  have hTurn := rel_turnKey hReads hAgent (by
    cases hStart : scan.turnStart with
    | true => exact Or.inr (hOpening hStart)
    | false => exact Or.inl rfl)
  unfold Turns.place Book.place
  cases hOf : b.turnOf scan with
  | some e =>
      cases hKey : s.turnKey scan agent with
      | none =>
          rw [hOf, hKey] at hTurn
          cases hTurn
      | some o =>
          rw [hOf, hKey] at hTurn
          cases hTurn with
          | some hOpen =>
              have hMember := (mem_of_turnOf hOf).1
              rcases reads_scanInfo (some e.turn.ordinal)
                  hReads hAgent with
                ⟨hKept, hGrow, hInfo⟩
              simp only [Option.map_some, hOpen.turn]
              exact
                ⟨reads_take hKept (hOpen.grow hGrow) hMember
                  hInfo, trivial⟩
  | none =>
      cases hKey : s.turnKey scan agent with
      | some o =>
          rw [hOf, hKey] at hTurn
          cases hTurn
      | none =>
          have hLater : scan.turnStart = false := by
            cases hStart : scan.turnStart with
            | false => rfl
            | true =>
                rcases hOpening hStart with
                  ⟨e, hMember, hSame⟩
                have hNone :
                    b.opened.find?
                      (fun o => o.key = scan.key) = none := by
                  unfold Book.turnOf at hOf
                  split at hOf
                  · cases hOf
                  · assumption
                have hNot := List.find?_eq_none.mp hNone e hMember
                simp [hSame] at hNot
          rw [hLater] at hReads
          rcases reads_scanInfo none hReads hAgent with
            ⟨hKept, hGrow, hInfo⟩
          simp only [Option.map_none]
          exact ⟨reads_orphan hKept hLater hInfo, trivial⟩

/- A scan is read alike. -/
theorem reads_scan
    (hReads : Reads s b)
    (scan : Scan) :
    Reads (s.scan scan).1 (b.scan scan).1 ∧
      (s.scan scan).2 = (b.scan scan).2 := by
  have hGrow :=
    hReads.grow
      (Interner.extends_id (n := s.names) (a := scan.agent))
  have hAgent :
      (s.names.id scan.agent).2.Says
        (s.names.id scan.agent).1 scan.agent :=
    Interner.says_id
  unfold Turns.scan Book.scan
  rw [← hReads.time]
  generalize
    (When.parseUtcIso scan.ts).getD s.time.lastSweep = now
  cases hStart : scan.turnStart with
  | true =>
      rcases reads_openTurn now hGrow hAgent with
        ⟨hOpened, hDone⟩
      have hPlaced :=
        reads_place scan now
          (by simpa [hStart] using hOpened) hAgent
          (fun _ =>
            ⟨_, List.mem_append_right _ List.mem_cons_self,
              rfl⟩)
      refine ⟨hPlaced.1, ?_⟩
      simp only [if_true]
      rw [hDone, hPlaced.2]
  | false =>
      have hPlaced :=
        reads_place scan now
          (by simpa [hStart] using hGrow) hAgent
          (fun hTrue => by rw [hStart] at hTrue; cases hTrue)
      refine ⟨hPlaced.1, ?_⟩
      simp only [Bool.false_eq_true, if_false]
      rw [hPlaced.2]

theorem mem_of_latest
    {placed : List Placed}
    {id : String}
    {e : Placed}
    (hLatest : latest placed id = some e) :
    e ∈ placed :=
  List.mem_reverse.mp (List.mem_of_find?_eq_some hLatest)

/- Whether the context had the way is read alike. -/
theorem given_eq
    {info : ScanInfo}
    {named : Placed}
    (pull : Pull)
    (hReads : Reads s b)
    (hNamed : named ∈ b.placed)
    (hInfo : InfoReads s.names info named) :
    s.given info pull =
      given b.placed named pull := by
  have hAgent :
      s.names.find pull.agent = some info.agent ↔
        pull.agent = named.1.agent := by
    rw [Interner.find_eq_some_iff]
    constructor
    · intro hSays
      exact hSays.unique hInfo.agent
    · intro hSame
      rw [hSame]
      exact hInfo.agent
  have hOwn :
      (s.names.find pull.way).any
          (fun w => info.delivered.contains w) =
        named.1.delivers pull.way := by
    apply Bool.eq_iff_iff.mpr
    rw [Interner.contains_of_find hInfo.delivered]
    simp [Scan.delivers]
  have hStashed :
      (s.names.find pull.way).any
          (fun w => info.stashed.contains w) =
        decide (pull.way ∈ named.1.waysWith ["stashed"]) := by
    apply Bool.eq_iff_iff.mpr
    rw [Interner.contains_of_find hInfo.stashed]
    simp
  unfold Turns.given given
  simp only [hAgent, hOwn, hStashed, hInfo.turn]
  by_cases hSame : pull.agent = named.1.agent
  · rw [if_pos hSame, if_pos hSame]
    cases hTurn : named.2 with
    | none => rfl
    | some ordinal =>
        have hBound := hReads.bounded named hNamed ordinal hTurn
        have hCount :
            s.turns.length = (starts b.placed).length := by
          have hCount := hReads.count
          rwa [List.append_nil] at hCount
        have hKept : ordinal < s.turns.length := by omega
        have hStart :
            (starts b.placed)[ordinal]? =
              some (starts b.placed)[ordinal] :=
          List.getElem?_eq_getElem hBound
        have hAt :
            s.turns[ordinal]? = some s.turns[ordinal] :=
          List.getElem?_eq_getElem hKept
        generalize (starts b.placed)[ordinal] = start at hStart
        generalize s.turns[ordinal] = turn at hAt
        have hReadsTurn :=
          hReads.turns ordinal turn start hAt
            (by rw [List.append_nil]; exact hStart)
        have hAgents :
            turn.agent = info.agent ↔
              start.agent = named.1.agent :=
          Interner.says_iff hReadsTurn.agent hInfo.agent
        have hOpenerAt :
            opener b.placed ordinal = some start.agent := by
          simp [opener, hStart]
        simp only [Option.bind_some, hAt, hOpenerAt,
          Option.some.injEq]
        by_cases hOpener : start.agent = named.1.agent
        · rw [if_pos hOpener,
            Option.filter_some_pos (by simp [hAgents, hOpener])]
          rcases hReadsTurn.delivered with ⟨ways, hSays, hGave⟩
          apply Bool.eq_iff_iff.mpr
          rw [Interner.contains_of_find hSays, hGave, hOpener]
        · rw [if_neg hOpener,
            Option.filter_some_neg (by simp [hAgents, hOpener])]
  · rw [if_neg hSame, if_neg hSame]

/- A pull is judged alike. -/
theorem join_eq
    (hReads : Reads s b)
    (pull : Pull) :
    s.join pull = judge b.placed pull := by
  unfold Turns.join judge
  cases hId : pull.scanId with
  | none => rfl
  | some id =>
      by_cases hEmpty : id = ""
      · simp only [hEmpty, if_true, hReads.unnamed]
      · have hScan := hReads.scans id hEmpty
        simp only [hEmpty, if_false]
        cases hNamed : latest b.placed id with
        | none =>
            rw [hNamed] at hScan
            cases hGet : s.scans.get? id with
            | none => rfl
            | some info =>
                rw [hGet] at hScan
                cases hScan
        | some named =>
            rw [hNamed] at hScan
            cases hGet : s.scans.get? id with
            | none =>
                rw [hGet] at hScan
                cases hScan
            | some info =>
                rw [hGet] at hScan
                cases hScan with
                | some hInfo =>
                    have hGiven :=
                      given_eq pull hReads
                        (mem_of_latest hNamed) hInfo
                    have hProject :
                        s.names.names[info.project]? =
                          some named.1.project :=
                      hInfo.project
                    simp only [hProject, hInfo.turn, hGiven]

/- A record is read alike. -/
theorem reads_push
    (hReads : Reads s b)
    (record : Record) :
    Reads (s.push record).1 (b.push record).1 ∧
      (s.push record).2 = (b.push record).2 := by
  rcases reads_sweep hReads record.ts with ⟨hSwept, hOut⟩
  unfold Turns.push Book.push
  generalize s.sweep record.ts = swept at hSwept hOut ⊢
  generalize b.sweep record.ts = swept' at hSwept hOut ⊢
  rcases swept with ⟨s', out⟩
  rcases swept' with ⟨b', out'⟩
  cases record with
  | scan scan =>
      have hScan := reads_scan hSwept scan
      simp only at hScan hOut ⊢
      generalize s'.scan scan = done at hScan ⊢
      generalize b'.scan scan = done' at hScan ⊢
      rcases done with ⟨s'', more⟩
      rcases done' with ⟨b'', more'⟩
      refine ⟨hScan.1, ?_⟩
      rw [hOut, hScan.2]
  | pull pull =>
      refine ⟨hSwept, ?_⟩
      simp only at hSwept hOut ⊢
      rw [hOut, join_eq hSwept]

theorem reads_pushAll
    (hReads : Reads s b)
    (records : List Record) :
    Reads (pushAll s records).1 (b.pushAll records).1 ∧
      (pushAll s records).2 = (b.pushAll records).2 := by
  induction records generalizing s b with
  | nil => exact ⟨hReads, rfl⟩
  | cons record rest ih =>
      have hNext := reads_push hReads record
      unfold pushAll Book.pushAll
      generalize s.push record = next at hNext ⊢
      generalize b.push record = next' at hNext ⊢
      rcases next with ⟨s', out⟩
      rcases next' with ⟨b', out'⟩
      have hRest := ih hNext.1
      simp only at hNext hRest ⊢
      generalize pushAll s' rest = last at hRest ⊢
      generalize b'.pushAll rest = last' at hRest ⊢
      rcases last with ⟨s'', more⟩
      rcases last' with ⟨b'', more'⟩
      refine ⟨hRest.1, ?_⟩
      rw [hNext.2, hRest.2]

/- The grouper hands on what the book does. -/
theorem group_eq
    (records : List Record) :
    group records =
      (Book.new.pushAll records).2 ++
        (Book.new.pushAll records).1.finish := by
  have hReads := reads_pushAll reads_new records
  unfold group
  generalize pushAll Turns.new records = last at hReads ⊢
  generalize Book.new.pushAll records = last' at hReads ⊢
  rcases last with ⟨s', out⟩
  rcases last' with ⟨b', out'⟩
  simp only at hReads ⊢
  unfold Turns.finish Book.finish
  rw [hReads.2, turns_eq hReads.1.opened]

end Decisions
