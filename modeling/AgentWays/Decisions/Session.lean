import AgentWays.Decisions.Grouping

/-
  One session of the decision log.

  A book restricted to a session, its turns numbered by
  their place among the session's own, is the book of a
  grouper that reads that session alone. Only one thing of
  the other sessions reaches it: whether an agent has opened
  a turn there.

  Key definitions include:
    * `Decisions.rank`
    * `Decisions.Book.read`
    * `Decisions.Book.only`
    * `Decisions.Home`

  Main declarations:
    * `Decisions.only_read_other`
    * `Decisions.only_read_own`
-/

------------------------------------------------------------
-- Places Among A Session's Own
------------------------------------------------------------

namespace Decisions

def Record.session : Record → String
| .scan s => s.session
| .pull p => p.session

def Grouped.session : Grouped → String
| .turn t => t.start.session
| .orphan s => s.session
| .pull j => j.pull.session

/- How many turns of a session are opened before a turn. -/
def rank
    (session : String)
    (all : List Scan)
    (ordinal : Nat) : Nat :=
  ((all.take ordinal).filter
    (fun s => s.session = session)).length

variable {session : String} {all : List Scan}
variable {o o' : Nat} {start : Scan}

theorem rank_le
    (hLe : o ≤ o') :
    rank session all o ≤ rank session all o' :=
  ((List.take_sublist_take_left hLe).filter _).length_le

theorem filter_take_succ
    (hAt : all[o]? = some start)
    (hSession : start.session = session) :
    (all.take (o + 1)).filter (fun s => s.session = session) =
      (all.take o).filter (fun s => s.session = session) ++
        [start] := by
  rw [List.take_add_one, hAt, List.filter_append]
  simp [hSession]

theorem rank_lt
    (hAt : all[o]? = some start)
    (hSession : start.session = session)
    (hLt : o < o') :
    rank session all o < rank session all o' := by
  have hNext :
      rank session all (o + 1) = rank session all o + 1 := by
    unfold rank
    rw [filter_take_succ hAt hSession]
    simp
  have hLe : rank session all (o + 1) ≤ rank session all o' :=
    rank_le hLt
  omega

/- The turns of a session keep their order. -/
theorem rank_le_iff
    (hAt : all[o']? = some start)
    (hSession : start.session = session) :
    rank session all o ≤ rank session all o' ↔ o ≤ o' := by
  constructor
  · intro hRank
    by_contra hNot
    have hLt := rank_lt hAt hSession (Nat.lt_of_not_le hNot)
    omega
  · exact rank_le

theorem rank_inj
    (hAt : all[o]? = some start)
    (hSession : start.session = session)
    {start' : Scan}
    (hAt' : all[o']? = some start')
    (hSession' : start'.session = session) :
    rank session all o = rank session all o' ↔ o = o' := by
  have hLe := rank_le_iff (o := o) hAt' hSession'
  have hGe := rank_le_iff (o := o') hAt hSession
  omega

/- A turn of a session, by its place among the session's. -/
theorem getElem?_rank
    (hAt : all[o]? = some start)
    (hSession : start.session = session) :
    (all.filter (fun s => s.session = session))[rank session all
        o]? =
      some start := by
  have hTake :=
    List.take_append_drop (o + 1) all
  rw [← hTake, List.filter_append,
    filter_take_succ hAt hSession]
  unfold rank
  rw [hTake, List.append_assoc,
    List.getElem?_append_right (Nat.le_refl _), Nat.sub_self]
  rfl

/- The place a session's next turn gets. -/
theorem rank_length
    {before : List Scan}
    (hPrefix : before <+: all) :
    rank session all before.length =
      (before.filter (fun s => s.session = session)).length := by
  unfold rank
  rw [← List.prefix_iff_eq_take.mp hPrefix]

end Decisions

------------------------------------------------------------
-- Reading Without The Sweep
------------------------------------------------------------

namespace Decisions

/-
  The turn a scan belongs to, where it is told whether its
  agent has opened a turn in a session not in the book.
-/
def Book.turnWith
    (elsewhere : Bool)
    (b : Book)
    (scan : Scan) : Option OpenTurn :=
  match b.opened.find? (fun o => o.key = scan.key) with
  | some o => some o
  | none =>
      if scan.agent = main ∨ opensTurns b.placed scan.agent ∨
          elsewhere
      then none
      else b.mostRecent scan.session

/- A record that has a time and brings no sweep. -/
def Book.read
    (elsewhere : Bool)
    (b : Book) : Record → Book × List Grouped
| .scan scan =>
    let now := (When.parseUtcIso scan.ts).getD 0
    if scan.turnStart then
      ({ b with
          opened :=
            b.opened.filter (fun o => o.key ≠ scan.key) ++
              [b.newTurn scan now]
          placed :=
            b.placed ++
              [(scan, some (starts b.placed).length)] },
        (b.opened.filter (fun o => o.key = scan.key)).map
          (fun o => .turn o.turn))
    else
      match b.turnWith elsewhere scan with
      | some o =>
          ({ b.take o scan now with
              placed :=
                b.placed ++ [(scan, some o.turn.ordinal)] },
            [])
      | none =>
          ({ b with placed := b.placed ++ [(scan, none)] },
            [.orphan scan])
| .pull pull => (b, [.pull (judge b.placed pull)])

theorem read_start
    {scan : Scan}
    (hStart : scan.turnStart = true)
    (elsewhere : Bool)
    (b : Book) :
    b.read elsewhere (.scan scan) =
      ({ b with
          opened :=
            b.opened.filter (fun o => o.key ≠ scan.key) ++
              [b.newTurn scan
                ((When.parseUtcIso scan.ts).getD 0)]
          placed :=
            b.placed ++
              [(scan, some (starts b.placed).length)] },
        (b.opened.filter (fun o => o.key = scan.key)).map
          (fun o => .turn o.turn)) := by
  simp only [Book.read, hStart, if_true]

theorem read_taken
    {scan : Scan}
    {elsewhere : Bool}
    {b : Book}
    {o : OpenTurn}
    (hLater : scan.turnStart = false)
    (hTurn : b.turnWith elsewhere scan = some o) :
    b.read elsewhere (.scan scan) =
      ({ b.take o scan ((When.parseUtcIso scan.ts).getD 0) with
          placed :=
            b.placed ++ [(scan, some o.turn.ordinal)] },
        []) := by
  simp only [Book.read, hLater, Bool.false_eq_true, if_false,
    hTurn]

theorem read_orphan
    {scan : Scan}
    {elsewhere : Bool}
    {b : Book}
    (hLater : scan.turnStart = false)
    (hTurn : b.turnWith elsewhere scan = none) :
    b.read elsewhere (.scan scan) =
      ({ b with placed := b.placed ++ [(scan, none)] },
        [.orphan scan]) := by
  simp only [Book.read, hLater, Bool.false_eq_true, if_false,
    hTurn]

/- Two books that differ in their clocks at most. -/
structure Alike
    (b b' : Book) : Prop where
  opened : b.opened = b'.opened
  placed : b.placed = b'.placed

theorem turnWith_false
    (b : Book)
    (scan : Scan) :
    b.turnWith false scan = b.turnOf scan := by
  unfold Book.turnWith Book.turnOf
  cases b.opened.find? (fun o => o.key = scan.key) with
  | some o => rfl
  | none => simp

/- A sweep that hands nothing on closes nothing. -/
theorem alike_sweep
    {b : Book}
    {ts : String}
    (hNone : (b.sweep ts).2 = []) :
    Alike (b.sweep ts).1 b := by
  unfold Book.sweep at hNone ⊢
  generalize b.time.sweep ts = swept at hNone ⊢
  rcases swept with ⟨due, time⟩
  cases due with
  | none => exact ⟨rfl, rfl⟩
  | some now =>
      simp only [Book.closeIdle] at hNone ⊢
      refine ⟨?_, rfl⟩
      have hIdle :
          b.opened.filter
              (fun o => addSecs o.last idleSecs < now) = [] := by
        rw [List.map_eq_nil_iff] at hNone
        have hPerm :=
          perm_inOrder
            ((b.opened.filter
              (fun o => addSecs o.last idleSecs < now)).map
                OpenTurn.turn)
        rw [hNone] at hPerm
        exact List.map_eq_nil_iff.mp hPerm.nil_eq.symm
      apply List.filter_eq_self.mpr
      intro o hMember
      have hNot :=
        (List.filter_eq_nil_iff.mp hIdle) o hMember
      simpa using hNot

/- Reading depends on the open turns and the placed scans. -/
theorem alike_scan
    {b b' : Book}
    {scan : Scan}
    (hAlike : Alike b b')
    (hTimed : (When.parseUtcIso scan.ts).isSome) :
    Alike (b.scan scan).1 (b'.read false (.scan scan)).1 ∧
      (b.scan scan).2 = (b'.read false (.scan scan)).2 := by
  rcases Option.isSome_iff_exists.mp hTimed with ⟨now, hNow⟩
  have hTurn : b.turnOf scan = b'.turnWith false scan := by
    rw [turnWith_false]
    unfold Book.turnOf Book.mostRecent
    rw [hAlike.opened, hAlike.placed]
  have hNew : b.newTurn scan now = b'.newTurn scan now := by
    unfold Book.newTurn
    rw [hAlike.placed]
  cases hStart : scan.turnStart with
  | true =>
      have hScan := scan_start hStart b
      simp only [hNow, Option.getD_some] at hScan
      rw [hScan, read_start hStart]
      simp only [hNow, Option.getD_some]
      refine ⟨⟨?_, ?_⟩, ?_⟩
      · simp only [hAlike.opened, hNew]
      · simp only [hAlike.placed]
      · simp only [hAlike.opened]
  | false =>
      have hScan := scan_later hStart b
      simp only [hNow, Option.getD_some] at hScan
      rw [hScan]
      unfold Book.place
      rw [hTurn]
      cases hPlace : b'.turnWith false scan with
      | some o =>
          rw [read_taken hStart hPlace]
          refine ⟨⟨?_, ?_⟩, rfl⟩
          · simp only [Book.take, hAlike.opened, hNow,
              Option.getD_some]
          · simp only [hAlike.placed]
      | none =>
          rw [read_orphan hStart hPlace]
          exact
            ⟨⟨hAlike.opened, by simp only [hAlike.placed]⟩, rfl⟩

end Decisions

------------------------------------------------------------
-- The Book Of A Session
------------------------------------------------------------

namespace Decisions

def Turn.renumber
    (f : Nat → Nat)
    (t : Turn) : Turn :=
  { t with ordinal := f t.ordinal }

def OpenTurn.renumber
    (f : Nat → Nat)
    (o : OpenTurn) : OpenTurn :=
  { o with turn := o.turn.renumber f }

def Grouped.renumber
    (f : Nat → Nat) : Grouped → Grouped
| .turn t => .turn (t.renumber f)
| .orphan s => .orphan s
| .pull j => .pull { j with turn := j.turn.map f }

/- A scan with its turn's place among the session's own. -/
def replace
    (f : Nat → Nat)
    (e : Placed) : Placed :=
  (e.1, e.2.map f)

/- The book of one session, its turns renumbered. -/
def Book.only
    (session : String)
    (all : List Scan)
    (b : Book) : Book where
  opened :=
    (b.opened.filter (fun o => o.key.1 = session)).map
      (OpenTurn.renumber (rank session all))
  placed :=
    (b.placed.filter (fun e => e.1.session = session)).map
      (replace (rank session all))
  time := .new

/- Whether an agent has opened a turn in another session. -/
def elsewhere
    (session : String)
    (scans : List Scan)
    (agent : String) : Bool :=
  scans.any
    (fun s =>
      s.turnStart ∧ s.session ≠ session ∧ s.agent = agent)

/-
  What holds of a book that no sweep has closed a turn of:
  scans are placed at home, and each agent that has opened a
  turn has one open.
-/
structure Home
    (b : Book) : Prop where
  home :
    ∀ e ∈ b.placed, ∀ ordinal, e.2 = some ordinal →
      ∃ start,
        (starts b.placed)[ordinal]? = some start ∧
          start.session = e.1.session
  sorted :
    (b.opened.map (fun o => o.turn.ordinal)).Pairwise (· < ·)
  unclosed :
    ∀ start ∈ starts b.placed,
      ∃ o ∈ b.opened, o.key = start.key

variable {b : Book} {out : List Grouped}
variable {session : String} {all : List Scan}

theorem Home.alike
    {b' : Book}
    (hHome : Home b)
    (hAlike : Alike b' b) :
    Home b' := by
  refine ⟨?_, ?_, ?_⟩
  · rw [hAlike.placed]
    exact hHome.home
  · rw [hAlike.opened]
    exact hHome.sorted
  · rw [hAlike.opened, hAlike.placed]
    exact hHome.unclosed

theorem home_new : Home .new := by
  refine ⟨?_, ?_, ?_⟩ <;> simp [Book.new, starts]

theorem Kept.begun_opened
    (hKept : Kept b out)
    {o : OpenTurn}
    (hOpen : o ∈ b.opened) :
    (starts b.placed)[o.turn.ordinal]? = some o.turn.start :=
  hKept.begun o.turn
    (List.mem_append_right _ (List.mem_map_of_mem hOpen))

/- A start is home in the turn it opens. -/
theorem Home.start
    {scan : Scan}
    {now : Nat}
    (hHome : Home b)
    (hKept : Kept b out)
    (hStart : scan.turnStart = true) :
    Home
      { b with
        opened :=
          b.opened.filter (fun o => o.key ≠ scan.key) ++
            [b.newTurn scan now]
        placed :=
          b.placed ++
            [(scan, some (starts b.placed).length)] } := by
  have hStarts :=
    starts_start (b := b) hStart (some (starts b.placed).length)
  refine ⟨?_, ?_, ?_⟩
  · change
      ∀ e ∈ b.placed ++ [_], ∀ ordinal, e.2 = some ordinal →
        ∃ start, (starts (b.placed ++ [_]))[ordinal]? = _ ∧ _
    rw [hStarts]
    intro e hMember ordinal hAt
    rcases List.mem_append.mp hMember with hOld | hNew
    · rcases hHome.home e hOld ordinal hAt with
        ⟨start, hPlace, hSession⟩
      have hBound := (List.getElem?_eq_some_iff.mp hPlace).1
      refine ⟨start, ?_, hSession⟩
      rw [List.getElem?_append_left hBound]
      exact hPlace
    · rw [List.mem_singleton.mp hNew] at hAt ⊢
      refine ⟨scan, ?_, rfl⟩
      rw [← Option.some.inj hAt]
      exact List.getElem?_concat_length
  · rw [List.map_append, List.pairwise_append]
    refine ⟨?_, by simp, ?_⟩
    · exact
        List.Pairwise.sublist
          (List.filter_sublist.map _) hHome.sorted
    · intro ordinal hOld ordinal' hNew
      rcases List.mem_map.mp hOld with ⟨o, hOpen, rfl⟩
      rw [List.mem_singleton.mp hNew]
      have hBegun :=
        hKept.begun_opened (List.mem_of_mem_filter hOpen)
      exact (List.getElem?_eq_some_iff.mp hBegun).1
  · change
      ∀ start ∈ starts (b.placed ++ [_]), ∃ o ∈ _ ++ [_], _
    rw [hStarts]
    intro start hMember
    by_cases hKey : start.key = scan.key
    · refine
        ⟨b.newTurn scan now,
          List.mem_append_right _ List.mem_cons_self, ?_⟩
      rw [hKey]
      rfl
    · rcases List.mem_append.mp hMember with hOld | hNew
      · rcases hHome.unclosed start hOld with
          ⟨o, hOpen, hSame⟩
        refine ⟨o, List.mem_append_left _ ?_, hSame⟩
        apply List.mem_filter.mpr
        refine ⟨hOpen, decide_eq_true ?_⟩
        rw [hSame]
        exact hKey
      · rw [List.mem_singleton.mp hNew] at hKey
        exact absurd rfl hKey

/- Another scan is home in the turn it is placed in. -/
theorem Home.later
    {scan : Scan}
    {turn : Option Nat}
    {opened : List OpenTurn}
    (hHome : Home b)
    (hLater : scan.turnStart = false)
    (hTurn :
      ∀ ordinal, turn = some ordinal →
        ∃ start,
          (starts b.placed)[ordinal]? = some start ∧
            start.session = scan.session)
    (hOrdinals :
      opened.map (fun o => o.turn.ordinal) =
        b.opened.map (fun o => o.turn.ordinal))
    (hKeys :
      opened.map OpenTurn.key = b.opened.map OpenTurn.key) :
    Home
      { b with
        opened := opened
        placed := b.placed ++ [(scan, turn)] } := by
  have hStarts := starts_later (b := b) hLater turn
  refine ⟨?_, ?_, ?_⟩
  · change
      ∀ e ∈ b.placed ++ [_], ∀ ordinal, e.2 = some ordinal →
        ∃ start, (starts (b.placed ++ [_]))[ordinal]? = _ ∧ _
    rw [hStarts]
    intro e hMember ordinal hAt
    rcases List.mem_append.mp hMember with hOld | hNew
    · exact hHome.home e hOld ordinal hAt
    · rw [List.mem_singleton.mp hNew] at hAt ⊢
      exact hTurn ordinal hAt
  · rw [hOrdinals]
    exact hHome.sorted
  · change ∀ start ∈ starts (b.placed ++ [_]), ∃ o ∈ opened, _
    rw [hStarts]
    intro start hMember
    rcases hHome.unclosed start hMember with ⟨o, hOpen, hSame⟩
    have hKey : start.key ∈ opened.map OpenTurn.key := by
      rw [hKeys, ← hSame]
      exact List.mem_map_of_mem hOpen
    rcases List.mem_map.mp hKey with ⟨o', hOpen', hSame'⟩
    exact ⟨o', hOpen', hSame'⟩

/- A record is read at home. -/
theorem Home.read
    (hHome : Home b)
    (hKept : Kept b out)
    (record : Record) :
    Home (b.read false record).1 := by
  cases record with
  | pull p => exact hHome
  | scan scan =>
      cases hStart : scan.turnStart with
      | true =>
          rw [read_start hStart]
          exact hHome.start hKept hStart
      | false =>
          cases hTurn : b.turnWith false scan with
          | none =>
              rw [read_orphan hStart hTurn]
              refine hHome.later hStart ?_ rfl rfl
              intro ordinal hSome
              cases hSome
          | some e =>
              rw [read_taken hStart hTurn]
              rw [turnWith_false] at hTurn
              have hMember := mem_of_turnOf hTurn
              have hFields :=
                take_fields b e scan
                  ((When.parseUtcIso scan.ts).getD 0)
              refine hHome.later hStart ?_ hFields.2 hFields.1
              intro ordinal hSome
              rw [← Option.some.inj hSome]
              exact
                ⟨e.turn.start, hKept.begun_opened hMember.1,
                  hMember.2⟩

/- Another scan changes no turn of the session. -/
theorem filter_take
    {e : OpenTurn}
    {scan : Scan}
    {now : Nat}
    (hOther : e.key.1 ≠ session) :
    (b.take e scan now).opened.filter
        (fun o => o.key.1 = session) =
      b.opened.filter (fun o => o.key.1 = session) := by
  unfold Book.take
  simp only
  induction b.opened with
  | nil => rfl
  | cons o rest ih =>
      rw [List.map_cons]
      by_cases hKey : o.key = e.key
      · have hTaken : (o.take scan now).key.1 ≠ session := by
          change o.key.1 ≠ session
          rw [hKey]
          exact hOther
        have hOwn : o.key.1 ≠ session := hTaken
        rw [if_pos hKey,
          List.filter_cons_of_neg (by simpa using hTaken),
          List.filter_cons_of_neg (by simpa using hOwn)]
        exact ih
      · rw [if_neg hKey]
        by_cases hOwn : o.key.1 = session
        · rw [List.filter_cons_of_pos (by simpa using hOwn),
            List.filter_cons_of_pos (by simpa using hOwn), ih]
        · rw [List.filter_cons_of_neg (by simpa using hOwn),
            List.filter_cons_of_neg (by simpa using hOwn), ih]

theorem filter_placed_other
    {scan : Scan}
    {turn : Option Nat}
    (hOther : scan.session ≠ session) :
    (b.placed ++ [(scan, turn)]).filter
        (fun e => e.1.session = session) =
      b.placed.filter (fun e => e.1.session = session) := by
  rw [List.filter_append]
  simp [hOther]

/-
  A record of another session leaves the session's book, and
  hands on nothing of the session.
-/
theorem only_read_other
    (b : Book)
    (all : List Scan)
    {record : Record}
    (hOther : record.session ≠ session) :
    (b.read false record).1.only session all =
        b.only session all ∧
      ∀ item ∈ (b.read false record).2,
        item.session ≠ session := by
  cases record with
  | pull p =>
      refine ⟨rfl, ?_⟩
      intro item hItem
      rw [List.mem_singleton.mp hItem]
      change (judge b.placed p).pull.session ≠ session
      rw [pull_judge]
      exact hOther
  | scan scan =>
      have hScan : scan.session ≠ session := hOther
      cases hStart : scan.turnStart with
      | true =>
          rw [read_start hStart]
          refine ⟨?_, ?_⟩
          · unfold Book.only
            simp only
            rw [filter_placed_other hScan, List.filter_append,
              List.filter_filter]
            have hNew :
                [b.newTurn scan
                    ((When.parseUtcIso scan.ts).getD 0)].filter
                  (fun o => o.key.1 = session) = [] := by
              simp [OpenTurn.key, Book.newTurn, Scan.key, hScan]
            have hKept :
                b.opened.filter
                    (fun o =>
                      decide (o.key.1 = session) &&
                        decide (o.key ≠ scan.key)) =
                  b.opened.filter
                    (fun o => o.key.1 = session) := by
              apply List.filter_congr
              intro o hOpen
              by_cases hOwn : o.key.1 = session
              · have hKey : o.key ≠ scan.key := by
                  intro hSame
                  rw [hSame] at hOwn
                  exact hScan hOwn
                simp [hOwn, hKey]
              · simp [hOwn]
            rw [hNew, hKept, List.append_nil]
          · intro item hItem
            rcases List.mem_map.mp hItem with ⟨o, hOpen, rfl⟩
            have hKey : o.key = scan.key :=
              of_decide_eq_true (List.mem_filter.mp hOpen).2
            change o.key.1 ≠ session
            rw [hKey]
            exact hScan
      | false =>
          cases hTurn : b.turnWith false scan with
          | none =>
              rw [read_orphan hStart hTurn]
              refine ⟨?_, ?_⟩
              · unfold Book.only
                simp only
                rw [filter_placed_other hScan]
              · intro item hItem
                rw [List.mem_singleton.mp hItem]
                exact hScan
          | some e =>
              rw [read_taken hStart hTurn]
              refine ⟨?_, by simp⟩
              rw [turnWith_false] at hTurn
              have hKey := (mem_of_turnOf hTurn).2
              unfold Book.only
              simp only
              rw [filter_placed_other hScan,
                filter_take (by rw [hKey]; exact hScan)]

end Decisions

------------------------------------------------------------
-- A Record Of The Session
------------------------------------------------------------

namespace Decisions

variable {b : Book} {out : List Grouped}
variable {session : String} {all : List Scan}

theorem starts_only
    (b : Book) :
    starts (b.only session all).placed =
      (starts b.placed).filter
        (fun s => s.session = session) := by
  unfold starts Book.only
  simp only
  induction b.placed with
  | nil => rfl
  | cons e rest ih =>
      by_cases hOwn : e.1.session = session
      · by_cases hStart : e.1.turnStart = true <;>
          simp_all [replace]
      · by_cases hStart : e.1.turnStart = true <;> simp_all

/- The session's next turn gets its place among them. -/
theorem length_starts_only
    (session : String)
    (hPrefix : starts b.placed <+: all) :
    (starts (b.only session all).placed).length =
      rank session all (starts b.placed).length := by
  rw [starts_only, rank_length hPrefix]

/- An open turn of the session has a place in the stream. -/
theorem Kept.home_opened
    (hKept : Kept b out)
    (hPrefix : starts b.placed <+: all)
    {o : OpenTurn}
    (hOpen : o ∈ b.opened)
    (hOwn : o.key.1 = session) :
    all[o.turn.ordinal]? = some o.turn.start ∧
      o.turn.start.session = session := by
  rcases hPrefix with ⟨more, hAll⟩
  have hBegun := hKept.begun_opened hOpen
  have hBound := (List.getElem?_eq_some_iff.mp hBegun).1
  refine ⟨?_, hOwn⟩
  rw [← hAll, List.getElem?_append_left hBound]
  exact hBegun

theorem find_only
    (key : String × String)
    (hOwn : key.1 = session) :
    (b.only session all).opened.find? (fun o => o.key = key) =
      (b.opened.find? (fun o => o.key = key)).map
        (OpenTurn.renumber (rank session all)) := by
  unfold Book.only
  simp only [List.find?_map, List.find?_filter]
  congr 2
  funext o
  by_cases hKey : o.key = key
  · have hSame :
        (o.renumber (rank session all)).key = key := hKey
    simp [hSame, hKey, hOwn]
  · have hOther :
        (o.renumber (rank session all)).key ≠ key := hKey
    simp [hOther, hKey]

/- Agents have opened turns in the session, or elsewhere. -/
theorem opensTurns_only
    (session : String)
    (all : List Scan)
    (b : Book)
    (agent : String) :
    opensTurns b.placed agent =
      (opensTurns (b.only session all).placed agent ||
        elsewhere session (b.placed.map Prod.fst) agent) := by
  unfold opensTurns elsewhere
  rw [starts_only]
  unfold starts
  induction b.placed with
  | nil => rfl
  | cons e rest ih =>
      by_cases hStart : e.1.turnStart = true
      · by_cases hOwn : e.1.session = session
        · simp_all [Bool.or_assoc]
        · simp_all only [List.map_cons,
            List.filter_cons_of_pos, List.any_cons, ne_eq,
            not_false_eq_true, true_and]
          rw [List.filter_cons_of_neg (by simpa using hOwn)]
          exact Bool.or_left_comm _ _ _
      · simp_all

/- The later of two turns is so by their places too. -/
theorem foldl_renumber
    {es : List OpenTurn}
    (best : Option OpenTurn)
    (hEs :
      ∀ e ∈ es,
        all[e.turn.ordinal]? = some e.turn.start ∧
          e.turn.start.session = session)
    (hBest :
      ∀ e, best = some e →
        all[e.turn.ordinal]? = some e.turn.start ∧
          e.turn.start.session = session) :
    (es.map (OpenTurn.renumber (rank session all))).foldl
        laterTurn
        (best.map (OpenTurn.renumber (rank session all))) =
      (es.foldl laterTurn best).map
        (OpenTurn.renumber (rank session all)) := by
  induction es generalizing best with
  | nil => rfl
  | cons o rest ih =>
      have hHead := hEs o List.mem_cons_self
      have hLater :
          laterTurn
              (best.map
                (OpenTurn.renumber (rank session all)))
              (o.renumber (rank session all)) =
            (laterTurn best o).map
              (OpenTurn.renumber (rank session all)) := by
        cases best with
        | none => rfl
        | some old =>
            have hOrder :=
              rank_le_iff (o := old.turn.ordinal) hHead.1
                hHead.2
            simp only [laterTurn, Option.map_some,
              OpenTurn.renumber, Turn.renumber, hOrder]
            split <;> rfl
      rw [List.map_cons, List.foldl_cons, List.foldl_cons,
        hLater]
      apply ih _ (fun e hMember =>
        hEs e (List.mem_cons_of_mem _ hMember))
      intro e hSome
      unfold laterTurn at hSome
      split at hSome
      · rw [← Option.some.inj hSome]
        exact hHead
      · split at hSome
        · rw [← Option.some.inj hSome]
          exact hHead
        · exact hBest e hSome

theorem mostRecent_only
    (hKept : Kept b out)
    (hPrefix : starts b.placed <+: all) :
    (b.only session all).mostRecent session =
      (b.mostRecent session).map
        (OpenTurn.renumber (rank session all)) := by
  have hAll :
      (b.only session all).opened.filter
          (fun o => o.key.1 = session) =
        (b.only session all).opened := by
    apply List.filter_eq_self.mpr
    intro o hOpen
    rcases List.mem_map.mp hOpen with ⟨old, hOld, rfl⟩
    exact (List.mem_filter.mp hOld).2
  unfold Book.mostRecent
  rw [hAll]
  apply foldl_renumber none
  · intro e hMember
    rcases List.mem_filter.mp hMember with ⟨hOpen, hOwn⟩
    exact
      hKept.home_opened hPrefix hOpen (of_decide_eq_true hOwn)
  · intro e hNone
    cases hNone

/- A scan belongs to the turn it belongs to in its session. -/
theorem turnWith_only
    (scan : Scan)
    (hKept : Kept b out)
    (hPrefix : starts b.placed <+: all)
    (hOwn : scan.session = session) :
    (b.only session all).turnWith
        (elsewhere session (b.placed.map Prod.fst) scan.agent)
        scan =
      (b.turnWith false scan).map
        (OpenTurn.renumber (rank session all)) := by
  unfold Book.turnWith
  rw [find_only scan.key hOwn,
    opensTurns_only session all b]
  cases b.opened.find? (fun o => o.key = scan.key) with
  | some o => rfl
  | none =>
      simp only [Option.map_none, Bool.or_eq_true,
        Bool.false_eq_true, or_false]
      split
      · rfl
      · rw [hOwn]
        exact mostRecent_only hKept hPrefix

theorem filter_placed_own
    {scan : Scan}
    {turn : Option Nat}
    (hOwn : scan.session = session) :
    (b.placed ++ [(scan, turn)]).filter
        (fun e => e.1.session = session) =
      b.placed.filter (fun e => e.1.session = session) ++
        [(scan, turn)] := by
  rw [List.filter_append]
  simp [hOwn]

/- Taking a scan commutes with looking at the session alone. -/
theorem take_only
    (b : Book)
    (session : String)
    (all : List Scan)
    (o : OpenTurn)
    (scan : Scan)
    (now : Nat) :
    ((b.only session all).take
        (o.renumber (rank session all)) scan now).opened =
      ((b.take o scan now).opened.filter
          (fun o => o.key.1 = session)).map
        (OpenTurn.renumber (rank session all)) := by
  unfold Book.take Book.only
  simp only
  induction b.opened with
  | nil => rfl
  | cons other rest ih =>
      have hTaken :
          (if other.key = o.key then other.take scan now
            else other).key.1 = other.key.1 := by
        split <;> rfl
      have hSame :
          (if (other.renumber (rank session all)).key =
                (o.renumber (rank session all)).key then
              (other.renumber (rank session all)).take scan now
            else other.renumber (rank session all)) =
            (if other.key = o.key then other.take scan now
              else other).renumber (rank session all) := by
        by_cases hKey : other.key = o.key
        · have hKey' :
              (other.renumber (rank session all)).key =
                (o.renumber (rank session all)).key := hKey
          rw [if_pos hKey, if_pos hKey']
          rfl
        · have hKey' :
              (other.renumber (rank session all)).key ≠
                (o.renumber (rank session all)).key := hKey
          rw [if_neg hKey, if_neg hKey']
      by_cases hOwn : other.key.1 = session
      · rw [List.filter_cons_of_pos (by simpa using hOwn),
          List.map_cons, List.map_cons, List.map_cons, ih,
          List.filter_cons_of_pos
            (by rw [hTaken]; simpa using hOwn),
          List.map_cons, hSame]
      · rw [List.filter_cons_of_neg (by simpa using hOwn),
          List.map_cons, ih,
          List.filter_cons_of_neg
            (by rw [hTaken]; simpa using hOwn)]

theorem rank_prefix
    {before : List Scan}
    {o : Nat}
    (hPrefix : before <+: all)
    (hBound : o ≤ before.length) :
    rank session all o = rank session before o := by
  rcases hPrefix with ⟨more, hAll⟩
  unfold rank
  rw [← hAll, List.take_append_of_le_length hBound]

/- A named scan of the session is found among its own. -/
theorem latest_only
    {id : String}
    (hNamed :
      ∀ e ∈ b.placed, e.1.scanId = id →
        e.1.session = session) :
    latest (b.only session all).placed id =
      (latest b.placed id).map
        (replace (rank session all)) := by
  unfold latest Book.only
  simp only
  rw [← List.map_reverse, ← List.filter_reverse]
  have hNamed' :
      ∀ e ∈ b.placed.reverse, e.1.scanId = id →
        e.1.session = session :=
    fun e hMember => hNamed e (List.mem_reverse.mp hMember)
  generalize b.placed.reverse = placed at hNamed'
  induction placed with
  | nil => rfl
  | cons e rest ih =>
      have hRest :=
        ih (fun x hMember =>
          hNamed' x (List.mem_cons_of_mem _ hMember))
      have hFst : (replace (rank session all) e).1 = e.1 := rfl
      by_cases hId : e.1.scanId = id
      · have hOwn := hNamed' e List.mem_cons_self hId
        have hSame :
            (replace (rank session all) e).1.scanId = id := by
          rw [hFst]
          exact hId
        rw [List.filter_cons_of_pos (by simpa using hOwn),
          List.map_cons,
          List.find?_cons_of_pos (by simpa using hSame),
          List.find?_cons_of_pos (by simpa using hId)]
        rfl
      · have hSame :
            (replace (rank session all) e).1.scanId ≠ id := by
          rw [hFst]
          exact hId
        rw [List.find?_cons_of_neg (by simpa using hId)]
        by_cases hOwn : e.1.session = session
        · rw [List.filter_cons_of_pos (by simpa using hOwn),
            List.map_cons,
            List.find?_cons_of_neg (by simpa using hSame)]
          exact hRest
        · rw [List.filter_cons_of_neg (by simpa using hOwn)]
          exact hRest

/- What a turn's scans gave is told by the session's own. -/
theorem gave_only
    {ordinal : Nat}
    {start : Scan}
    (hHome : Home b)
    (hStart : (starts b.placed)[ordinal]? = some start)
    (hOwn : start.session = session)
    (hPrefix : starts b.placed <+: all)
    (agent way : String) :
    gave (b.only session all).placed agent
        (rank session all ordinal) way =
      gave b.placed agent ordinal way := by
  have hAt :
      ∀ (o : Nat) (s : Scan),
        (starts b.placed)[o]? = some s →
          all[o]? = some s := by
    rcases hPrefix with ⟨more, hAll⟩
    intro o s hPlace
    have hBound := (List.getElem?_eq_some_iff.mp hPlace).1
    rw [← hAll, List.getElem?_append_left hBound]
    exact hPlace
  apply Bool.eq_iff_iff.mpr
  unfold gave
  simp only [List.any_eq_true, decide_eq_true_eq]
  constructor
  · rintro ⟨e', hMember, hPlace, hAgent, hGave⟩
    rcases List.mem_map.mp hMember with ⟨e, hOld, rfl⟩
    rcases List.mem_filter.mp hOld with ⟨hPlaced, hSession⟩
    refine ⟨e, hPlaced, ?_, hAgent, hGave⟩
    rcases Option.map_eq_some_iff.mp hPlace with
      ⟨o, hTurn, hRank⟩
    rcases hHome.home e hPlaced o hTurn with
      ⟨start', hStart', hSame⟩
    have hSession' : start'.session = session := by
      rw [hSame]
      exact of_decide_eq_true hSession
    rw [hTurn]
    congr 1
    exact
      (rank_inj (hAt o start' hStart') hSession'
        (hAt ordinal start hStart) hOwn).mp hRank
  · rintro ⟨e, hPlaced, hPlace, hAgent, hGave⟩
    rcases hHome.home e hPlaced ordinal hPlace with
      ⟨start', hStart', hSame⟩
    have hSession : e.1.session = session := by
      rw [← hSame]
      rw [hStart] at hStart'
      rw [← Option.some.inj hStart']
      exact hOwn
    refine
      ⟨replace (rank session all) e,
        List.mem_map_of_mem
          (List.mem_filter.mpr
            ⟨hPlaced, decide_eq_true hSession⟩), ?_, hAgent,
        hGave⟩
    simp [replace, hPlace]

theorem given_only
    {named : Placed}
    (hHome : Home b)
    (hPrefix : starts b.placed <+: all)
    (hNamed : named ∈ b.placed)
    (hOwn : named.1.session = session)
    (pull : Pull) :
    given (b.only session all).placed
        (replace (rank session all) named) pull =
      given b.placed named pull := by
  unfold given
  simp only [replace]
  cases hTurn : named.2 with
  | none => rfl
  | some ordinal =>
      rcases hHome.home named hNamed ordinal hTurn with
        ⟨start, hStart, hSame⟩
      have hSession : start.session = session := by
        rw [hSame]
        exact hOwn
      have hBound := (List.getElem?_eq_some_iff.mp hStart).1
      have hOpener :
          opener (b.only session all).placed
              (rank session all ordinal) =
            opener b.placed ordinal := by
        unfold opener
        rw [starts_only, rank_prefix hPrefix (by omega),
          getElem?_rank hStart hSession, hStart]
      simp only [Option.map_some, hOpener,
        gave_only hHome hStart hSession hPrefix]
      rfl

/- A pull is judged alike by the session's own scans. -/
theorem judge_only
    {pull : Pull}
    (hHome : Home b)
    (hPrefix : starts b.placed <+: all)
    (hNamed :
      ∀ id, pull.scanId = some id →
        ∀ e ∈ b.placed, e.1.scanId = id →
          e.1.session = session) :
    Grouped.pull (judge (b.only session all).placed pull) =
      (Grouped.pull (judge b.placed pull)).renumber
        (rank session all) := by
  unfold judge
  cases hId : pull.scanId with
  | none => rfl
  | some id =>
      by_cases hEmpty : id = ""
      · simp only [hEmpty, if_true]
        rfl
      · simp only [hEmpty, if_false]
        rw [latest_only (hNamed id hId)]
        cases hLatest : latest b.placed id with
        | none => rfl
        | some named =>
            have hMember := mem_of_latest hLatest
            have hFound :=
              List.find?_some hLatest
            have hSame : named.1.scanId = id :=
              of_decide_eq_true hFound
            have hGiven :=
              given_only hHome hPrefix hMember
                (hNamed id hId named hMember hSame) pull
            simp only [Option.map_some, hGiven]
            rfl

/- The turns of a key, in the session's book. -/
theorem filter_only
    (b : Book)
    (session : String)
    (all : List Scan)
    (p : String × String → Bool) :
    (b.only session all).opened.filter (fun o => p o.key) =
      ((b.opened.filter (fun o => p o.key)).filter
          (fun o => o.key.1 = session)).map
        (OpenTurn.renumber (rank session all)) := by
  unfold Book.only
  simp only [List.filter_map, List.filter_filter]
  congr 1
  apply List.filter_congr
  intro o hOpen
  exact Bool.and_comm _ _

/- A turn of the session opens as one of its own. -/
theorem only_start
    {scan : Scan}
    {now : Nat}
    (hPrefix : starts b.placed <+: all)
    (hOwn : scan.session = session) :
    (({ b.only session all with
          opened :=
            (b.only session all).opened.filter
                (fun o => o.key ≠ scan.key) ++
              [(b.only session all).newTurn scan now]
          placed :=
            (b.only session all).placed ++
              [(scan,
                some
                  (starts
                    (b.only session all).placed).length)] } :
        Book),
      ((b.only session all).opened.filter
          (fun o => o.key = scan.key)).map
        (fun o => Grouped.turn o.turn)) =
        (Book.only session all
            { b with
              opened :=
                b.opened.filter (fun o => o.key ≠ scan.key) ++
                  [b.newTurn scan now]
              placed :=
                b.placed ++
                  [(scan, some (starts b.placed).length)] },
          ((b.opened.filter (fun o => o.key = scan.key)).map
            (fun o => Grouped.turn o.turn)).map
              (Grouped.renumber (rank session all))) ∧
      ∀ item ∈
          (b.opened.filter (fun o => o.key = scan.key)).map
            (fun o => Grouped.turn o.turn),
        item.session = session := by
  have hLength :=
    length_starts_only session hPrefix
  have hDone :
      ∀ o ∈ b.opened.filter (fun o => o.key = scan.key),
        o.key.1 = session := by
    intro o hOpen
    have hKey : o.key = scan.key :=
      of_decide_eq_true (List.mem_filter.mp hOpen).2
    rw [hKey]
    exact hOwn
  have hNew :
      (b.only session all).newTurn scan now =
        (b.newTurn scan now).renumber (rank session all) := by
    unfold Book.newTurn OpenTurn.renumber Turn.renumber
    simp only [hLength]
  have hNewOwn :
      [b.newTurn scan now].filter (fun o => o.key.1 = session) =
        [b.newTurn scan now] := by
    simp [OpenTurn.key, Book.newTurn, Scan.key, hOwn]
  refine ⟨?_, ?_⟩
  · have hRest :=
      filter_only b session all
        (fun key => key ≠ scan.key)
    have hSame :=
      filter_only b session all
        (fun key => key = scan.key)
    rw [List.filter_eq_self.mpr
      (fun o hOpen => decide_eq_true (hDone o hOpen))] at hSame
    rw [hRest, hSame, hNew, hLength]
    unfold Book.only
    simp only [filter_placed_own hOwn, List.filter_append,
      hNewOwn, List.map_append, List.map_map]
    rfl
  · intro item hItem
    rcases List.mem_map.mp hItem with ⟨o, hOpen, rfl⟩
    exact hDone o hOpen

/-
  A record of the session is read by the session's book,
  which has to be told only whether its agent has opened a
  turn elsewhere.
-/
theorem only_read_own
    (record : Record)
    (told : Bool)
    (hKept : Kept b out)
    (hHome : Home b)
    (hPrefix : starts b.placed <+: all)
    (hOwn : record.session = session)
    (hNamed :
      ∀ pull id, record = .pull pull →
        pull.scanId = some id →
          ∀ e ∈ b.placed, e.1.scanId = id →
            e.1.session = session)
    (hTold :
      ∀ scan, record = .scan scan →
        told =
          elsewhere session (b.placed.map Prod.fst)
            scan.agent) :
    (b.only session all).read told record =
        ((b.read false record).1.only session all,
          (b.read false record).2.map
            (Grouped.renumber (rank session all))) ∧
      ∀ item ∈ (b.read false record).2,
        item.session = session := by
  cases record with
  | pull pull =>
      refine ⟨?_, ?_⟩
      · have hJudge :=
          judge_only hHome hPrefix
            (fun id hId => hNamed pull id rfl hId)
        simp only [Book.read, List.map_cons, List.map_nil]
        rw [hJudge]
      · intro item hItem
        rw [List.mem_singleton.mp hItem]
        change (judge b.placed pull).pull.session = session
        rw [pull_judge]
        exact hOwn
  | scan scan =>
      have hScan : scan.session = session := hOwn
      rw [hTold scan rfl]
      cases hStart : scan.turnStart with
      | true =>
          rw [read_start hStart, read_start hStart]
          exact only_start hPrefix hScan
      | false =>
          have hTurn :=
            turnWith_only scan hKept hPrefix hScan
          cases hPlace : b.turnWith false scan with
          | none =>
              rw [hPlace, Option.map_none] at hTurn
              rw [read_orphan hStart hTurn,
                read_orphan hStart hPlace]
              refine ⟨?_, ?_⟩
              · unfold Book.only
                simp only [filter_placed_own hScan,
                  List.map_append]
                rfl
              · intro item hItem
                rw [List.mem_singleton.mp hItem]
                exact hScan
          | some e =>
              rw [hPlace, Option.map_some] at hTurn
              rw [read_taken hStart hTurn,
                read_taken hStart hPlace]
              refine ⟨?_, by simp⟩
              have hTake :=
                take_only b session all e scan
                  ((When.parseUtcIso scan.ts).getD 0)
              simp only [hTake]
              unfold Book.only
              simp only [filter_placed_own hScan,
                List.map_append]
              rfl

end Decisions
