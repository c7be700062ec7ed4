import AgentWays.Decisions.BookSpec
import Mathlib.Data.List.Perm.Basic

/-
  The decision log is grouped without loss and judged by the
  past only.

  Each scan is placed in one turn or in none, and each turn
  handed on is the scans placed in it. A pull is judged by
  the scans before it and by their places.

  Key definitions include:
    * `Decisions.Grouping`

  Main declarations:
    * `Decisions.kept_pushAll`
    * `Decisions.grouping`
-/

------------------------------------------------------------
-- What Is Handed On
------------------------------------------------------------

namespace Decisions

def scansOf
    (records : List Record) : List Scan :=
  records.filterMap
    (fun record =>
      match record with
      | .scan scan => some scan
      | .pull _ => none)

def pullsOf
    (records : List Record) : List Pull :=
  records.filterMap
    (fun record =>
      match record with
      | .scan _ => none
      | .pull pull => some pull)

def turnsOf
    (out : List Grouped) : List Turn :=
  out.filterMap
    (fun item =>
      match item with
      | .turn turn => some turn
      | _ => none)

def orphansOf
    (out : List Grouped) : List Scan :=
  out.filterMap
    (fun item =>
      match item with
      | .orphan scan => some scan
      | _ => none)

def joinedOf
    (out : List Grouped) : List Joined :=
  out.filterMap
    (fun item =>
      match item with
      | .pull joined => some joined
      | _ => none)

/- The scans that an item hands on. -/
def Grouped.scans : Grouped → List Scan
| .turn t => t.start :: t.scans
| .orphan scan => [scan]
| .pull _ => []

/- The scans placed in a turn, or in none. -/
def placedAt
    (placed : List Placed)
    (turn : Option Nat) : List Scan :=
  (placed.filter (fun e => e.2 = turn)).map Prod.fst

/-
  A stream grouped without loss, `placed` its scans with the
  turn of each. `Named` are the ids by which a pull can name
  a scan.
-/
structure Grouping
    (Named : String → Prop)
    (records : List Record)
    (out : List Grouped)
    (placed : List Placed) : Prop where
  scans : placed.map Prod.fst = scansOf records
  ordinals :
    ((turnsOf out).map Turn.ordinal).Perm
      (List.range (starts placed).length)
  begun :
    ∀ turn ∈ turnsOf out,
      (starts placed)[turn.ordinal]? = some turn.start
  whole :
    ∀ turn ∈ turnsOf out,
      placedAt placed (some turn.ordinal) =
        turn.start :: turn.scans
  orphans : orphansOf out = placedAt placed none
  once : (out.flatMap Grouped.scans).Perm (scansOf records)
  pulls : (joinedOf out).map Joined.pull = pullsOf records
  verdict :
    ∀ earlier pull later id named,
      records = earlier ++ .pull pull :: later →
        pull.scanId = some id → Named id →
          latest (placed.take (scansOf earlier).length) id =
              some named →
            ∃ joined,
              (joinedOf out)[(pullsOf earlier).length]? =
                  some joined ∧
                (joined.join = .delivered ↔
                  given
                    (placed.take (scansOf earlier).length)
                    named pull = true)

end Decisions

------------------------------------------------------------
-- One Record
------------------------------------------------------------

namespace Decisions

variable {b b' : Book} {out out' : List Grouped}

/- What holds of the book and of what was handed on. -/
structure Kept
    (b : Book)
    (out : List Grouped) : Prop where
  keys : (b.opened.map OpenTurn.key).Nodup
  ordinals :
    ((turnsOf out ++ b.opened.map OpenTurn.turn).map
        Turn.ordinal).Perm
      (List.range (starts b.placed).length)
  begun :
    ∀ turn ∈ turnsOf out ++ b.opened.map OpenTurn.turn,
      (starts b.placed)[turn.ordinal]? = some turn.start
  whole :
    ∀ turn ∈ turnsOf out ++ b.opened.map OpenTurn.turn,
      placedAt b.placed (some turn.ordinal) =
        turn.start :: turn.scans
  orphans : orphansOf out = placedAt b.placed none
  bounded :
    ∀ e ∈ b.placed, ∀ ordinal, e.2 = some ordinal →
      ordinal < (starts b.placed).length

@[simp] theorem turnsOf_append :
    turnsOf (out ++ out') = turnsOf out ++ turnsOf out' :=
  List.filterMap_append

@[simp] theorem orphansOf_append :
    orphansOf (out ++ out') =
      orphansOf out ++ orphansOf out' :=
  List.filterMap_append

@[simp] theorem joinedOf_append :
    joinedOf (out ++ out') = joinedOf out ++ joinedOf out' :=
  List.filterMap_append

@[simp] theorem turnsOf_map_turn
    (turns : List Turn) :
    turnsOf (turns.map .turn) = turns := by
  induction turns with
  | nil => rfl
  | cons turn rest ih => simp [turnsOf]

@[simp] theorem orphansOf_map_turn
    (turns : List Turn) :
    orphansOf (turns.map .turn) = [] := by
  simp [orphansOf]

@[simp] theorem joinedOf_map_turn
    (turns : List Turn) :
    joinedOf (turns.map .turn) = [] := by
  simp [joinedOf]

theorem perm_inOrder
    (turns : List Turn) :
    (inOrder turns).Perm turns :=
  List.perm_insertionSort _ _

theorem placedAt_append
    (placed : List Placed)
    (scan : Scan)
    (turn at' : Option Nat) :
    placedAt (placed ++ [(scan, turn)]) at' =
      placedAt placed at' ++ if turn = at' then [scan] else [] := by
  unfold placedAt
  rw [List.filter_append, List.map_append]
  by_cases hSame : turn = at' <;> simp [hSame]

/- Turns handed on are as they were when they were open. -/
theorem Kept.close
    {opened : List OpenTurn}
    {time : Clock}
    (hKept : Kept b out)
    (hSub : opened.Sublist b.opened)
    (hTurns :
      (turnsOf out ++
          (turnsOf out' ++
            opened.map OpenTurn.turn)).Perm
        (turnsOf out ++ b.opened.map OpenTurn.turn))
    (hNone : orphansOf out' = []) :
    Kept { b with opened := opened, time := time }
      (out ++ out') := by
  have hPerm :
      (turnsOf (out ++ out') ++
          opened.map OpenTurn.turn).Perm
        (turnsOf out ++ b.opened.map OpenTurn.turn) := by
    simpa using hTurns
  refine
    ⟨List.Nodup.sublist (hSub.map OpenTurn.key) hKept.keys,
      (hPerm.map Turn.ordinal).trans hKept.ordinals, ?_, ?_, ?_,
      hKept.bounded⟩
  · intro turn hMember
    exact hKept.begun turn (hPerm.subset hMember)
  · intro turn hMember
    exact hKept.whole turn (hPerm.subset hMember)
  · rw [orphansOf_append, hNone, List.append_nil]
    exact hKept.orphans

theorem kept_new : Kept .new [] := by
  refine ⟨?_, ?_, ?_, ?_, rfl, ?_⟩ <;>
    simp [Book.new, turnsOf, starts]

theorem Kept.sweep
    (hKept : Kept b out)
    (ts : String) :
    Kept (b.sweep ts).1 (out ++ (b.sweep ts).2) := by
  unfold Book.sweep
  rcases b.time.sweep ts with ⟨due, time⟩
  cases due with
  | none =>
      exact hKept.close (List.Sublist.refl _) (by simp [turnsOf]) rfl
  | some now =>
      simp only [Book.closeIdle]
      apply hKept.close List.filter_sublist
      · apply List.Perm.append_left
        rw [turnsOf_map_turn]
        have hSplit :=
          List.filter_append_perm
            (fun o : OpenTurn =>
              decide (addSecs o.last idleSecs < now))
            b.opened
        have hMap := hSplit.map OpenTurn.turn
        rw [List.map_append] at hMap
        exact ((perm_inOrder _).append_right _).trans hMap
      · exact orphansOf_map_turn _

/- The turn just opened is its scan's. -/
theorem turnOf_openTurn
    (b : Book)
    (scan : Scan)
    (now : Nat) :
    (b.openTurn scan now).1.turnOf scan =
      some (b.newTurn scan now) := by
  have hNone :
      (b.opened.filter (fun o => o.key ≠ scan.key)).find?
        (fun o => o.key = scan.key) = none := by
    apply List.find?_eq_none.mpr
    intro o hMember
    simpa using (List.mem_filter.mp hMember).2
  have hNew :
      [b.newTurn scan now].find? (fun o => o.key = scan.key) =
        some (b.newTurn scan now) := by
    rw [List.find?_cons_of_pos]
    exact decide_eq_true rfl
  unfold Book.turnOf Book.openTurn
  simp only [List.find?_append, hNone, hNew, Option.none_or]

/- Taking its scan leaves the turns of other agents. -/
theorem take_openTurn
    {scan : Scan}
    (hStart : scan.turnStart = true)
    (b : Book)
    (now : Nat) :
    ((b.openTurn scan now).1.take (b.newTurn scan now) scan
        now).opened =
      b.opened.filter (fun o => o.key ≠ scan.key) ++
        [b.newTurn scan now] := by
  have hOthers :
      (b.opened.filter (fun o => o.key ≠ scan.key)).map
          (fun other =>
            if other.key = (b.newTurn scan now).key then
              other.take scan now
            else other) =
        b.opened.filter (fun o => o.key ≠ scan.key) := by
    apply (List.map_congr_left _).trans (List.map_id _)
    intro o hMember
    have hKey : o.key ≠ scan.key :=
      of_decide_eq_true (List.mem_filter.mp hMember).2
    exact if_neg hKey
  have hSelf :
      (b.newTurn scan now).take scan now =
        b.newTurn scan now := by
    simp [OpenTurn.take, Book.newTurn, hStart]
  unfold Book.take Book.openTurn
  simp only [List.map_append, hOthers, List.map_cons,
    List.map_nil, if_true, hSelf]

/- A scan that opens a turn is placed in it. -/
theorem scan_start
    {scan : Scan}
    (hStart : scan.turnStart = true)
    (b : Book) :
    b.scan scan =
      ({ b with
          opened :=
            b.opened.filter (fun o => o.key ≠ scan.key) ++
              [b.newTurn scan
                ((When.parseUtcIso scan.ts).getD
                  b.time.lastSweep)]
          placed :=
            b.placed ++
              [(scan, some (starts b.placed).length)] },
        (b.opened.filter (fun o => o.key = scan.key)).map
          (fun o => .turn o.turn)) := by
  unfold Book.scan Book.place
  generalize
    (When.parseUtcIso scan.ts).getD b.time.lastSweep = now
  have hTurn := turnOf_openTurn b scan now
  have hTake := take_openTurn hStart b now
  simp only [hStart, if_true, hTurn]
  rw [← hTake]
  simp only [List.append_nil]
  rfl

/- Another scan opens no turn. -/
theorem scan_later
    {scan : Scan}
    (hLater : scan.turnStart = false)
    (b : Book) :
    b.scan scan =
      b.place scan
        ((When.parseUtcIso scan.ts).getD b.time.lastSweep) := by
  unfold Book.scan
  simp [hLater]

theorem starts_start
    {scan : Scan}
    (hStart : scan.turnStart = true)
    (turn : Option Nat) :
    starts (b.placed ++ [(scan, turn)]) =
      starts b.placed ++ [scan] := by
  rw [starts_append, if_pos hStart]

/- A turn's scans are those before it is started: none. -/
theorem Kept.placedAt_length
    (hKept : Kept b out) :
    placedAt b.placed (some (starts b.placed).length) = [] := by
  unfold placedAt
  rw [List.map_eq_nil_iff, List.filter_eq_nil_iff]
  intro e hMember hAt
  have hBound := hKept.bounded e hMember _ (of_decide_eq_true hAt)
  omega

/- A turn is opened, and the agent's last one handed on. -/
theorem Kept.start
    {scan : Scan}
    {now : Nat}
    (hKept : Kept b out)
    (hStart : scan.turnStart = true) :
    Kept
      { b with
        opened :=
          b.opened.filter (fun o => o.key ≠ scan.key) ++
            [b.newTurn scan now]
        placed :=
          b.placed ++ [(scan, some (starts b.placed).length)] }
      (out ++
        (b.opened.filter (fun o => o.key = scan.key)).map
          (fun o => .turn o.turn)) := by
  have hStarts :=
    starts_start (b := b) hStart (some (starts b.placed).length)
  have hDone :
      turnsOf
          ((b.opened.filter (fun o => o.key = scan.key)).map
            (fun o => Grouped.turn o.turn)) =
        (b.opened.filter (fun o => o.key = scan.key)).map
          OpenTurn.turn := by
    have hMap :=
      turnsOf_map_turn
        ((b.opened.filter (fun o => o.key = scan.key)).map
          OpenTurn.turn)
    rw [List.map_map] at hMap
    exact hMap
  have hOrphans :
      orphansOf
          ((b.opened.filter (fun o => o.key = scan.key)).map
            (fun o => Grouped.turn o.turn)) = [] := by
    have hMap :=
      orphansOf_map_turn
        ((b.opened.filter (fun o => o.key = scan.key)).map
          OpenTurn.turn)
    rw [List.map_map] at hMap
    exact hMap
  have hTurns :
      (turnsOf
            (out ++
              (b.opened.filter (fun o => o.key = scan.key)).map
                (fun o => Grouped.turn o.turn)) ++
          (b.opened.filter (fun o => o.key ≠ scan.key) ++
              [b.newTurn scan now]).map OpenTurn.turn).Perm
        (turnsOf out ++ b.opened.map OpenTurn.turn ++
          [(b.newTurn scan now).turn]) := by
    have hSplit :=
      (List.filter_append_perm
        (fun o : OpenTurn => decide (o.key = scan.key))
        b.opened).map OpenTurn.turn
    rw [turnsOf_append, hDone, List.map_append, List.map_cons,
      List.map_nil]
    simp only [List.append_assoc]
    apply List.Perm.append_left
    rw [← List.append_assoc]
    apply List.Perm.append_right
    rw [List.map_append] at hSplit
    simpa using hSplit
  refine ⟨?_, ?_, ?_, ?_, ?_, ?_⟩
  · rw [List.map_append, List.nodup_append]
    refine ⟨?_, by simp, ?_⟩
    · exact
        List.Nodup.sublist
          (List.filter_sublist.map OpenTurn.key) hKept.keys
    · intro key hOld key' hNew hSame
      rcases List.mem_map.mp hOld with ⟨o, hMember, rfl⟩
      rw [List.mem_singleton.mp hNew] at hSame
      exact of_decide_eq_true (List.mem_filter.mp hMember).2 hSame
  · rw [hStarts, List.length_append, List.length_singleton,
      List.range_succ]
    refine (hTurns.map Turn.ordinal).trans ?_
    rw [List.map_append]
    exact hKept.ordinals.append_right _
  · intro turn hMember
    change (starts (b.placed ++ [_]))[turn.ordinal]? = _
    rw [hStarts]
    rcases List.mem_append.mp (hTurns.subset hMember) with
      hOld | hNew
    · have hBegun := hKept.begun turn hOld
      have hBound := (List.getElem?_eq_some_iff.mp hBegun).1
      rw [List.getElem?_append_left hBound]
      exact hBegun
    · rw [List.mem_singleton.mp hNew]
      exact List.getElem?_concat_length
  · intro turn hMember
    change placedAt (b.placed ++ [_]) _ = _
    rw [placedAt_append]
    rcases List.mem_append.mp (hTurns.subset hMember) with
      hOld | hNew
    · have hBound :=
        (List.getElem?_eq_some_iff.mp (hKept.begun turn hOld)).1
      rw [if_neg (by simp; omega), List.append_nil]
      exact hKept.whole turn hOld
    · rw [List.mem_singleton.mp hNew]
      change
        placedAt b.placed (some (starts b.placed).length) ++
          (if some (starts b.placed).length =
              some (starts b.placed).length then [scan]
            else []) = [scan]
      rw [hKept.placedAt_length, if_pos rfl, List.nil_append]
  · change orphansOf (out ++ _) = placedAt (b.placed ++ [_]) none
    rw [orphansOf_append, hOrphans, placedAt_append,
      if_neg (by simp), List.append_nil, List.append_nil]
    exact hKept.orphans
  · change
      ∀ e ∈ b.placed ++ [_], ∀ ordinal, e.2 = some ordinal →
        ordinal < (starts (b.placed ++ [_])).length
    rw [hStarts, List.length_append, List.length_singleton]
    intro e hMember ordinal hAt
    rcases List.mem_append.mp hMember with hOld | hNew
    · have hBound := hKept.bounded e hOld ordinal hAt
      omega
    · rw [List.mem_singleton.mp hNew] at hAt
      have hSame := Option.some.inj hAt
      omega

theorem starts_later
    {scan : Scan}
    (hLater : scan.turnStart = false)
    (turn : Option Nat) :
    starts (b.placed ++ [(scan, turn)]) = starts b.placed := by
  rw [starts_append, hLater]
  simp

/- A scan without a turn is handed on as it comes. -/
theorem Kept.orphan
    {scan : Scan}
    (hKept : Kept b out)
    (hLater : scan.turnStart = false) :
    Kept { b with placed := b.placed ++ [(scan, none)] }
      (out ++ [.orphan scan]) := by
  have hStarts := starts_later (b := b) hLater none
  have hTurns :
      turnsOf (out ++ [.orphan scan]) = turnsOf out := by
    simp [turnsOf]
  refine ⟨hKept.keys, ?_, ?_, ?_, ?_, ?_⟩
  · rw [hStarts, hTurns]
    exact hKept.ordinals
  · rw [hTurns]
    intro turn hMember
    change (starts (b.placed ++ [_]))[turn.ordinal]? = _
    rw [hStarts]
    exact hKept.begun turn hMember
  · rw [hTurns]
    intro turn hMember
    change placedAt (b.placed ++ [_]) _ = _
    rw [placedAt_append, if_neg (by simp), List.append_nil]
    exact hKept.whole turn hMember
  · change _ = placedAt (b.placed ++ [_]) none
    rw [placedAt_append, if_pos rfl, orphansOf_append,
      hKept.orphans]
    rfl
  · change
      ∀ e ∈ b.placed ++ [_], ∀ ordinal, e.2 = some ordinal →
        ordinal < (starts (b.placed ++ [_])).length
    rw [hStarts]
    intro e hMember ordinal hAt
    rcases List.mem_append.mp hMember with hOld | hNew
    · exact hKept.bounded e hOld ordinal hAt
    · rw [List.mem_singleton.mp hNew] at hAt
      cases hAt

/- Of two open turns only one has a place. -/
theorem Kept.ordinal_inj
    (hKept : Kept b out)
    {e o : OpenTurn}
    (hE : e ∈ b.opened)
    (hO : o ∈ b.opened)
    (hSame : e.turn.ordinal = o.turn.ordinal) :
    e.key = o.key := by
  have hBegun :
      ∀ x ∈ b.opened,
        (starts b.placed)[x.turn.ordinal]? =
          some x.turn.start := by
    intro x hMember
    exact
      hKept.begun x.turn
        (List.mem_append_right _ (List.mem_map_of_mem hMember))
  have hAtE := hBegun e hE
  rw [hSame, hBegun o hO] at hAtE
  unfold OpenTurn.key
  rw [Option.some.inj hAtE]

/- A turn handed on is none of the open ones. -/
theorem Kept.ordinal_ne
    (hKept : Kept b out)
    {turn : Turn}
    {e : OpenTurn}
    (hTurn : turn ∈ turnsOf out)
    (hE : e ∈ b.opened) :
    turn.ordinal ≠ e.turn.ordinal := by
  have hNodup :
      ((turnsOf out ++ b.opened.map OpenTurn.turn).map
        Turn.ordinal).Nodup :=
    hKept.ordinals.nodup_iff.mpr List.nodup_range
  rw [List.map_append, List.nodup_append] at hNodup
  exact
    hNodup.2.2 _ (List.mem_map_of_mem hTurn) _
      (List.mem_map_of_mem (List.mem_map_of_mem hE))

/- Taking a scan changes no key and no ordinal. -/
theorem take_fields
    (b : Book)
    (e : OpenTurn)
    (scan : Scan)
    (now : Nat) :
    (b.take e scan now).opened.map OpenTurn.key =
        b.opened.map OpenTurn.key ∧
      (b.take e scan now).opened.map
          (fun o => o.turn.ordinal) =
        b.opened.map (fun o => o.turn.ordinal) := by
  unfold Book.take
  simp only [List.map_map]
  constructor <;> apply List.map_congr_left
  · intro o hOpen
    simp only [Function.comp_apply]
    split <;> rfl
  · intro o hOpen
    simp only [Function.comp_apply]
    split <;> rfl

/- A scan is placed in an open turn. -/
theorem Kept.taken
    {scan : Scan}
    {e : OpenTurn}
    {now : Nat}
    (hKept : Kept b out)
    (hLater : scan.turnStart = false)
    (hE : e ∈ b.opened) :
    Kept
      { b.take e scan now with
        placed :=
          b.placed ++ [(scan, some e.turn.ordinal)] }
      out := by
  have hStarts :=
    starts_later (b := b) hLater (some e.turn.ordinal)
  have hOpened :
      ∀ o' ∈ (b.take e scan now).opened,
        ∃ o ∈ b.opened,
          o'.turn.ordinal = o.turn.ordinal ∧
            o'.turn.start = o.turn.start ∧
            o'.turn.scans =
              o.turn.scans ++
                if some e.turn.ordinal = some o.turn.ordinal
                then [scan] else [] := by
    intro o' hMember
    rcases List.mem_map.mp hMember with ⟨o, hO, rfl⟩
    refine ⟨o, hO, ?_⟩
    by_cases hKey : o.key = e.key
    · have hSame : e.turn.ordinal = o.turn.ordinal := by
        have hInj := List.inj_on_of_nodup_map hKept.keys
        rw [hInj hO hE hKey]
      rw [if_pos hKey, if_pos (by rw [hSame])]
      simp [OpenTurn.take, hLater]
    · have hOther : e.turn.ordinal ≠ o.turn.ordinal := by
        intro hSame
        exact hKey (hKept.ordinal_inj hO hE hSame.symm)
      rw [if_neg hKey, if_neg (by simpa using hOther)]
      simp
  have hFields := take_fields b e scan now
  refine ⟨?_, ?_, ?_, ?_, ?_, ?_⟩
  · rw [hFields.1]
    exact hKept.keys
  · rw [hStarts, List.map_append, List.map_map]
    change
      (_ ++ (b.take e scan now).opened.map
        (fun o => o.turn.ordinal)).Perm _
    rw [hFields.2]
    have hOrdinals := hKept.ordinals
    rw [List.map_append, List.map_map] at hOrdinals
    exact hOrdinals
  · intro turn hMember
    change (starts (b.placed ++ [_]))[turn.ordinal]? = _
    rw [hStarts]
    rcases List.mem_append.mp hMember with hDone | hOpen
    · exact hKept.begun turn (List.mem_append_left _ hDone)
    · rcases List.mem_map.mp hOpen with ⟨o', hO', rfl⟩
      rcases hOpened o' hO' with ⟨o, hO, hOrdinal, hStart, -⟩
      rw [hOrdinal, hStart]
      exact
        hKept.begun o.turn
          (List.mem_append_right _ (List.mem_map_of_mem hO))
  · intro turn hMember
    change placedAt (b.placed ++ [_]) _ = _
    rw [placedAt_append]
    rcases List.mem_append.mp hMember with hDone | hOpen
    · have hOther := hKept.ordinal_ne hDone hE
      rw [if_neg (by simpa using hOther.symm), List.append_nil]
      exact hKept.whole turn (List.mem_append_left _ hDone)
    · rcases List.mem_map.mp hOpen with ⟨o', hO', rfl⟩
      rcases hOpened o' hO' with
        ⟨o, hO, hOrdinal, hStart, hScans⟩
      rw [hOrdinal, hStart, hScans,
        hKept.whole o.turn
          (List.mem_append_right _ (List.mem_map_of_mem hO))]
      rfl
  · change _ = placedAt (b.placed ++ [_]) none
    rw [placedAt_append, if_neg (by simp), List.append_nil]
    exact hKept.orphans
  · change
      ∀ x ∈ b.placed ++ [_], ∀ ordinal, x.2 = some ordinal →
        ordinal < (starts (b.placed ++ [_])).length
    rw [hStarts]
    intro x hMember ordinal hAt
    rcases List.mem_append.mp hMember with hOld | hNew
    · exact hKept.bounded x hOld ordinal hAt
    · rw [List.mem_singleton.mp hNew] at hAt
      rw [← Option.some.inj hAt]
      have hBegun :=
        hKept.begun e.turn
          (List.mem_append_right _ (List.mem_map_of_mem hE))
      exact (List.getElem?_eq_some_iff.mp hBegun).1

/- A scan is placed, in the turn it opens or belongs to. -/
theorem Kept.scan
    (hKept : Kept b out)
    (scan : Scan) :
    Kept (b.scan scan).1 (out ++ (b.scan scan).2) ∧
      ∃ turn,
        (b.scan scan).1.placed = b.placed ++ [(scan, turn)] := by
  cases hStart : scan.turnStart with
  | true =>
      rw [scan_start hStart b]
      exact ⟨hKept.start hStart, _, rfl⟩
  | false =>
      rw [scan_later hStart b]
      unfold Book.place
      cases hTurn : b.turnOf scan with
      | none => exact ⟨hKept.orphan hStart, _, rfl⟩
      | some e =>
          rw [List.append_nil]
          exact
            ⟨hKept.taken hStart (mem_of_turnOf hTurn).1, _, rfl⟩

end Decisions

------------------------------------------------------------
-- Every Stream
------------------------------------------------------------

namespace Decisions

variable {b : Book} {out : List Grouped}

/- What a record does to the book, and what it hands on. -/
structure Pushed
    (b : Book)
    (records : List Record)
    (b' : Book)
    (out : List Grouped) : Prop where
  grown : b.placed <+: b'.placed
  placed :
    b'.placed.map Prod.fst =
      b.placed.map Prod.fst ++ scansOf records
  pulls : (joinedOf out).map Joined.pull = pullsOf records

theorem pull_judge
    (placed : List Placed)
    (pull : Pull) :
    (judge placed pull).pull = pull := by
  unfold judge
  split
  · rfl
  · split <;> rfl

theorem sweep_frame
    (b : Book)
    (ts : String) :
    (b.sweep ts).1.placed = b.placed ∧
      joinedOf (b.sweep ts).2 = [] := by
  unfold Book.sweep
  rcases b.time.sweep ts with ⟨due, time⟩
  cases due with
  | none => exact ⟨rfl, rfl⟩
  | some now => exact ⟨rfl, joinedOf_map_turn _⟩

theorem joinedOf_scan
    (b : Book)
    (scan : Scan) :
    joinedOf (b.scan scan).2 = [] := by
  cases hStart : scan.turnStart with
  | true =>
      rw [scan_start hStart b]
      simp [joinedOf]
  | false =>
      rw [scan_later hStart b]
      unfold Book.place
      split <;> rfl

theorem push_pull
    (b : Book)
    (pull : Pull) :
    b.push (.pull pull) =
      ((b.sweep pull.ts).1,
        (b.sweep pull.ts).2 ++
          [.pull (judge (b.sweep pull.ts).1.placed pull)]) := by
  unfold Book.push Record.ts
  simp only

/- A record keeps what holds, and hands on its pull. -/
theorem kept_push
    (hKept : Kept b out)
    (record : Record) :
    Kept (b.push record).1 (out ++ (b.push record).2) ∧
      Pushed b [record] (b.push record).1
        (b.push record).2 := by
  have hSwept := hKept.sweep record.ts
  have hFrame := sweep_frame b record.ts
  unfold Book.push
  generalize b.sweep record.ts = swept at hSwept hFrame ⊢
  rcases swept with ⟨b', closed⟩
  simp only at hSwept hFrame
  cases record with
  | scan scan =>
      have hScan := hSwept.scan scan
      have hJoined := joinedOf_scan b' scan
      simp only
      generalize b'.scan scan = read at hScan hJoined ⊢
      rcases read with ⟨b'', handed⟩
      simp only at hScan hJoined ⊢
      rcases hScan with ⟨hKept', turn, hPlaced⟩
      rw [hFrame.1] at hPlaced
      refine ⟨?_, ?_, ?_, ?_⟩
      · rw [← List.append_assoc]
        exact hKept'
      · exact ⟨_, hPlaced.symm⟩
      · simp [hPlaced, scansOf]
      · simp [hFrame.2, hJoined, pullsOf]
  | pull pull =>
      refine ⟨?_, ?_, ?_, ?_⟩
      · have hTurns :
            turnsOf [.pull (judge b'.placed pull)] = [] := rfl
        have hOrphans :
            orphansOf [.pull (judge b'.placed pull)] = [] := rfl
        simp only
        rw [← List.append_assoc]
        exact
          ⟨hSwept.keys,
            by
              rw [turnsOf_append, hTurns, List.append_nil]
              exact hSwept.ordinals,
            by
              rw [turnsOf_append, hTurns, List.append_nil]
              exact hSwept.begun,
            by
              rw [turnsOf_append, hTurns, List.append_nil]
              exact hSwept.whole,
            by
              rw [orphansOf_append, hOrphans, List.append_nil]
              exact hSwept.orphans,
            hSwept.bounded⟩
      · simp only [hFrame.1]
        exact List.prefix_refl _
      · simp [hFrame.1, scansOf]
      · simp only [joinedOf_append, hFrame.2, List.nil_append]
        simp [joinedOf, pullsOf, pull_judge]

theorem pushAll_cons
    (b : Book)
    (record : Record)
    (rest : List Record) :
    b.pushAll (record :: rest) =
      (((b.push record).1.pushAll rest).1,
        (b.push record).2 ++
          ((b.push record).1.pushAll rest).2) := rfl

theorem pushAll_append
    (b : Book)
    (first second : List Record) :
    b.pushAll (first ++ second) =
      (((b.pushAll first).1.pushAll second).1,
        (b.pushAll first).2 ++
          ((b.pushAll first).1.pushAll second).2) := by
  induction first generalizing b with
  | nil => rfl
  | cons record rest ih =>
      rw [List.cons_append, pushAll_cons, pushAll_cons, ih,
        List.append_assoc]

/- A stream keeps what holds. -/
theorem kept_pushAll
    (hKept : Kept b out)
    (records : List Record) :
    Kept (b.pushAll records).1
        (out ++ (b.pushAll records).2) ∧
      Pushed b records (b.pushAll records).1
        (b.pushAll records).2 := by
  induction records generalizing b out with
  | nil =>
      refine ⟨by simpa [Book.pushAll] using hKept, ?_, ?_, ?_⟩
      · exact List.prefix_refl _
      · simp [Book.pushAll, scansOf]
      · rfl
  | cons record rest ih =>
      have hNext := kept_push hKept record
      have hRest := ih hNext.1
      rw [pushAll_cons]
      rcases hNext with ⟨-, hGrown, hPlaced, hPulls⟩
      rcases hRest with ⟨hKept', hGrown', hPlaced', hPulls'⟩
      refine ⟨?_, hGrown.trans hGrown', ?_, ?_⟩
      · simp only
        rw [← List.append_assoc]
        exact hKept'
      · rw [hPlaced', hPlaced, List.append_assoc]
        unfold scansOf
        rw [← List.filterMap_append]
        rfl
      · rw [joinedOf_append, List.map_append, hPulls, hPulls']
        unfold pullsOf
        rw [← List.filterMap_append]
        rfl

/- A bucket of one number holds what is put in it. -/
theorem flatMap_range_ite
    {α : Type}
    (a : α)
    (k n : Nat) :
    (List.range n).flatMap
        (fun o => if some k = some o then [a] else []) =
      if k < n then [a] else [] := by
  induction n with
  | zero => rfl
  | succ n ih =>
      rw [List.range_succ, List.flatMap_append, ih]
      by_cases hLast : k = n
      · simp [hLast]
      · by_cases hBelow : k < n
        · simp [hLast, hBelow, Nat.lt_succ_of_lt hBelow]
        · have hPast : ¬ k < n + 1 := by omega
          simp [hLast, hBelow, hPast]

/- Each scan is in the bucket of its turn, or of none. -/
theorem perm_placedAt
    {placed : List Placed}
    {n : Nat}
    (hBounded :
      ∀ e ∈ placed, ∀ ordinal, e.2 = some ordinal →
        ordinal < n) :
    ((List.range n).flatMap
          (fun o => placedAt placed (some o)) ++
        placedAt placed none).Perm
      (placed.map Prod.fst) := by
  induction placed with
  | nil => simp [placedAt]
  | cons e rest ih =>
      rcases e with ⟨scan, turn⟩
      have hRest :=
        ih (fun x hMember =>
          hBounded x (List.mem_cons_of_mem _ hMember))
      have hCons :
          ∀ at' : Option Nat,
            placedAt ((scan, turn) :: rest) at' =
              (if turn = at' then [scan] else []) ++
                placedAt rest at' := by
        intro at'
        by_cases hAt : turn = at' <;> simp [placedAt, hAt]
      have hSplit :
          ((List.range n).flatMap
              (fun o =>
                placedAt ((scan, turn) :: rest) (some o))).Perm
            ((List.range n).flatMap
                (fun o =>
                  if turn = some o then [scan] else []) ++
              (List.range n).flatMap
                (fun o => placedAt rest (some o))) := by
        simp only [hCons]
        exact
          (List.flatMap_append_perm (List.range n) _ _).symm
      refine (hSplit.append_right _).trans ?_
      rw [hCons none, List.map_cons]
      cases turn with
      | none =>
          have hEmpty :
              (List.range n).flatMap
                (fun _ => ([] : List Scan)) = [] := by
            simp
          simp only [reduceCtorEq, if_false, if_true, hEmpty,
            List.nil_append]
          exact List.perm_middle.trans (hRest.cons scan)
      | some k =>
          have hBound :=
            hBounded (scan, some k) List.mem_cons_self k rfl
          rw [flatMap_range_ite, if_pos hBound, if_neg (by simp),
            List.nil_append]
          exact hRest.cons scan

/- The scans handed on are those of the turns and the orphans. -/
theorem perm_scans
    (out : List Grouped) :
    (out.flatMap Grouped.scans).Perm
      ((turnsOf out).flatMap (fun t => t.start :: t.scans) ++
        orphansOf out) := by
  induction out with
  | nil => exact List.Perm.refl _
  | cons item rest ih =>
      rw [List.flatMap_cons]
      cases item with
      | turn t =>
          have hTurns :
              turnsOf (.turn t :: rest) = t :: turnsOf rest :=
            rfl
          have hOrphans :
              orphansOf (.turn t :: rest) = orphansOf rest :=
            rfl
          rw [hTurns, hOrphans, List.flatMap_cons,
            List.append_assoc]
          exact ih.append_left _
      | orphan scan =>
          have hTurns :
              turnsOf (.orphan scan :: rest) = turnsOf rest :=
            rfl
          have hOrphans :
              orphansOf (.orphan scan :: rest) =
                scan :: orphansOf rest :=
            rfl
          rw [hTurns, hOrphans]
          exact (ih.cons scan).trans List.perm_middle.symm
      | pull joined => exact ih

/- Every scan is handed on once. -/
theorem Kept.once
    (hKept : Kept b out)
    (hDone : b.opened = []) :
    (out.flatMap Grouped.scans).Perm
      (b.placed.map Prod.fst) := by
  have hTurns :
      turnsOf out ++ b.opened.map OpenTurn.turn =
        turnsOf out := by
    simp [hDone]
  have hOrdinals := hKept.ordinals
  have hWhole := hKept.whole
  rw [hTurns] at hOrdinals hWhole
  refine (perm_scans out).trans ?_
  rw [hKept.orphans]
  refine List.Perm.trans ?_ (perm_placedAt hKept.bounded)
  apply List.Perm.append_right
  have hBuckets :
      (turnsOf out).flatMap (fun t => t.start :: t.scans) =
        ((turnsOf out).map Turn.ordinal).flatMap
          (fun o => placedAt b.placed (some o)) := by
    rw [List.flatMap_map]
    apply List.flatMap_congr
    intro turn hMember
    exact (hWhole turn hMember).symm
  rw [hBuckets]
  exact hOrdinals.flatMap_right _

/- What is held at the end is handed on with the rest. -/
theorem Kept.finish
    (hKept : Kept b out) :
    Kept { b with opened := [] } (out ++ b.finish) := by
  apply hKept.close (List.nil_sublist _)
  · apply List.Perm.append_left
    unfold Book.finish
    rw [turnsOf_map_turn, List.map_nil, List.append_nil]
    exact perm_inOrder _
  · exact orphansOf_map_turn _

/- The verdicts of a stream are those of its parts in turn. -/
theorem joinedOf_group
    (first second : List Record) :
    joinedOf (group (first ++ second)) =
      joinedOf (Book.new.pushAll first).2 ++
        joinedOf
          ((Book.new.pushAll first).1.pushAll second).2 := by
  rw [group_eq, pushAll_append]
  unfold Book.finish
  rw [joinedOf_append, joinedOf_append, joinedOf_map_turn,
    List.append_nil]

theorem length_joinedOf
    (records : List Record) :
    (joinedOf (Book.new.pushAll records).2).length =
      (pullsOf records).length := by
  have hPulls := (kept_pushAll kept_new records).2.pulls
  rw [← hPulls, List.length_map]

/- The scans before a pull are those placed when it comes. -/
theorem take_placed
    (first second : List Record) :
    (Book.new.pushAll (first ++ second)).1.placed.take
        (scansOf first).length =
      (Book.new.pushAll first).1.placed := by
  have hFirst := (kept_pushAll kept_new first)
  have hSecond := (kept_pushAll hFirst.1 second).2.grown
  have hLength :
      (Book.new.pushAll first).1.placed.length =
        (scansOf first).length := by
    have hPlaced :=
      congrArg List.length hFirst.2.placed
    simpa [Book.new] using hPlaced
  rw [pushAll_append, ← hLength]
  exact (List.prefix_iff_eq_take.mp hSecond).symm

/-
  Every stream is grouped without loss, and its verdicts do
  not depend on what comes after them.
-/
theorem grouping
    (records : List Record) :
    (∃ placed,
        Grouping (fun id => id ≠ "") records (group records)
          placed) ∧
      ∀ earlier later, records = earlier ++ later →
        ∀ other,
          (joinedOf (group (earlier ++ other))).take
              (pullsOf earlier).length =
            (joinedOf (group records)).take
              (pullsOf earlier).length := by
  refine ⟨⟨(Book.new.pushAll records).1.placed, ?_⟩, ?_⟩
  · have hAll := kept_pushAll kept_new records
    have hEnd := hAll.1.finish
    rw [List.nil_append, ← group_eq] at hEnd
    have hPlaced :
        (Book.new.pushAll records).1.placed.map Prod.fst =
          scansOf records := by
      simpa [Book.new] using hAll.2.placed
    have hPulls :
        joinedOf (group records) =
          joinedOf (Book.new.pushAll records).2 := by
      have hJoined := joinedOf_group records []
      simpa [Book.pushAll, joinedOf] using hJoined
    refine ⟨hPlaced, ?_, ?_, ?_, hEnd.orphans, ?_, ?_, ?_⟩
    · simpa using hEnd.ordinals
    · intro turn hMember
      exact hEnd.begun turn (by simpa using hMember)
    · intro turn hMember
      exact hEnd.whole turn (by simpa using hMember)
    · rw [← hPlaced]
      exact hEnd.once rfl
    · rw [hPulls]
      exact hAll.2.pulls
    · rintro earlier pull later id named rfl hId hNamed hLatest
      rw [take_placed] at hLatest ⊢
      rw [joinedOf_group, ← length_joinedOf,
        List.getElem?_append_right (Nat.le_refl _),
        Nat.sub_self, pushAll_cons]
      generalize (Book.new.pushAll earlier).1 = b
        at hLatest ⊢
      have hFrame := sweep_frame b pull.ts
      have hPush :
          joinedOf (b.push (.pull pull)).2 =
            [judge b.placed pull] := by
        rw [push_pull]
        simp only [joinedOf_append, hFrame.2, hFrame.1]
        rfl
      refine ⟨judge b.placed pull, ?_, ?_⟩
      · simp only [joinedOf_append, hPush]
        rfl
      · unfold judge
        simp only [hId, hNamed, if_false, hLatest]
        cases given b.placed named pull <;> simp
  · rintro earlier later rfl other
    rw [joinedOf_group, joinedOf_group, ← length_joinedOf,
      List.take_left, List.take_left]

/-
  A scan without an id is not indexed: a pull that names the
  empty id is unknown, though the scan fired its way.
-/
theorem not_grouping_emptyId :
    ¬ ∀ records,
      ∃ placed,
        Grouping (fun _ => True) records (group records)
          placed := by
  intro hClaim
  let scan : Scan :=
    { ts := ""
      scanId := ""
      session := "s"
      agent := "main"
      turnStart := true
      project := "/p"
      outcomes := [{ way := "d/a", result := "fired" }] }
  let pull : Pull :=
    { ts := ""
      session := "s"
      agent := "main"
      way := "d/a"
      scanId := some "" }
  rcases hClaim [.scan scan, .pull pull] with ⟨placed, hGroup⟩
  have hScans : placed.map Prod.fst = [scan] := hGroup.scans
  rcases List.map_eq_singleton_iff.mp hScans with
    ⟨named, hPlaced, hNamed⟩
  subst hPlaced
  have hOut :
      joinedOf (group [.scan scan, .pull pull]) =
        [{ pull := pull
           join := .unknown
           turn := none
           project := none }] := by
    decide
  have hLatest : latest [named] "" = some named := by
    simp [latest, hNamed, scan]
  rcases hGroup.verdict [.scan scan] pull [] "" named rfl rfl
      trivial hLatest with
    ⟨joined, hAt, hVerdict⟩
  rw [hOut] at hAt
  have hJoined : joined.join = .unknown := by
    rw [← Option.some.inj hAt]
  rw [hJoined] at hVerdict
  have hDelivers : scan.delivers "d/a" = true := by
    decide
  have hGiven : given [named] named pull = true := by
    have hSame : pull.agent = named.1.agent := by
      rw [hNamed]
    have hOwn : named.1.delivers pull.way = true := by
      rw [hNamed]
      exact hDelivers
    unfold given
    rw [if_pos hSame]
    cases hTurn : named.2 with
    | none => exact hOwn
    | some ordinal =>
        simp only
        split
        · simp [gave, hTurn, hOwn]
        · exact hOwn
  exact absurd (hVerdict.mpr hGiven) (by decide)

end Decisions
