import AgentWays.Chat.PaneSpec
import Mathlib.Data.List.Perm.Basic

/-
  The kept files a pane carries: those of its box and of the
  entries in its queue. What is done to a text moves its
  files with it, and a file removed was carried by nothing
  any more.

  Key definitions include:
    * `Chat.Pane.removed`
    * `Chat.Pane.carried`
    * `Chat.Pane.Fresh`

  Main declarations:
    * `Chat.Pane.files_step`
    * `Chat.Pane.kept_file_carried_or_removed`
-/

------------------------------------------------------------
-- Tallies
------------------------------------------------------------

namespace Chat

open RustText

namespace Pane

def removedBy : Event → List Path
| .settled paths => paths
| _ => []

/- The kept files removed so far. -/
def removed
    (journal : List Event) : List Path :=
  journal.flatMap removedBy

/- The kept files of the box and of the entries waiting. -/
def carried
    (p : Pane) : List Path :=
  p.boxOrigins ++ p.pending.held.flatMap Held.paths

/- How often a file is removed or carried. -/
def tally
    (p : Pane)
    (path : Path) : Nat :=
  (removed p.journal ++ p.carried).count path

theorem tally_eq
    (p : Pane)
    (path : Path) :
    p.tally path =
      (removed p.journal).count path +
        p.boxOrigins.count path +
        (p.pending.held.flatMap Held.paths).count path := by
  simp [tally, carried, List.count_append, Nat.add_assoc]

/- A pane that writes down no removal more. -/
theorem removed_append
    (journal more : List Event) :
    removed (journal ++ more) =
      removed journal ++ removed more :=
  List.flatMap_append

theorem removed_left
    (way : Way)
    (left : List Held) :
    removed (left.map (Event.left way)) = [] := by
  unfold removed
  rw [List.flatMap_map, List.flatMap_eq_nil_iff]
  exact fun h _ => rfl

/- Settling moves files to the removed, or lets them be. -/
theorem removed_settledNote
    (p : Pane)
    (paths : List Path)
    (path : Path) :
    (removed (p.settledNote paths)).count path ≤
      paths.count path := by
  unfold settledNote
  split
  · exact Nat.zero_le _
  · simp [removed, removedBy]

section Moves

variable {lower : Text → Text}
variable (p : Pane)
variable (path : Path)

theorem tally_settleBox :
    p.settleBox.tally path ≤ p.tally path := by
  have hNote := removed_settledNote p p.boxOrigins path
  unfold settleBox
  rw [settle_eq, tally_eq, tally_eq]
  simp only [noteAll, removed_append, List.count_append,
    List.count_nil]
  omega

/- An entry taken out takes its files with it. -/
theorem count_paths_split
    {front back : List Held}
    {h : Held} :
    ((front ++ h :: back).flatMap Held.paths).count path =
      h.paths.count path +
        ((front ++ back).flatMap Held.paths).count path := by
  simp only [List.flatMap_append, List.flatMap_cons,
    List.count_append]
  omega

theorem count_refuse
    (q : Pending)
    (h : Held)
    (refused : Refused) :
    ((q.refuse h refused).held.flatMap Held.paths).count
        path =
      h.paths.count path +
        (q.held.flatMap Held.paths).count path := by
  simp only [Pending.refuse]
  rw [count_paths_split, List.takeWhile_append_dropWhile]
  rfl

theorem tally_sendHeld
    (answer : Answer)
    (h : Held) :
    (p.sendHeld lower answer h).tally path ≤
      p.tally path + h.paths.count path := by
  have hNone : ∀ why, removed [Event.refused why h] = [] :=
    fun _ => rfl
  unfold sendHeld
  simp only
  split
  · cases answer with
    | taken =>
        rw [tally_eq, tally_eq]
        simp only [note, noteAll, removed_append,
          List.count_append]
        exact Nat.le_add_right _ _
    | quiet status =>
        rw [tally_eq, tally_eq]
        simp only [refuse, note, noteAll, withQueue,
          removed_append, hNone, List.append_nil, count_refuse]
        omega
    | failed status =>
        rw [tally_eq, tally_eq]
        simp only [refuse, note, noteAll, withQueue,
          removed_append, hNone, List.append_nil, count_refuse]
        omega
  · rw [tally_eq, tally_eq]
    simp only [refuse, note, noteAll, withQueue,
      removed_append, hNone, List.append_nil, count_refuse]
    omega

/- A queue less one entry, for a pane that has its files. -/
theorem tally_withQueue
    {p : Pane}
    {q : Pending}
    {front back : List Held}
    {h : Held}
    (hQ : p.pending.held = front ++ h :: back)
    (hR : q.held = front ++ back) :
    (p.withQueue q).tally path + h.paths.count path =
      p.tally path := by
  rw [tally_eq, tally_eq]
  simp only [withQueue, hQ, hR, count_paths_split]
  omega

theorem tally_sendOne
    (answers : Answers)
    (id : Nat) :
    (p.sendOne lower answers id).tally path ≤
      p.tally path := by
  unfold sendOne
  split
  · exact le_rfl
  · rename_i h q hRecall
    obtain ⟨front, back, hQ, hR, -⟩ :=
      Pending.recall_some hRecall
    rw [← tally_withQueue path hQ hR]
    exact tally_sendHeld (p.withQueue q) path _ h

theorem tally_foldl
    {α : Type}
    (f : Pane → α → Pane)
    (hStep : ∀ p a, (f p a).tally path ≤ p.tally path)
    (items : List α) :
    (items.foldl f p).tally path ≤ p.tally path := by
  induction items generalizing p with
  | nil => exact le_rfl
  | cons a rest ih => exact (ih (f p a)).trans (hStep p a)

theorem tally_sendEach
    (which : Held → Bool)
    (answers : Answers) :
    (p.sendEach lower which answers).tally path ≤
      p.tally path :=
  tally_foldl p path _
    (fun p id => tally_sendOne p path answers id) _

theorem tally_send
    (answer : Answer) :
    (p.send answer).tally path ≤ p.tally path := by
  unfold send
  cases answer with
  | taken =>
      exact tally_settleBox
        { p with sendAnyway := none, box := [] } path
  | quiet status => exact le_rfl
  | failed status => exact le_rfl

/- A hold gives an entry no file. -/
theorem count_hold
    {q r : Pending}
    {text dest label : Text}
    {tab : Tab}
    {now delay : Nat}
    {hold : Hold}
    (hHold :
      q.hold text tab dest label now delay = (r, hold)) :
    (r.held.flatMap Held.paths).count path =
      (q.held.flatMap Held.paths).count path := by
  cases hold with
  | now =>
      rw [(Pending.hold_now hHold).1]
  | held id =>
      rcases Pending.hold_held hHold with
        ⟨front, h, back, hQ, hR, -⟩ | ⟨-, -, -, hHeld⟩
      · rw [hQ, hR, count_paths_split, count_paths_split]
        rfl
      · rw [hHeld, List.flatMap_append]
        simp [Held.paths]

theorem tally_held
    {q : Pending}
    {text dest label : Text}
    {tab : Tab}
    {now delay id : Nat}
    (hHold :
      p.pending.hold text tab dest label now delay =
        (q, .held id))
    (offer : Option (Text × Tab)) :
    ({ p.withQueue q with
        sendAnyway := offer
        box := [] }.settleBox.note
      (.held id text tab dest)).tally path ≤
      p.tally path := by
  have hBox :=
    tally_settleBox
      { p.withQueue q with sendAnyway := offer, box := [] }
      path
  have hCount := count_hold path hHold
  rw [tally_eq, tally_eq] at hBox ⊢
  simp only [note, noteAll, removed_append, List.count_append,
    withQueue] at hBox ⊢
  have hNone :
      removed [Event.held id text tab dest] = [] := rfl
  rw [hNone, List.count_nil]
  omega

theorem tally_holdNow
    {q : Pending}
    {text dest label : Text}
    {tab : Tab}
    {now delay : Nat}
    (hHold :
      p.pending.hold text tab dest label now delay =
        (q, .now)) :
    (p.withQueue q).tally path = p.tally path := by
  rw [tally_eq, tally_eq]
  simp only [withQueue, count_hold path hHold]

theorem tally_holdDraft
    (fg : Tab)
    (now : Nat)
    (answers : Answers) :
    (p.holdDraft lower fg now answers).1.tally path ≤
      p.tally path := by
  unfold holdDraft
  split
  · exact le_rfl
  · simp only
    split
    · exact le_rfl
    · split
      · exact le_rfl
      · split
        · rename_i q hNow
          exact (tally_holdNow p path hNow).le
        · rename_i q id hHold
          exact (tally_sendEach _ path _ answers).trans
            (tally_held p path hHold none)

theorem tally_enter
    (now : Nat)
    (answers : Answers) :
    (p.enter lower now answers).tally path ≤
      p.tally path := by
  have hDraft :
      (p.holdDraft lower p.normalTab now answers).1.tally path ≤
        p.tally path :=
    tally_holdDraft p path p.normalTab now answers
  unfold enter
  simp only
  split
  · exact tally_send p path _
  · split
    · rename_i r hHold
      rwa [hHold] at hDraft
    · rename_i r hHold
      rw [hHold] at hDraft
      exact (tally_send r path _).trans hDraft

theorem tally_sendNow
    (now : Nat)
    (answers : Answers) :
    (p.sendNow lower now answers).tally path ≤
      p.tally path := by
  unfold sendNow
  simp only
  split
  · exact tally_send p path _
  · split
    · exact tally_sendEach { p with sendAnyway := none } path
        _ answers
    · split
      · rename_i q hHold
        refine (tally_send _ path _).trans ?_
        exact (tally_holdNow { p with sendAnyway := none }
          path hHold).le
      · rename_i q id hHold
        refine (tally_sendOne _ path answers id).trans ?_
        exact tally_held { p with sendAnyway := none } path
          hHold none

------------------------------------------------------------
-- Drafts, Recalls And Keeps
------------------------------------------------------------

theorem tally_draftBack :
    p.draftBack.tally path ≤ p.tally path := by
  unfold draftBack
  split
  · exact le_rfl
  · split
    · exact le_rfl
    · split
      · exact le_rfl
      · rename_i h q hRecall
        obtain ⟨front, back, hQ, hR, -⟩ :=
          Pending.recall_some hRecall
        rw [← tally_withQueue path hQ hR, tally_eq, tally_eq]
        have hNone : removed [Event.left .back h] = [] := rfl
        simp only [note, noteAll, withQueue, removed_append,
          hNone, List.append_nil, List.count_append]
        omega

theorem tally_setTab
    (t : Tab) :
    (p.setTab t).tally path ≤ p.tally path := by
  unfold setTab
  split
  · exact le_rfl
  · exact tally_draftBack
      { p with sendAnyway := none, foreground := t } path

theorem count_add
    (q : Pending)
    (h : Held)
    (last : Bool) :
    ((q.add h last).held.flatMap Held.paths).count path =
      (q.held.flatMap Held.paths).count path +
        h.paths.count path := by
  simp only [Pending.add, List.flatMap_append,
    List.flatMap_singleton, List.count_append]
  rfl

theorem tally_parkDraft :
    (p.parkDraft lower).tally path ≤ p.tally path := by
  unfold parkDraft
  split
  · exact le_rfl
  · rw [tally_eq, tally_eq]
    simp only [withQueue, count_add, Held.paths,
      List.count_nil]
    omega

theorem tally_recalled
    (h : Held) :
    (p.recalled lower h).tally path ≤
      p.tally path + h.paths.count path := by
  have hNote :
      (p.note (.left .recalled h)).tally path =
        p.tally path := by
    have hNone :
        removed [Event.left .recalled h] = [] := rfl
    rw [tally_eq, tally_eq]
    simp only [note, noteAll, removed_append, hNone,
      List.append_nil]
  have hShown :
      (if !h.viewUnknown ∧
            normalize h.tab p.world.names = h.tab ∧
            p.normalTab ≠ h.tab then
          ((p.note (.left .recalled h)).parkDraft
            lower).setTab h.tab
        else p.note (.left .recalled h)).tally path ≤
        p.tally path := by
    split
    · rw [← hNote]
      exact (tally_setTab _ path _).trans
        (tally_parkDraft _ path)
    · exact hNote.le
  refine le_trans ?_ (Nat.add_le_add_right hShown _)
  rw [tally_eq, tally_eq]
  simp only [recalled, List.count_append]
  exact (by omega :
    ∀ a b c d : Nat, a + (b + c) + d ≤ a + b + d + c) _ _ _ _

theorem tally_recallNewest :
    (p.recallNewest lower).tally path ≤ p.tally path := by
  unfold recallNewest
  split
  · exact le_rfl
  · rename_i h q hRecall
    obtain ⟨front, back, hQ, hR, -⟩ :=
      Pending.recallNewest_some hRecall
    rw [← tally_withQueue path hQ hR]
    exact tally_recalled (p.withQueue q) path h

theorem tally_recallEntry
    (n : Nat) :
    (p.recallEntry lower n).tally path ≤ p.tally path := by
  unfold recallEntry
  split
  · exact le_rfl
  · split
    · exact le_rfl
    · rename_i h q hRecall
      obtain ⟨front, back, hQ, hR, -⟩ :=
        Pending.recall_some hRecall
      rw [← tally_withQueue path hQ hR]
      exact tally_recalled (p.withQueue q) path h

theorem count_filter
    (held : List Held)
    (pick : Held → Bool) :
    ((held.filter pick).flatMap Held.paths).count path ≤
      (held.flatMap Held.paths).count path := by
  induction held with
  | nil => exact le_rfl
  | cons h rest ih =>
      by_cases hPick : pick h = true
      · simp only [List.filter_cons_of_pos hPick,
          List.flatMap_cons, List.count_append]
        omega
      · simp only [List.filter_cons_of_neg hPick,
          List.flatMap_cons, List.count_append]
        omega

/- A parked draft's files are those the entry carries. -/
theorem count_parkedOrigins
    (h : Held) :
    h.parkedOrigins.count path ≤ h.paths.count path := by
  unfold Held.parkedOrigins Held.paths
  cases h.source with
  | enter => exact le_rfl
  | parked origins => exact le_rfl
  | kept keptPath draft viewKnown cutShort maybeSent =>
      exact Nat.zero_le _

theorem tally_keepOne
    (written : Written)
    (id : Nat) :
    (p.keepOne written id).tally path ≤ p.tally path := by
  unfold keepOne
  split
  · exact le_rfl
  · rename_i h hFind
    split
    · obtain ⟨hId, front, back, hQ, -⟩ :=
        List.find?_eq_some_iff_append.mp hFind
      have hLeft :=
        count_filter path (front ++ back)
          (fun o => !(o.id == id))
      have hHeld :
          (p.pending.takeWhere (fun o => o.id == id)).2.held =
            (front ++ back).filter
              (fun o => !(o.id == id)) := by
        simp only [Pending.takeWhere, hQ, List.filter_append]
        rw [List.filter_cons_of_neg (by simpa using hId)]
      have hNote :=
        (removed_settledNote
          ((p.withQueue
            (p.pending.takeWhere
              (fun o => o.id == id)).2).note (.left .kept h))
          h.parkedOrigins path).trans
          (count_parkedOrigins path h)
      have hNone : removed [Event.left .kept h] = [] := rfl
      rw [settle_eq, tally_eq, tally_eq p, hQ,
        count_paths_split]
      simp only [noteAll, removed_append, List.count_append]
      simp only [note, noteAll, withQueue, hHeld,
        removed_append, hNone, List.append_nil] at hNote ⊢
      omega
    · exact le_rfl

theorem tally_keepBox
    (written : Written) :
    (p.keepBox written).tally path ≤
      p.tally path + written.box.toList.count path := by
  unfold keepBox
  split
  · rename_i text kept hDraft hBox
    have hNote := removed_settledNote p p.boxOrigins path
    rw [settle_eq, tally_eq, tally_eq p, hBox]
    simp only [noteAll, removed_append, List.count_append,
      Option.toList_some]
    omega
  · exact Nat.le_add_right _ _

theorem tally_clear :
    ({ p with boxOrigins := [] } : Pane).tally path ≤
      p.tally path := by
  rw [tally_eq, tally_eq]
  simp only [List.count_nil]
  omega

theorem tally_keep
    (which : Held → Bool)
    (written : Written) :
    (p.keep which written).tally path ≤
      p.tally path + written.box.toList.count path := by
  unfold keep
  split
  · have hFilter :=
      count_filter path p.pending.held (fun h => !which h)
    rw [tally_eq, tally_eq]
    simp only [noteAll, withQueue, removed_append,
      removed_left, List.append_nil, Pending.takeWhere]
    omega
  · have hDone := fun ids =>
      (tally_keepBox (ids.foldl (keepOne written) p) path
        written).trans
        (Nat.add_le_add_right
          (tally_foldl p path (keepOne written)
            (fun p id => tally_keepOne p path written id) ids)
          _)
    simp only
    split
    · exact (tally_clear _ path).trans (hDone _)
    · exact hDone _

theorem tally_discard :
    p.discard.tally path ≤ p.tally path := by
  have hParked :
      ∀ held : List Held,
        (held.flatMap Held.parkedOrigins).count path ≤
          (held.flatMap Held.paths).count path := by
    intro held
    induction held with
    | nil => exact le_rfl
    | cons h rest ih =>
        have hHead := count_parkedOrigins path h
        simp only [List.flatMap_cons, List.count_append]
        omega
  have hHeld := hParked p.pending.held
  unfold discard
  simp only
  rw [settle_eq]
  refine le_trans (Nat.le_of_eq (tally_eq _ path)) ?_
  simp only [noteAll, removed_append, List.count_append,
    withQueue, removed_left, List.flatMap_nil, List.count_nil]
  refine le_trans (Nat.add_le_add_right
    (Nat.add_le_add_right (Nat.add_le_add_left
      (removed_settledNote _ _ path) _) _) _) ?_
  rw [tally_eq, List.count_append]
  omega

theorem tally_addAll
    (claimed : List Claimed) :
    (claimed.foldl addClaimed p).tally path =
      p.tally path +
        (claimed.map Claimed.path).count path := by
  induction claimed generalizing p with
  | nil => rfl
  | cons c rest ih =>
      rw [List.foldl_cons, ih]
      have hAdd :
          (p.addClaimed c).tally path =
            p.tally path + [c.path].count path := by
        rw [tally_eq, tally_eq]
        simp only [addClaimed, withQueue, count_add,
          Held.paths]
        omega
      rw [hAdd, Nat.add_assoc, ← List.count_append]
      rfl

theorem tally_restore
    (claimed : List Claimed) :
    (p.restore claimed).tally path ≤
      p.tally path +
        (claimed.map Claimed.path).count path := by
  unfold restore
  simp only
  split
  · exact (tally_addAll p path claimed).le
  · rename_i c hBoxed
    rw [Option.bind_eq_some_iff] at hBoxed
    obtain ⟨i, hAt, hItem⟩ := hBoxed
    obtain ⟨hLt, hItem⟩ := List.getElem?_eq_some_iff.mp hItem
    have hPerm :=
      (List.getElem_cons_eraseIdx_perm hLt).map Claimed.path
    rw [hItem] at hPerm
    have hCount := hPerm.count_eq path
    have hSplit :
        (c.path ::
            (claimed.eraseIdx i).map Claimed.path).count path =
          [c.path].count path +
            ((claimed.eraseIdx i).map Claimed.path).count
              path := by
      rw [← List.count_append]
      rfl
    rw [← hCount, List.map_cons]
    have hTab := tally_setTab p path (c.tab.getD .merged)
    have hBox :
        (p.boxClaimed c).tally path ≤
          p.tally path + [c.path].count path := by
      refine le_trans ?_ (Nat.add_le_add_right hTab _)
      rw [tally_eq, tally_eq]
      simp only [boxClaimed, List.count_append]
      omega
    rw [tally_addAll, hAt, Option.getD_some]
    omega

end Moves

------------------------------------------------------------
-- Runs
------------------------------------------------------------

variable {lower : Text → Text}

/- A file of a name that no file here has or had. -/
def Unseen
    (p : Pane)
    (path : Path) : Prop :=
  path ∉ removed p.journal ++ p.carried

/- What an act brings in are files of their own. -/
def Fresh
    (p : Pane) : Act → Prop
| .keepRest written => ∀ path ∈ written.box, p.Unseen path
| .keepDrafts written => ∀ path ∈ written.box, p.Unseen path
| .restore claimed =>
    (claimed.map Claimed.path).Nodup ∧
      ∀ c ∈ claimed, p.Unseen c.path
| _ => True

/- The files an act brings in. -/
def brought : Act → List Path
| .keepRest written => written.box.toList
| .keepDrafts written => written.box.toList
| .restore claimed => claimed.map Claimed.path
| _ => []

theorem files_step
    (p : Pane)
    (act : Act)
    (path : Path) :
    (p.step lower act).tally path ≤
      p.tally path + (brought act).count path := by
  cases act with
  | typed text => exact le_rfl
  | world w => exact le_rfl
  | delay d => exact le_rfl
  | shown t => exact tally_setTab p path t
  | enter now answers => exact tally_enter p path now answers
  | sendNow now answers =>
      exact tally_sendNow p path now answers
  | tick now guarded answers =>
      simp only [Pane.step]
      split
      · exact le_rfl
      · exact tally_sendEach p path _ answers
  | sendAll answers => exact tally_sendEach p path _ answers
  | recallNewest => exact tally_recallNewest p path
  | recallEntry n => exact tally_recallEntry p path n
  | keepRest written => exact tally_keep p path _ written
  | keepDrafts written => exact tally_keep p path _ written
  | restore claimed => exact tally_restore p path claimed
  | discard => exact tally_discard p path

theorem count_brought
    {p : Pane}
    {act : Act}
    (hFresh : p.Fresh act)
    (path : Path) :
    (brought act).count path ≤ 1 ∧
      (path ∈ brought act → p.Unseen path) := by
  have hBox := fun (written : Written)
      (hNew : ∀ path ∈ written.box, p.Unseen path) =>
    show written.box.toList.count path ≤ 1 ∧
        (path ∈ written.box.toList → p.Unseen path) by
      refine ⟨?_, fun hMem => hNew path ?_⟩
      · cases written.box with
        | none => exact Nat.zero_le _
        | some new => exact List.count_le_length
      · exact Option.mem_toList.mp hMem
  cases act with
  | keepRest written => exact hBox written hFresh
  | keepDrafts written => exact hBox written hFresh
  | restore claimed =>
      refine ⟨List.nodup_iff_count_le_one.mp hFresh.1 path,
        fun hMem => ?_⟩
      obtain ⟨c, hC, rfl⟩ := List.mem_map.mp hMem
      exact hFresh.2 c hC
  | typed text => simp [brought]
  | world w => simp [brought]
  | delay d => simp [brought]
  | shown t => simp [brought]
  | enter now answers => simp [brought]
  | sendNow now answers => simp [brought]
  | tick now guarded answers => simp [brought]
  | sendAll answers => simp [brought]
  | recallNewest => simp [brought]
  | recallEntry n => simp [brought]
  | discard => simp [brought]

/- One of each file, after a step as before it. -/
theorem tally_le_one_step
    {p : Pane}
    {act : Act}
    (hOne : ∀ path, p.tally path ≤ 1)
    (hFresh : p.Fresh act)
    (path : Path) :
    (p.step lower act).tally path ≤ 1 := by
  have hStep :
      (p.step lower act).tally path ≤
        p.tally path + (brought act).count path :=
    files_step p act path
  obtain ⟨hLe, hNew⟩ := count_brought hFresh path
  by_cases hMem : path ∈ brought act
  · have hZero : p.tally path = 0 :=
      List.count_eq_zero.mpr (hNew hMem)
    omega
  · rw [List.count_eq_zero.mpr hMem] at hStep
    exact hStep.trans (hOne path)

/-
  In every run that brings in files of their own, a kept
  file is removed once at most, is carried in one place at
  most, and is not removed while a text still carries it.
-/
theorem kept_file_carried_or_removed
    (world : World)
    (delay : Nat)
    (dryRun : Bool)
    {acts : List Act}
    (hFresh :
      ∀ t ∈ (machine lower).trace
          (opened world delay dryRun) acts,
        t.before.Fresh t.input) :
    let p :=
      (machine lower).final (opened world delay dryRun) acts
    (removed p.journal).Nodup ∧
      (p.boxOrigins ++
        p.pending.held.flatMap Held.paths).Nodup ∧
      ∀ path ∈ removed p.journal,
        path ∉ p.boxOrigins ∧
          ∀ h ∈ p.pending.held, path ∉ h.paths := by
  intro p
  have hOne : ∀ path, p.tally path ≤ 1 :=
    StepMachine.invariant_final
      (fun p => ∀ path, p.tally path ≤ 1) Fresh
      (fun p act hOne hFresh =>
        tally_le_one_step hOne hFresh)
      hFresh (fun path => Nat.zero_le 1)
  have hNodup : (removed p.journal ++ p.carried).Nodup :=
    List.nodup_iff_count_le_one.mpr hOne
  obtain ⟨hRemoved, hCarried, hApart⟩ :=
    List.nodup_append'.mp hNodup
  refine ⟨hRemoved, hCarried, fun path hMem => ?_⟩
  have hNot := List.disjoint_left.mp hApart hMem
  refine ⟨fun hBox => hNot ?_, fun h hHeld hPath => hNot ?_⟩
  · exact List.mem_append_left _ hBox
  · exact List.mem_append_right _
      (List.mem_flatMap.mpr ⟨h, hHeld, hPath⟩)

/- A draft kept by an earlier chat, restored and sent. -/
def keptDraft : Claimed where
  path := "kept".toList
  text := "hi".toList
  tab := some .merged
  dest := "post #open".toList
  label := "#open".toList
  draft := true
  sending := false
  cutShort := false

def restoreAndSend : List Act :=
  [.restore [keptDraft], .enter 0 allTaken]

theorem restoreAndSend_fresh :
    ∀ t ∈ (machine id).trace (opened lobby 0 false)
        restoreAndSend,
      t.before.Fresh t.input := by
  intro t hMem
  simp only [restoreAndSend, StepMachine.trace_cons,
    StepMachine.trace_nil, List.mem_cons, List.not_mem_nil,
    or_false] at hMem
  rcases hMem with rfl | rfl
  · refine ⟨List.nodup_singleton _, fun c hC => ?_⟩
    simp [StepMachine.turn, Unseen, opened, removed, carried]
  · trivial

set_option maxRecDepth 4000 in
theorem restoreAndSend_removes_once :
    removed
        ((machine id).final (opened lobby 0 false)
          restoreAndSend).journal = ["kept".toList] ∧
      (removed
        ((machine id).final (opened lobby 0 false)
          restoreAndSend).journal).Nodup :=
  ⟨by decide,
    (kept_file_carried_or_removed lobby 0 false
      restoreAndSend_fresh).1⟩

end Pane

end Chat
