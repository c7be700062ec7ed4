import AgentWays.Chat.Books
import AgentWays.Lib.StepMachine

/-
  The pane's books over whole runs. A message leaves the
  queue once, with the lines it was given in order, for the
  one route all of them had; what a send finds changed of a
  route is only ever that its channel is gone.

  Key definitions include:
    * `Chat.Pane.Sound`
    * `Chat.Pane.machine`

  Main declarations:
    * `Chat.Pane.sound_step`
    * `Chat.Pane.sent_by_its_lines`
    * `Chat.Pane.held_in_one_message`
-/

------------------------------------------------------------
-- Sound Panes
------------------------------------------------------------

namespace Chat

open RustText

theorem says_of_trimEnd
    {text : Text}
    (hNe : trimEnd text ≠ []) :
    Says (trimEnd text) := by
  intro hBlank
  rw [List.dropWhile_eq_nil_iff] at hBlank
  have hLast := List.rdropWhile_last_not isWhitespace text hNe
  exact hLast (hBlank _ (List.getLast_mem hNe))

/- A view that is there is named without a space. -/
theorem plain_normalize
    {names : List Text}
    (hNames : ∀ n ∈ names, ' ' ∉ n)
    (tab : Tab) :
    (normalize tab names).Plain := by
  have hOpen : ' ' ∉ baseChannel := by decide
  cases tab with
  | channel g =>
      unfold normalize
      by_cases hMem : g ∈ names
      · simp only [hMem, if_true]
        exact hNames g hMem
      · simp only [hMem, if_false]
        exact hOpen
  | merged => exact hOpen
  | dm member => exact hOpen
  | review member => exact hOpen

theorem eq_channel_of_normalize_ne
    {names : List Text}
    {tab : Tab}
    (hNe : normalize tab names ≠ tab) :
    ∃ c, tab = .channel c ∧ c ∉ names := by
  cases tab with
  | channel c =>
      refine ⟨c, rfl, fun hMem => hNe ?_⟩
      simp [normalize, hMem]
  | merged => exact absurd rfl hNe
  | dm member => exact absurd rfl hNe
  | review member => exact absurd rfl hNe

namespace Pane

variable {lower : Text → Text}
variable {p : Pane}

structure Sound
    (lower : Text → Text)
    (p : Pane) : Prop where
  books : Books lower p.pending p.journal
  names : ∀ n ∈ p.world.names, ' ' ∉ n

/- Only the queue, the journal and the world are in the books. -/
theorem Sound.congr
    {r : Pane}
    (hSound : p.Sound lower)
    (hWorld : r.world = p.world)
    (hPending : r.pending = p.pending)
    (hJournal : r.journal = p.journal) :
    r.Sound lower where
  books := by
    rw [hPending, hJournal]
    exact hSound.books
  names := by
    rw [hWorld]
    exact hSound.names

/- What a pane writes down as it settles kept files. -/
def settledNote
    (p : Pane)
    (paths : List Path) : List Event :=
  if p.dryRun then [] else [.settled paths]

theorem settle_eq
    (p : Pane)
    (paths : List Path) :
    p.settle paths = p.noteAll (p.settledNote paths) := by
  unfold Pane.settle settledNote
  split
  · simp [noteAll]
  · rfl

theorem settledNote_quiet
    (p : Pane)
    (paths : List Path) :
    ∀ e ∈ p.settledNote paths, e.quiet := by
  unfold settledNote
  intro e hMem
  split at hMem
  · cases hMem
  · rw [List.mem_singleton] at hMem
    subst hMem
    trivial

/- Settling kept files moves no message. -/
theorem Sound.settle
    (hSound : p.Sound lower)
    (paths : List Path) :
    (p.settle paths).Sound lower := by
  rw [settle_eq]
  exact ⟨hSound.books.frame rfl le_rfl
    (settledNote_quiet p paths), hSound.names⟩

theorem Sound.settleBox
    (hSound : p.Sound lower) :
    p.settleBox.Sound lower :=
  (hSound.settle p.boxOrigins).congr rfl rfl rfl

theorem normalTab_plain
    (hSound : p.Sound lower) :
    p.normalTab.Plain :=
  plain_normalize hSound.names _

------------------------------------------------------------
-- Sends
------------------------------------------------------------

/- An entry Enter held has its line in the journal. -/
theorem Sound.line_of_enter
    (hSound : p.Sound lower)
    {h : Held}
    (hMem : h ∈ p.pending.held)
    (hEnter : h.source = .enter) :
    ∃ text tab dest, .held h.id text tab dest ∈ p.journal := by
  have hTold :=
    hSound.books.told h (List.mem_append_left _ hMem) hEnter
  by_contra hNone
  simp only [not_exists] at hNone
  exact hTold.some_line (textsOf_eq_nil hNone)

theorem Sound.enter_of_line
    (hSound : p.Sound lower)
    {h : Held}
    (hMem : h ∈ p.pending.held)
    {text dest : Text}
    {tab : Tab}
    (hLine : .held h.id text tab dest ∈ p.journal) :
    h.source = .enter := by
  obtain ⟨g, hG, hId, hEnter⟩ :=
    hSound.books.noted h.id text tab dest hLine
  have hEq :=
    hSound.books.eq_of_id hG (List.mem_append_left _ hMem) hId
  rwa [hEq] at hEnter

/-
  One send: the message goes where it was held for, or is
  put back; its route is lost only with its channel.
-/
theorem Sound.sendHeld
    {q : Pending}
    {h : Held}
    {front back : List Held}
    (hSound : p.Sound lower)
    (hQ : p.pending.held = front ++ h :: back)
    (hR : q.held = front ++ back)
    (hNext : q.nextId = p.pending.nextId)
    (hEnter : h.source = .enter)
    (answer : Answer) :
    ((p.withQueue q).sendHeld lower answer h).Sound lower := by
  have hBack := hSound.books.refuse hQ hR hNext
  have hTold :=
    hSound.books.told h (by simp [entries, hQ]) hEnter
  unfold Pane.sendHeld
  simp only
  split
  · rename_i hRoute
    cases answer with
    | taken =>
        refine ⟨hSound.books.leave_one hQ hR hNext _ ?_,
          hSound.names⟩
        intro fg hWay
        cases hWay
        exact ⟨hEnter, hRoute⟩
    | quiet status =>
        refine ⟨hBack _ _ fun label => ?_, hSound.names⟩
        split
        · exact fun hEq => by cases hEq
        · exact fun hEq => by cases hEq
    | failed status =>
        refine ⟨hBack _ _ fun label => ?_, hSound.names⟩
        split
        · exact fun hEq => by cases hEq
        · exact fun hEq => by cases hEq
  · rename_i hRoute
    refine ⟨hBack _ _ fun label hEq => ?_, hSound.names⟩
    have hNe :
        normalize h.tab (p.withQueue q).world.names ≠
          h.tab := by
      intro hSame
      refine hRoute ?_
      rw [hSame]
      exact hTold.routed
    obtain ⟨c, hTab, -⟩ := eq_channel_of_normalize_ne hNe
    unfold lostRoute at hEq
    rw [hTab] at hEq hNe
    simp only at hEq
    rw [if_pos hNe] at hEq
    cases hEq

/- A send adds to the journal and takes nothing off it. -/
theorem sendHeld_journal
    (answer : Answer)
    (p : Pane)
    (h : Held) :
    p.journal <+: (p.sendHeld lower answer h).journal := by
  unfold Pane.sendHeld
  simp only
  split
  · cases answer with
    | taken => exact List.prefix_append _ _
    | quiet status => exact List.prefix_append _ _
    | failed status => exact List.prefix_append _ _
  · exact List.prefix_append _ _

theorem sendOne_journal
    (answers : Answers)
    (p : Pane)
    (id : Nat) :
    p.journal <+: (p.sendOne lower answers id).journal := by
  unfold Pane.sendOne
  split
  · exact List.prefix_rfl
  · rename_i h q _
    exact sendHeld_journal _ (p.withQueue q) h

theorem Sound.sendOne
    (hSound : p.Sound lower)
    (answers : Answers)
    {id : Nat}
    (hLine :
      ∃ text tab dest, .held id text tab dest ∈ p.journal) :
    (p.sendOne lower answers id).Sound lower := by
  unfold Pane.sendOne
  split
  · exact hSound
  · rename_i h q hRecall
    obtain ⟨front, back, hQ, hR, rfl, -, hNext⟩ :=
      Pending.recall_some hRecall
    obtain ⟨text, tab, dest, hLine⟩ := hLine
    have hMem : h ∈ p.pending.held := by simp [hQ]
    exact hSound.sendHeld hQ hR hNext
      (hSound.enter_of_line hMem hLine) _

theorem Sound.sendIds
    (answers : Answers)
    {ids : List Nat}
    (hSound : p.Sound lower)
    (hLines :
      ∀ id ∈ ids, ∃ text tab dest,
        .held id text tab dest ∈ p.journal) :
    (ids.foldl (Pane.sendOne lower answers) p).Sound
      lower := by
  induction ids generalizing p with
  | nil => exact hSound
  | cons id rest ih =>
      have hLine := hLines id (List.mem_cons_self ..)
      refine ih (hSound.sendOne answers hLine)
        (fun next hNext => ?_)
      obtain ⟨t, b, d, hOld⟩ :=
        hLines next (List.mem_cons_of_mem _ hNext)
      exact ⟨t, b, d,
        (sendOne_journal answers p id).subset hOld⟩

/- A send of entries that Enter held. -/
theorem Sound.sendEach
    (hSound : p.Sound lower)
    (which : Held → Bool)
    (answers : Answers)
    (hWhich :
      ∀ h ∈ p.pending.held, which h = true →
        h.source = .enter) :
    (p.sendEach lower which answers).Sound lower := by
  refine hSound.sendIds answers fun id hMem => ?_
  obtain ⟨h, hIn, rfl⟩ := List.mem_map.mp hMem
  obtain ⟨hHeld, hPick⟩ := List.mem_filter.mp hIn
  exact hSound.line_of_enter hHeld (hWhich h hHeld hPick)

theorem Sound.sendDue
    (hSound : p.Sound lower)
    (now : Nat)
    (answers : Answers) :
    (p.sendDue lower now answers).Sound lower := by
  refine hSound.sendEach _ answers fun h hMem hWhich => ?_
  rw [Bool.and_eq_true] at hWhich
  exact hSound.books.counted h hMem hWhich.1

theorem Sound.sendable
    (hSound : p.Sound lower)
    (answers : Answers) :
    (p.sendEach lower Held.sendable answers).Sound lower := by
  refine hSound.sendEach _ answers fun h _ hWhich => ?_
  simpa [Held.sendable] using hWhich

theorem Sound.send
    (hSound : p.Sound lower)
    (answer : Answer) :
    (p.send answer).Sound lower := by
  unfold Pane.send
  cases answer with
  | taken =>
      have hBase :
          Sound lower
            { p with sendAnyway := none, box := [] } :=
        hSound.congr rfl rfl rfl
      exact hBase.settleBox
  | quiet status => exact hSound.congr rfl rfl rfl
  | failed status => exact hSound.congr rfl rfl rfl

------------------------------------------------------------
-- Holds
------------------------------------------------------------

/- A box settled, and its line held in the queue. -/
theorem Sound.held
    {q : Pending}
    {text dest label : Text}
    {tab : Tab}
    {now delay id : Nat}
    (hSound : p.Sound lower)
    (hLower : KeepsSpace lower)
    (hPlain : tab.Plain)
    (hText : text ≠ [] ∧ text = trimEnd p.box)
    (hDest : destination lower text tab = some dest)
    (hHold :
      p.pending.hold text tab dest label now delay =
        (q, .held id))
    (offer : Option (Text × Tab)) :
    Sound lower
      ({ p.withQueue q with
          sendAnyway := offer
          box := [] }.settleBox.note
        (.held id text tab dest)) := by
  have hSays : Says text := by
    rw [hText.2]
    exact says_of_trimEnd (hText.2 ▸ hText.1)
  have hSettled :=
    hSound.books.frame rfl le_rfl
      (settledNote_quiet p p.boxOrigins)
  unfold Pane.settleBox
  rw [settle_eq]
  exact ⟨hSettled.hold hLower hPlain hSays hDest hHold,
    hSound.names⟩

/- A message nothing waits for moves nothing. -/
theorem Sound.holdNow
    {q : Pending}
    {text dest label : Text}
    {tab : Tab}
    {now delay : Nat}
    (hSound : p.Sound lower)
    (hHold :
      p.pending.hold text tab dest label now delay =
        (q, .now)) :
    (p.withQueue q).Sound lower := by
  obtain ⟨hHeld, hNext⟩ := Pending.hold_now hHold
  refine ⟨?_, hSound.names⟩
  have hQuiet : ∀ e ∈ ([] : List Event), e.quiet :=
    fun e hMem => nomatch hMem
  have hFrame := hSound.books.frame hHeld hNext.ge hQuiet
  rwa [List.append_nil] at hFrame

theorem Sound.holdDraft
    (hSound : p.Sound lower)
    (hLower : KeepsSpace lower)
    {fg : Tab}
    (hPlain : fg.Plain)
    (now : Nat)
    (answers : Answers) :
    (p.holdDraft lower fg now answers).1.Sound lower := by
  unfold Pane.holdDraft
  split
  · exact hSound
  · simp only
    split
    · exact hSound
    · rename_i hText
      simp only [Bool.or_eq_true, decide_eq_true_eq,
        not_or] at hText
      split
      · exact hSound
      · rename_i dest hDest
        split
        · rename_i q hNow
          exact hSound.holdNow hNow
        · rename_i q id hHold
          exact (hSound.held hLower hPlain ⟨hText.1, rfl⟩ hDest
            hHold none).sendDue now answers

theorem Sound.enter
    (hSound : p.Sound lower)
    (hLower : KeepsSpace lower)
    (now : Nat)
    (answers : Answers) :
    (p.enter lower now answers).Sound lower := by
  have hDraft :=
    hSound.holdDraft hLower (normalTab_plain hSound) now
      answers
  unfold Pane.enter
  simp only
  split
  · exact hSound.send _
  · split
    · rename_i r hHold
      rwa [hHold] at hDraft
    · rename_i r hHold
      rw [hHold] at hDraft
      exact hDraft.send _

theorem Sound.sendNow
    (hSound : p.Sound lower)
    (hLower : KeepsSpace lower)
    (now : Nat)
    (answers : Answers) :
    (p.sendNow lower now answers).Sound lower := by
  have hBase : Sound lower { p with sendAnyway := none } :=
    hSound.congr rfl rfl rfl
  unfold Pane.sendNow
  simp only
  split
  · exact hSound.send _
  · split
    · exact hBase.sendable answers
    · rename_i dest hDest
      rw [Option.filter_eq_some_iff] at hDest
      simp only [decide_eq_true_eq] at hDest
      split
      · rename_i q hHold
        exact (hBase.holdNow hHold).send _
      · rename_i q id hHold
        exact (hBase.held hLower (normalTab_plain hBase)
          ⟨hDest.2, rfl⟩ hDest.1 hHold none).sendOne answers
            ⟨_, _, _, List.mem_append_right _
              (List.mem_singleton_self _)⟩

------------------------------------------------------------
-- Drafts And Recalls
------------------------------------------------------------

/- An entry taken back leaves the queue. -/
theorem Sound.takeBack
    {q : Pending}
    {h : Held}
    {front back : List Held}
    (hSound : p.Sound lower)
    (hQ : p.pending.held = front ++ h :: back)
    (hR : q.held = front ++ back)
    (hNext : q.nextId = p.pending.nextId)
    (way : Way)
    (hWay : ∀ fg, way ≠ .sent fg) :
    ((p.withQueue q).note (.left way h)).Sound lower :=
  ⟨hSound.books.leave_one hQ hR hNext way
    (fun fg hEq => absurd hEq (hWay fg)), hSound.names⟩

theorem Sound.draftBack
    (hSound : p.Sound lower) :
    p.draftBack.Sound lower := by
  unfold Pane.draftBack
  split
  · exact hSound
  · split
    · exact hSound
    · split
      · exact hSound
      · rename_i h q hRecall
        obtain ⟨front, back, hQ, hR, -, -, hNext⟩ :=
          Pending.recall_some hRecall
        exact (hSound.takeBack hQ hR hNext .back
          (fun fg hEq => by cases hEq)).congr rfl rfl rfl

theorem Sound.setTab
    (hSound : p.Sound lower)
    (t : Tab) :
    (p.setTab t).Sound lower := by
  have hShown :
      Sound lower
        { p with sendAnyway := none, foreground := t } :=
    hSound.congr rfl rfl rfl
  unfold Pane.setTab
  split
  · exact hSound
  · exact hShown.draftBack

theorem Sound.parkDraft
    (hSound : p.Sound lower) :
    (p.parkDraft lower).Sound lower := by
  unfold Pane.parkDraft
  split
  · exact hSound
  · exact ⟨hSound.books.add _ false
      (fun hEq => by cases hEq), hSound.names⟩

theorem Sound.recalled
    {q : Pending}
    {h : Held}
    {front back : List Held}
    (hSound : p.Sound lower)
    (hQ : p.pending.held = front ++ h :: back)
    (hR : q.held = front ++ back)
    (hNext : q.nextId = p.pending.nextId) :
    ((p.withQueue q).recalled lower h).Sound lower := by
  have hBack :=
    hSound.takeBack hQ hR hNext .recalled
      (fun fg hEq => by cases hEq)
  unfold Pane.recalled
  simp only
  split
  · exact (hBack.parkDraft.setTab h.tab).congr rfl rfl rfl
  · exact hBack.congr rfl rfl rfl

theorem Sound.recallNewest
    (hSound : p.Sound lower) :
    (p.recallNewest lower).Sound lower := by
  unfold Pane.recallNewest
  split
  · exact hSound
  · rename_i h q hRecall
    obtain ⟨front, back, hQ, hR, hNext⟩ :=
      Pending.recallNewest_some hRecall
    exact hSound.recalled hQ hR hNext

theorem Sound.recallEntry
    (hSound : p.Sound lower)
    (n : Nat) :
    (p.recallEntry lower n).Sound lower := by
  unfold Pane.recallEntry
  split
  · exact hSound
  · split
    · exact hSound
    · rename_i h q hRecall
      obtain ⟨front, back, hQ, hR, -, -, hNext⟩ :=
        Pending.recall_some hRecall
      exact hSound.recalled hQ hR hNext

------------------------------------------------------------
-- Keeping And Restoring
------------------------------------------------------------

/- Of the entries of one number a filter takes the one. -/
theorem Sound.filter_id
    (hSound : p.Sound lower)
    {front back : List Held}
    {h : Held}
    (hQ : p.pending.held = front ++ h :: back) :
    (p.pending.takeWhere (fun o => o.id == h.id)).2.held =
      front ++ back := by
  have hOrder := hSound.books.ordered
  rw [hQ, List.pairwise_append, List.pairwise_cons] at hOrder
  have hFront : ∀ o ∈ front, (!(o.id == h.id)) = true := by
    intro o hMem
    have hLt := hOrder.2.2 o hMem h (List.mem_cons_self ..)
    simp [hLt.ne]
  have hBack : ∀ o ∈ back, (!(o.id == h.id)) = true := by
    intro o hMem
    have hLt := hOrder.2.1.1 o hMem
    simp [hLt.ne']
  simp only [Pending.takeWhere, hQ, List.filter_append]
  rw [List.filter_eq_self.mpr hFront,
    List.filter_cons_of_neg (by simp),
    List.filter_eq_self.mpr hBack]

theorem Sound.keepOne
    (hSound : p.Sound lower)
    (written : Written)
    (id : Nat) :
    (p.keepOne written id).Sound lower := by
  unfold Pane.keepOne
  split
  · exact hSound
  · rename_i h hFind
    split
    · obtain ⟨hId, front, back, hQ, -⟩ :=
        List.find?_eq_some_iff_append.mp hFind
      simp only [beq_iff_eq] at hId
      subst hId
      exact (hSound.takeBack hQ (hSound.filter_id hQ) rfl
        .kept (fun fg hEq => by cases hEq)).settle _
    · exact hSound

theorem Sound.keepBox
    (hSound : p.Sound lower)
    (written : Written) :
    (p.keepBox written).Sound lower := by
  unfold Pane.keepBox
  split
  · exact (hSound.settle p.boxOrigins).congr rfl rfl rfl
  · exact hSound

theorem Sound.keepAll
    (hSound : p.Sound lower)
    (written : Written)
    (ids : List Nat) :
    (ids.foldl (Pane.keepOne written) p).Sound lower := by
  induction ids generalizing p with
  | nil => exact hSound
  | cons id rest ih => exact ih (hSound.keepOne written id)

theorem Sound.keep
    (hSound : p.Sound lower)
    (which : Held → Bool)
    (written : Written) :
    (p.keep which written).Sound lower := by
  unfold Pane.keep
  split
  · refine ⟨hSound.books.leave _ .kept rfl
      List.filter_sublist ?_ (fun h _ fg hEq => by cases hEq),
      hSound.names⟩
    exact (List.filter_append_perm which _).symm.trans
      List.perm_append_comm
  · have hDone := fun ids =>
      (hSound.keepAll written ids).keepBox written
    simp only
    split
    · exact (hDone _).congr rfl rfl rfl
    · exact hDone _

theorem Sound.discard
    (hSound : p.Sound lower) :
    p.discard.Sound lower := by
  have hLeft :
      Sound lower
        ((p.withQueue { p.pending with held := [] }).noteAll
          (p.pending.held.map (Event.left .discarded))) :=
    ⟨hSound.books.leave _ .discarded rfl
      (List.nil_sublist _) (List.Perm.refl _)
      (fun h _ fg hEq => by cases hEq), hSound.names⟩
  unfold Pane.discard
  refine Sound.settle ?_ _
  exact hLeft.congr rfl rfl rfl

theorem Sound.addAll
    {claimed : List Claimed}
    (hSound : p.Sound lower) :
    (claimed.foldl addClaimed p).Sound lower := by
  induction claimed generalizing p with
  | nil => exact hSound
  | cons c rest ih =>
      exact ih ⟨hSound.books.add _ true
        (fun hEq => by cases hEq), hSound.names⟩

theorem Sound.restore
    (hSound : p.Sound lower)
    (claimed : List Claimed) :
    (p.restore claimed).Sound lower := by
  unfold Pane.restore
  simp only
  split
  · exact hSound.addAll
  · rename_i c _
    have hBoxed : (p.boxClaimed c).Sound lower :=
      (hSound.setTab _).congr rfl rfl rfl
    exact hBoxed.addAll

------------------------------------------------------------
-- Runs
------------------------------------------------------------

/- Channels are named without a space. -/
def Plain : Act → Prop
| .world w => ∀ n ∈ w.names, ' ' ∉ n
| _ => True

theorem sound_step
    (hSound : p.Sound lower)
    (hLower : KeepsSpace lower)
    (act : Act)
    (hAct : Plain act) :
    (p.step lower act).Sound lower := by
  cases act with
  | typed text => exact hSound.congr rfl rfl rfl
  | world w => exact ⟨hSound.books, hAct⟩
  | delay d => exact hSound.congr rfl rfl rfl
  | shown t => exact hSound.setTab t
  | enter now answers => exact hSound.enter hLower now answers
  | sendNow now answers =>
      exact hSound.sendNow hLower now answers
  | tick now guarded answers =>
      simp only [Pane.step]
      split
      · exact hSound
      · exact hSound.sendDue now answers
  | sendAll answers => exact hSound.sendable answers
  | recallNewest => exact hSound.recallNewest
  | recallEntry n => exact hSound.recallEntry n
  | keepRest written => exact hSound.keep _ written
  | keepDrafts written => exact hSound.keep _ written
  | restore claimed => exact hSound.restore claimed
  | discard => exact hSound.discard

/- The pane as the chat opens it. -/
def opened
    (world : World)
    (delay : Nat)
    (dryRun : Bool) : Pane :=
  { world := world
    foreground := .merged
    box := []
    boxOrigins := []
    sendAnyway := none
    pending := { held := [], nextId := 0, writes := 0 }
    delay := delay
    dryRun := dryRun
    journal := [] }

def machine
    (lower : Text → Text) : StepMachine Pane Act Unit where
  step := fun p act => (p.step lower act, ())

theorem sound_final
    (hLower : KeepsSpace lower)
    {world : World}
    (hNames : ∀ n ∈ world.names, ' ' ∉ n)
    (delay : Nat)
    (dryRun : Bool)
    {acts : List Act}
    (hActs : ∀ act ∈ acts, Plain act) :
    ((machine lower).final (opened world delay dryRun)
      acts).Sound lower := by
  refine StepMachine.invariant_final (Sound lower)
    (fun _ act => Plain act)
    (fun p act hSound hAct =>
      sound_step hSound hLower act hAct)
    (fun t hMem => ?_) ⟨Books.init lower, hNames⟩
  exact hActs _ (StepMachine.input_mem_of_mem_trace hMem)

/-
  In every run, what is sent is the lines Enter held for it,
  in order, and it goes where each of them went when it was
  written. No route changes but by its channel going.
-/
theorem sent_by_its_lines
    (hLower : KeepsSpace lower)
    {world : World}
    (hNames : ∀ n ∈ world.names, ' ' ∉ n)
    (delay : Nat)
    (dryRun : Bool)
    {acts : List Act}
    (hActs : ∀ act ∈ acts, Plain act) :
    let journal :=
      ((machine lower).final (opened world delay dryRun)
        acts).journal
    (∀ fg h, .left (.sent fg) h ∈ journal →
      textsOf h.id journal ≠ [] ∧
        h.text =
          ['\n'].intercalate (textsOf h.id journal) ∧
        destination lower h.text fg = some h.dest ∧
        ∀ text tab dest, .held h.id text tab dest ∈ journal →
          destination lower text tab = some h.dest) ∧
      ∀ label h, .refused (.elsewhere label) h ∉ journal := by
  intro journal
  have hSound := sound_final hLower hNames delay dryRun hActs
  refine ⟨fun fg h hMem => ?_, hSound.books.found⟩
  obtain ⟨hEnter, hRoute⟩ := hSound.books.went fg h hMem
  have hTold :=
    hSound.books.told h
      (List.mem_append_right _
        (List.mem_filterMap.mpr ⟨_, hMem, rfl⟩)) hEnter
  refine ⟨hTold.some_line, hTold.lines, hRoute,
    fun text tab dest hLine => ?_⟩
  obtain ⟨hSame, hDest⟩ := hTold.same text tab dest hLine
  rw [← hSame]
  exact hDest

/- A chat with two channels, whose sends all go. -/
def lobby : World where
  names := [baseChannel, "deploy".toList]
  flagLabel := fun _ _ => none

def allTaken : Answers where
  held := fun _ => .taken
  box := .taken

/- Two lines of one route, and then the countdown's end. -/
def twoLines : List Act :=
  [.typed "hi".toList, .enter 0 allTaken,
    .typed "again".toList, .enter 1 allTaken,
    .tick 9 false allTaken]

theorem keepsSpace_id : KeepsSpace id :=
  fun _ hNone => hNone

theorem lobby_names : ∀ n ∈ lobby.names, ' ' ∉ n := by
  decide

theorem twoLines_plain : ∀ act ∈ twoLines, Plain act := by
  simp [twoLines, Plain]

def afterTwoLines : Pane :=
  (machine id).final (opened lobby 5 false) twoLines

set_option maxRecDepth 4000 in
theorem twoLines_sent :
    (gone afterTwoLines.journal).map Held.text =
        ["hi\nagain".toList] ∧
      ∀ fg h, .left (.sent fg) h ∈ afterTwoLines.journal →
        h.text =
          ['\n'].intercalate
            (textsOf h.id afterTwoLines.journal) :=
  ⟨by decide, fun fg h hMem =>
    ((sent_by_its_lines keepsSpace_id lobby_names 5 false
      twoLines_plain).1 fg h hMem).2.1⟩

/-
  In every run each line Enter held is in one message, still
  waiting or gone once, that says the lines it was given in
  order; and of the messages counting down no two share a
  route.
-/
theorem held_in_one_message
    (hLower : KeepsSpace lower)
    {world : World}
    (hNames : ∀ n ∈ world.names, ' ' ∉ n)
    (delay : Nat)
    (dryRun : Bool)
    {acts : List Act}
    (hActs : ∀ act ∈ acts, Plain act) :
    let p :=
      (machine lower).final (opened world delay dryRun) acts
    ((p.pending.held ++ gone p.journal).map Held.id).Nodup ∧
      (∀ id text tab dest,
        .held id text tab dest ∈ p.journal →
          ∃ h ∈ p.pending.held ++ gone p.journal,
            h.id = id ∧
              h.text =
                ['\n'].intercalate (textsOf id p.journal)) ∧
      p.pending.held.Pairwise (fun a b =>
        a.refused = none → b.refused = none →
          a.dest ≠ b.dest) := by
  intro p
  have hSound := sound_final hLower hNames delay dryRun hActs
  refine ⟨hSound.books.once,
    fun id text tab dest hLine => ?_, ?_⟩
  · obtain ⟨h, hMem, rfl, hEnter⟩ :=
      hSound.books.noted id text tab dest hLine
    exact ⟨h, hMem, rfl,
      (hSound.books.told h hMem hEnter).lines⟩
  · refine hSound.books.apart.imp fun hApart hA hB => ?_
    exact hApart (by simp [Held.counting, hA])
      (by simp [Held.counting, hB])

set_option maxRecDepth 4000 in
theorem twoLines_in_one :
    textsOf 1 afterTwoLines.journal =
        ["hi".toList, "again".toList] ∧
      ((afterTwoLines.pending.held ++
        gone afterTwoLines.journal).map Held.id).Nodup :=
  ⟨by decide,
    (held_in_one_message keepsSpace_id lobby_names 5 false
      twoLines_plain).1⟩

end Pane

end Chat
