import AgentWays.Lib.Serial
import AgentWays.Writer.LockFile

/-
  The settings lock excludes, and no edit is lost.

  Two calls never have one inode locked, and a call holds
  the lock only by the inode that the name has. The name
  leaves an inode only by the hand of its holder.

  Key definitions include:
    * `Writer.Step`
    * `Writer.Own`

  Main declarations:
    * `Writer.sound_of_mem_trace`
    * `Writer.excludes`
-/

------------------------------------------------------------
-- Steps
------------------------------------------------------------

namespace Writer

variable {Doc Value Error T : Type} [DecidableEq Value]

/- What a call's step does, by what it changes on the disk. -/
inductive Step
    (ops : DocOps Doc Value Error)
    (disk : Disk)
    (edit : Option (Edit Doc Error T)) :
    Place Error T → Disk → Place Error T → Prop
| plain (place place' : Place Error T) :
    (∀ inode, place'.osLock = some inode →
      place.osLock = some inode) →
    (∀ inode, place'.holds = some inode →
      place.holds = some inode) →
    (∀ inode text, place' ≠ .read inode text) →
    (∀ inode out text, place' ≠ .staged inode out text) →
    ((place'.outcome.any Outcome.edited) =
      (place.outcome.any Outcome.edited)) →
      Step ops disk edit place disk place'
| create :
    disk.name = none →
      Step ops disk edit .opening
        { disk with
          name := some disk.inodes
          inodes := disk.inodes + 1 }
        (.opened disk.inodes)
| lock (inode : Nat) :
    inode ∉ disk.locked →
      Step ops disk edit (.opened inode)
        { disk with locked := inode :: disk.locked }
        (.locked inode)
| confirm (inode : Nat) :
    disk.name = some inode →
      Step ops disk edit (.locked inode) disk (.held inode)
| read (inode : Nat) :
    edit.isSome →
      Step ops disk edit (.held inode) disk
        (.read inode disk.text)
| keep (inode : Nat) (text : String) (e : Edit Doc Error T)
    (out : T) :
    edit = some e → e.revise ops text = .ok (out, none) →
      Step ops disk edit (.read inode text) disk
        (.leaving inode (.unchanged out))
| stage (inode : Nat) (text new : String)
    (e : Edit Doc Error T) (out : T) :
    edit = some e → e.revise ops text = .ok (out, some new) →
      Step ops disk edit (.read inode text) disk
        (.staged inode out new)
| publish (inode : Nat) (out : T) (text : String) :
    Step ops disk edit (.staged inode out text)
      { disk with file := some text }
      (.leaving inode (.wrote out))
| unlink (inode : Nat) (outcome : Outcome Error T) :
    Step ops disk edit (.leaving inode outcome)
      { disk with name := none } (.unlinked inode outcome)
| close (place place' : Place Error T) (inode : Nat) :
    place.osLock = some inode → place'.osLock = none →
    place'.outcome = place.outcome →
      Step ops disk edit place (disk.close inode) place'

variable {ops : DocOps Doc Value Error} {disk disk' : Disk}
variable {call call' : Call Doc Error T} {e : Choice}
variable {place place' : Place Error T}

theorem step_of_takeStep
    {take : Take}
    (hStep : takeStep disk take e place = some (disk', place')) :
    Step ops disk call.edit place disk' place' := by
  cases place with
  | opening =>
      unfold takeStep at hStep
      simp only at hStep
      split at hStep
      · cases hStep
        apply Step.plain <;> simp [Place.osLock, Place.holds,
          Place.outcome, Outcome.edited]
      · split at hStep
        · cases hStep
          apply Step.plain <;> simp [Place.osLock, Place.holds,
            Place.outcome]
        · rename_i hNone
          cases hStep
          exact .create hNone
  | opened inode =>
      unfold takeStep at hStep
      simp only at hStep
      split at hStep
      · cases hStep
        apply Step.plain <;> simp [Place.osLock, Place.holds,
          Place.outcome, Outcome.edited]
      · split at hStep
        · split at hStep
          · cases hStep
          · split at hStep
            · cases hStep
              apply Step.plain <;> simp [Place.osLock,
                Place.holds, Place.outcome]
            · cases hStep
              apply Step.plain <;> simp [Place.osLock,
                Place.holds, Place.outcome, Outcome.edited]
        · rename_i hFree
          cases hStep
          exact .lock inode hFree
  | locked inode =>
      unfold takeStep at hStep
      simp only at hStep
      split at hStep
      · rename_i hSame
        cases hStep
        exact .confirm inode hSame.2
      · cases hStep
        apply Step.plain <;> simp [Place.osLock, Place.holds,
          Place.outcome]
  | stale inode =>
      cases hStep
      exact .close _ _ inode rfl rfl rfl
  | _ => cases hStep

theorem step_of_holdStep
    (hStep :
      holdStep ops disk call.edit e place =
        some (disk', place')) :
    Step ops disk call.edit place disk' place' := by
  cases place with
  | held inode =>
      unfold holdStep at hStep
      simp only at hStep
      split at hStep
      · cases hStep
        apply Step.plain <;> simp [Place.osLock, Place.holds,
          Place.outcome, Outcome.edited]
      · rename_i edit hEdit
        split at hStep
        · cases hStep
          apply Step.plain <;> simp [Place.osLock, Place.holds,
            Place.outcome, Outcome.edited]
        · cases hStep
          exact .read inode (by rw [hEdit]; rfl)
  | read inode text =>
      unfold holdStep at hStep
      simp only at hStep
      split at hStep
      · cases hStep
      · rename_i edit hEdit
        split at hStep
        · cases hStep
          apply Step.plain <;> simp [Place.osLock, Place.holds,
            Place.outcome, Outcome.edited]
        · rename_i out hRevise
          cases hStep
          exact .keep inode text edit out hEdit hRevise
        · rename_i out new hRevise
          cases hStep
          exact .stage inode text new edit out hEdit hRevise
  | staged inode out text =>
      unfold holdStep at hStep
      simp only at hStep
      split at hStep
      · cases hStep
        apply Step.plain <;> simp [Place.osLock, Place.holds,
          Place.outcome, Outcome.edited]
      · cases hStep
        exact .publish inode out text
  | _ => cases hStep

theorem step_of_leaveStep
    {take : Take}
    (hStep :
      leaveStep disk take e place = some (disk', place')) :
    Step ops disk call.edit place disk' place' := by
  cases place with
  | leaving inode outcome =>
      unfold leaveStep at hStep
      simp only at hStep
      split at hStep
      · cases hStep
        exact .close _ _ inode rfl rfl rfl
      · split at hStep
        · cases hStep
          apply Step.plain <;> simp [Place.osLock, Place.holds,
            Place.outcome]
        · cases hStep
          exact .unlink inode outcome
  | unlinked inode outcome =>
      cases hStep
      exact .close _ _ inode rfl rfl rfl
  | _ => cases hStep

/- A call dies, and lets go of what it has locked. -/
theorem step_of_lose
    (edit : Option (Edit Doc Error T))
    (place : Place Error T) :
    Step ops disk edit place (disk.lose place)
      (.died place.outcome) := by
  unfold Disk.lose
  cases hLock : place.osLock with
  | some inode => exact .close _ _ inode hLock rfl rfl
  | none => exact .plain _ _ nofun nofun nofun nofun rfl

theorem step_of_act
    (hAct : act ops disk call e = some (disk', call')) :
    Step ops disk call.edit call.place disk' call'.place ∧
      call'.edit = call.edit := by
  unfold act at hAct
  split at hAct
  · split at hAct
    · cases hAct
    · cases hAct
    · cases hAct
      exact ⟨step_of_lose call.edit call.place, rfl⟩
  · rcases Option.map_eq_some_iff.mp hAct with
      ⟨⟨next, place⟩, hPlace, hSame⟩
    cases hSame
    refine ⟨?_, rfl⟩
    unfold placeStep at hPlace
    split at hPlace
    · exact step_of_takeStep hPlace
    · exact step_of_takeStep hPlace
    · exact step_of_takeStep hPlace
    · exact step_of_takeStep hPlace
    · exact step_of_holdStep hPlace
    · exact step_of_holdStep hPlace
    · exact step_of_holdStep hPlace
    · exact step_of_leaveStep hPlace
    · exact step_of_leaveStep hPlace
    · cases hPlace
    · cases hPlace

end Writer

------------------------------------------------------------
-- What Each Call Relies On
------------------------------------------------------------

namespace Writer

variable {Doc Value Error T : Type} [DecidableEq Value]
variable {ops : DocOps Doc Value Error} {disk disk' : Disk}
variable {call call' d : Call Doc Error T}
variable {place : Place Error T}

/- What holds the lock has an inode locked. -/
theorem osLock_of_holds
    {inode : Nat}
    (hHolds : place.holds = some inode) :
    place.osLock = some inode := by
  cases place <;>
    first
    | exact hHolds
    | cases hHolds

/-
  What a call relies on: its inode is locked, the name is
  its inode's while it holds the lock, and what it has read
  is still the target's text.
-/
structure Own
    (ops : DocOps Doc Value Error)
    (disk : Disk)
    (call : Call Doc Error T) : Prop where
  lock :
    ∀ inode, call.place.osLock = some inode →
      inode ∈ disk.locked
  named :
    ∀ inode, call.place.holds = some inode →
      disk.name = some inode
  current :
    ∀ inode text, call.place = .read inode text →
      disk.text = text
  revised :
    ∀ inode out text, call.place = .staged inode out text →
      ∃ edit, call.edit = some edit ∧
        edit.revise ops disk.text = .ok (out, some text)

/- Two calls have no inode locked at once. -/
def Apart
    (call d : Call Doc Error T) : Prop :=
  ∀ inode, call.place.osLock = some inode →
    d.place.osLock = some inode → False

theorem Apart.symm
    (hApart : Apart call d) :
    Apart d call :=
  fun inode hD hCall => hApart inode hCall hD

/- At most one call holds the lock. -/
theorem Own.alone
    (hOwn : Own ops disk call)
    (hOwnD : Own ops disk d)
    (hApart : Apart call d)
    {inode inode' : Nat}
    (hHolds : call.place.holds = some inode)
    (hHolds' : d.place.holds = some inode') :
    False := by
  have hName := hOwn.named inode hHolds
  rw [hOwnD.named inode' hHolds'] at hName
  rw [Option.some.inj hName] at hHolds'
  exact
    hApart inode (osLock_of_holds hHolds)
      (osLock_of_holds hHolds')

/-
  A step that another call does not notice: it keeps what is
  locked, and to a holder of the lock the name and the text.
-/
structure Calm
    (disk disk' : Disk)
    (d : Call Doc Error T) : Prop where
  lock :
    ∀ inode, d.place.osLock = some inode →
      inode ∈ disk.locked → inode ∈ disk'.locked
  held :
    ∀ inode, d.place.holds = some inode →
      disk'.name = disk.name ∧ disk'.file = disk.file

theorem Own.calm
    (hOwn : Own ops disk d)
    (hCalm : Calm disk disk' d) :
    Own ops disk' d := by
  refine ⟨?_, ?_, ?_, ?_⟩
  · intro inode hLock
    exact hCalm.lock inode hLock (hOwn.lock inode hLock)
  · intro inode hHolds
    rw [(hCalm.held inode hHolds).1]
    exact hOwn.named inode hHolds
  · intro inode text hRead
    have hSame := (hCalm.held inode (by rw [hRead]; rfl)).2
    unfold Disk.text
    rw [hSame]
    exact hOwn.current inode text hRead
  · intro inode out text hStaged
    have hSame := (hCalm.held inode (by rw [hStaged]; rfl)).2
    unfold Disk.text
    rw [hSame]
    exact hOwn.revised inode out text hStaged

/- A step of one call is not noticed by another. -/
theorem calm_of_step
    (hOwn : Own ops disk call)
    (hOwnD : Own ops disk d)
    (hApart : Apart call d)
    (hStep :
      Step ops disk call.edit call.place disk' place) :
    Calm disk disk' d := by
  have hNotHeld :
      ∀ inode, call.place.holds = some inode →
        ∀ inode', d.place.holds = some inode' → False :=
    fun inode hHolds inode' =>
      hOwn.alone hOwnD hApart hHolds
  generalize hPlace : call.place = before at hStep
  cases hStep with
  | plain | confirm | read | keep | stage =>
      exact ⟨fun _ _ hMember => hMember, fun _ _ => ⟨rfl, rfl⟩⟩
  | create hNone =>
      refine ⟨fun _ _ hMember => hMember, ?_⟩
      intro inode hHolds
      rw [hOwnD.named inode hHolds] at hNone
      cases hNone
  | lock inode hFree =>
      exact
        ⟨fun _ _ hMember => List.mem_cons_of_mem _ hMember,
          fun _ _ => ⟨rfl, rfl⟩⟩
  | publish inode out text =>
      refine ⟨fun _ _ hMember => hMember, ?_⟩
      intro inode' hHolds
      exact
        (hNotHeld inode (by rw [hPlace]; rfl) inode'
          hHolds).elim
  | unlink inode outcome =>
      refine ⟨fun _ _ hMember => hMember, ?_⟩
      intro inode' hHolds
      exact
        (hNotHeld inode (by rw [hPlace]; rfl) inode'
          hHolds).elim
  | close _ _ inode hLock =>
      refine ⟨?_, fun _ _ => ⟨rfl, rfl⟩⟩
      intro inode' hLock' hMember
      apply (List.mem_erase_of_ne _).mpr hMember
      rintro rfl
      rw [← hPlace] at hLock
      exact hApart inode' hLock hLock'

/- A call's step leaves it apart from the others. -/
theorem apart_of_step
    (hOwnD : Own ops disk d)
    (hApart : Apart call d)
    (hStep :
      Step ops disk call.edit call.place disk' call'.place) :
    Apart call' d := by
  intro inode hLock hLockD
  generalize hPlace : call.place = before at hStep
  generalize hPlace' : call'.place = after at hStep hLock
  have hOld :
      ∀ inode', before.osLock = some inode' →
        d.place.osLock = some inode' → False := by
    rw [← hPlace]
    exact hApart
  cases hStep with
  | plain _ _ hKept => exact hOld inode (hKept inode hLock) hLockD
  | create => cases hLock
  | lock inode' hFree =>
      cases hLock
      exact hFree (hOwnD.lock inode hLockD)
  | confirm | read | keep | stage | publish | unlink =>
      exact hOld inode hLock hLockD
  | close _ _ inode' _ hNone =>
      rw [hNone] at hLock
      cases hLock

/- A call's step keeps to what the call relies on. -/
theorem own_of_step
    (hOwn : Own ops disk call)
    (hEdit : call'.edit = call.edit)
    (hStep :
      Step ops disk call.edit call.place disk' call'.place) :
    Own ops disk' call' := by
  rcases call with ⟨take, edit, before⟩
  rcases call' with ⟨take', edit', after⟩
  simp only at hEdit hStep
  subst hEdit
  cases hStep with
  | plain _ _ hKept hHeld hRead hStaged =>
      refine ⟨?_, ?_, ?_, ?_⟩
      · intro inode hLock
        exact hOwn.lock inode (hKept inode hLock)
      · intro inode hHolds
        exact hOwn.named inode (hHeld inode hHolds)
      · intro inode text hSame
        exact absurd hSame (hRead inode text)
      · intro inode out text hSame
        exact absurd hSame (hStaged inode out text)
  | create => exact ⟨nofun, nofun, nofun, nofun⟩
  | lock inode hFree =>
      refine ⟨?_, nofun, nofun, nofun⟩
      intro inode' hLock
      cases hLock
      exact List.mem_cons_self
  | confirm inode hName =>
      refine ⟨fun inode' => hOwn.lock inode', ?_, nofun, nofun⟩
      intro inode' hHolds
      cases hHolds
      exact hName
  | read inode hSome =>
      refine
        ⟨fun inode' => hOwn.lock inode',
          fun inode' => hOwn.named inode', ?_, nofun⟩
      intro inode' text hSame
      cases hSame
      rfl
  | keep inode text edit out =>
      exact
        ⟨fun inode' => hOwn.lock inode',
          fun inode' => hOwn.named inode', nofun, nofun⟩
  | stage inode text new edit out hSome hRevise =>
      refine
        ⟨fun inode' => hOwn.lock inode',
          fun inode' => hOwn.named inode', nofun, ?_⟩
      intro inode' out' text' hSame
      cases hSame
      refine ⟨edit, hSome, ?_⟩
      rw [hOwn.current inode text rfl]
      exact hRevise
  | publish inode out text =>
      exact
        ⟨fun inode' => hOwn.lock inode',
          fun inode' => hOwn.named inode', nofun, nofun⟩
  | unlink inode outcome =>
      exact ⟨fun inode' => hOwn.lock inode', nofun, nofun, nofun⟩
  | close _ _ inode hLock hNone =>
      have hFree :
          ∀ inode', after.osLock ≠ some inode' := by
        intro inode' hLock'
        rw [hNone] at hLock'
        cases hLock'
      refine ⟨?_, ?_, ?_, ?_⟩
      · intro inode' hLock'
        exact absurd hLock' (hFree inode')
      · intro inode' hHolds
        exact absurd (osLock_of_holds hHolds) (hFree inode')
      · rintro inode' text rfl
        exact absurd rfl (hFree inode')
      · rintro inode' out text rfl
        exact absurd rfl (hFree inode')

end Writer

------------------------------------------------------------
-- Every Interleaving
------------------------------------------------------------

namespace Writer

variable {Doc Value Error T : Type} [DecidableEq Value]
variable {ops : DocOps Doc Value Error}

/-
  What a call's edit makes of the target, once the edit was
  made.
-/
def Call.effect
    (ops : DocOps Doc Value Error)
    (call : Call Doc Error T) :
    Option (Option String → Option (Option String)) :=
  match call.edit, call.place.outcome with
  | some edit, some outcome =>
      if outcome.edited then
        some (fun file =>
          match edit.revise ops (file.getD "") with
          | .error _ => none
          | .ok (_, none) => some file
          | .ok (_, some text) => some (some text))
      else none
  | _, _ => none

theorem effect_eq
    (call : Call Doc Error T) :
    call.effect ops =
      if call.place.outcome.any Outcome.edited then
        call.edit.map (fun edit file =>
          match edit.revise ops (file.getD "") with
          | .error _ => none
          | .ok (_, none) => some file
          | .ok (_, some text) => some (some text))
      else none := by
  unfold Call.effect
  cases call.edit with
  | none => simp
  | some edit =>
      cases call.place.outcome with
      | none => simp
      | some outcome => simp

/- No call is at work yet. -/
def initial
    (disk : Disk) : Calls Doc Error T where
  shared := disk
  calls := []

theorem sound_of_mem_trace
    {disk : Disk}
    {moves : List (Move Doc Error T)}
    {t : StepMachine.Turn (Calls Doc Error T)
      (Move Doc Error T) Unit}
    (hMember :
      t ∈ (writers ops).trace (initial disk) moves) :
    Interleave.Sound (fun _ => True) (Own ops) Apart
        t.before ∧
      Interleave.Sound (fun _ => True) (Own ops) Apart
        t.after := by
  refine
    Interleave.sound_of_mem_trace (fun _ _ => True)
      (fun _ _ => Apart.symm) ?_ ?_ ?_ (fun _ _ => trivial)
      (Interleave.sound_nil trivial) hMember
  · intro s request _ _
    exact ⟨⟨nofun, nofun, nofun, nofun⟩, fun _ _ => nofun⟩
  · intro s i choice c disk' c' hSound _ hCall hAct
    rcases step_of_act hAct with ⟨hStep, hEdit⟩
    have hOwn := hSound.own c (List.mem_of_getElem? hCall)
    refine ⟨trivial, own_of_step hOwn hEdit hStep, ?_⟩
    intro j d hOther hPlace
    have hOwnD := hSound.own d (List.mem_of_getElem? hPlace)
    have hApart :=
      hSound.apart i j c d (Ne.symm hOther) hCall hPlace
    exact
      ⟨hOwnD.calm (calm_of_step hOwn hOwnD hApart hStep),
        apart_of_step hOwnD hApart hStep⟩
  · intro s event
    exact nomatch event

/- A step makes no edit, or makes the call's own at one moment. -/
theorem effect_of_step
    {disk disk' : Disk}
    {call call' : Call Doc Error T}
    (hOwn : Own ops disk call)
    (hEdit : call'.edit = call.edit)
    (hStep :
      Step ops disk call.edit call.place disk' call'.place) :
    (call'.effect ops = call.effect ops ∧
        disk'.file = disk.file) ∨
      ∃ f, call.effect ops = none ∧
        call'.effect ops = some f ∧
          f disk.file = some disk'.file := by
  rcases call with ⟨take, edit, before⟩
  rcases call' with ⟨take', edit', after⟩
  simp only at hEdit hStep
  subst hEdit
  simp only [effect_eq]
  cases hStep with
  | plain _ _ _ _ _ _ hSame =>
      rw [hSame]
      exact Or.inl ⟨rfl, rfl⟩
  | create | lock | confirm | read | stage | unlink =>
      exact Or.inl ⟨rfl, rfl⟩
  | keep inode text edit out hSome hRevise =>
      subst hSome
      have hText : disk.file.getD "" = text :=
        hOwn.current inode text rfl
      refine Or.inr ⟨_, rfl, rfl, ?_⟩
      simp only [hText, hRevise]
  | publish inode out text =>
      rcases hOwn.revised inode out text rfl with
        ⟨edit, hSome, hRevise⟩
      simp only at hSome
      subst hSome
      have hText :
          edit.revise ops (disk.file.getD "") =
            .ok (out, some text) := hRevise
      refine Or.inr ⟨_, rfl, rfl, ?_⟩
      simp only [hText]
  | close _ _ inode _ _ hSame =>
      rw [hSame]
      exact Or.inl ⟨rfl, rfl⟩

/-
  A state in which the lock excludes and no edit is lost.

  One call at most holds the lock, and the name has its
  inode. The target is what the edits made have left of it,
  one after another in some order.
-/
structure Excludes
    (ops : DocOps Doc Value Error)
    (file : Option String)
    (s : Calls Doc Error T) : Prop where
  one :
    ∀ (i j : Nat) (c d : Call Doc Error T) (a b : Nat),
      i ≠ j → s.calls[i]? = some c → s.calls[j]? = some d →
        c.place.holds = some a → d.place.holds = some b →
          False
  named :
    ∀ c ∈ s.calls, ∀ inode,
      c.place.holds = some inode →
        s.shared.name = some inode
  serial :
    ∃ order,
      Serial (Call.effect ops) file s.calls s.shared.file order

/- The edits made so far, one after another. -/
theorem serial_of_mem_trace
    {disk : Disk}
    {moves : List (Move Doc Error T)}
    {t : StepMachine.Turn (Calls Doc Error T)
      (Move Doc Error T) Unit}
    (hMember :
      t ∈ (writers ops).trace (initial disk) moves) :
    ∃ order,
      Serial (Call.effect ops) disk.file t.after.calls
        t.after.shared.file order := by
  refine
    (StepMachine.invariant_of_mem_trace
      (fun s =>
        ∃ order,
          Serial (Call.effect ops) disk.file s.calls
            s.shared.file order)
      (fun s _ =>
        Interleave.Sound (fun _ => True) (Own ops) Apart s)
      ?_ (fun t hTurn => (sound_of_mem_trace hTurn).1)
      ⟨[], Serial.serial_nil⟩ hMember).2
  rintro s move ⟨order, hSerial⟩ hSound
  change
    ∃ order,
      Serial (Call.effect ops) disk.file
        (s.next Call.new (act ops) _ move).calls
        (s.next Call.new (act ops) _ move).shared.file order
  unfold Interleave.Crew.next
  cases move with
  | start request =>
      refine ⟨order, hSerial.begin ?_⟩
      simp [effect_eq, Call.new, Place.outcome]
  | step i choice =>
      simp only
      split
      · exact ⟨order, hSerial⟩
      · rename_i c hCall
        split
        · exact ⟨order, hSerial⟩
        · rename_i disk' c' hAct
          rcases step_of_act hAct with ⟨hStep, hEdit⟩
          have hOwn :=
            hSound.own c (List.mem_of_getElem? hCall)
          rcases effect_of_step hOwn hEdit hStep with
            ⟨hSame, hFile⟩ | ⟨f, hNone, hEffect, hNext⟩
          · simp only [hFile]
            exact ⟨order, hSerial.quiet hCall hSame⟩
          · exact
              ⟨order ++ [i],
                hSerial.commit hCall hNone hEffect hNext⟩
  | world event => exact nomatch event

/- The lock excludes and no edit is lost, in every run. -/
theorem excludes
    (ops : DocOps Doc Value Error)
    (disk : Disk)
    (moves : List (Move Doc Error T)) :
    ∀ t ∈ (writers ops).trace (initial disk) moves,
      Excludes ops disk.file t.after := by
  intro t hMember
  have hSound := (sound_of_mem_trace hMember).2
  refine ⟨?_, ?_, serial_of_mem_trace hMember⟩
  · intro i j c d a b hOther hC hD hHolds hHolds'
    exact
      (hSound.own c (List.mem_of_getElem? hC)).alone
        (hSound.own d (List.mem_of_getElem? hD))
        (hSound.apart i j c d hOther hC hD) hHolds hHolds'
  · intro c hCall inode hHolds
    exact (hSound.own c hCall).named inode hHolds

/- Documents that are their own text. -/
def plainText : DocOps String String String where
  parse := .ok
  value := id
  text := id
  verify := fun _ => .ok ()

/- Put a text at the end. -/
def putLast
    (tail : String) : Edit String String Unit where
  header := none
  f := fun doc => .ok (doc ++ tail, ())

/- Two edits, the second of which waits for the first. -/
def twoEdits : List (Move String String Unit) :=
  [.start (.acquire, some (putLast "a")),
    .start (.acquire, some (putLast "b")),
    .step 0 .go, .step 1 .go, .step 0 .go, .step 1 .go] ++
    List.replicate 6 (.step 0 .go) ++
    List.replicate 10 (.step 1 .go)

theorem excludes_twoEdits :
    ∃ t ∈ (writers plainText).trace
        (initial
          { name := none
            inodes := 0
            locked := []
            file := none })
        twoEdits,
      t.after.shared.file = some "ab" ∧
        Excludes plainText none t.after := by
  have hBoth :
      ∃ t ∈ (writers plainText).trace
          (initial
            { name := none
              inodes := 0
              locked := []
              file := none })
          twoEdits,
        t.after.shared.file = some "ab" := by
    decide
  rcases hBoth with ⟨t, hMember, hFile⟩
  exact ⟨t, hMember, hFile, excludes plainText _ _ t hMember⟩

end Writer
