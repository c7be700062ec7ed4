import AgentWays.Chat.PendingSpec
import AgentWays.Lib.Framing

/-
  The books of the queue: what its entries are, against what
  the pane did so far. Each entry stands for the lines it was
  given, in order, and for the route each of them had, and
  an entry that left was in the queue once.

  Key definitions include:
    * `Chat.textsOf`
    * `Chat.Told`
    * `Chat.Books`

  Main declarations:
    * `Chat.Books.leave`
    * `Chat.Books.refuse`
    * `Chat.Books.join`
    * `Chat.Books.start`
    * `Chat.Books.add`
-/

------------------------------------------------------------
-- Journals
------------------------------------------------------------

namespace Chat

open RustText

def Event.heldText
    (id : Nat) : Event → Option Text
| .held i text _ _ => if i = id then some text else none
| _ => none

def Event.leftEntry : Event → Option Held
| .left _ h => some h
| _ => none

/- The lines an entry was given, in order. -/
def textsOf
    (id : Nat)
    (journal : List Event) : List Text :=
  journal.filterMap (Event.heldText id)

/- The entries that left, in order. -/
def gone
    (journal : List Event) : List Held :=
  journal.filterMap Event.leftEntry

/- Every entry there ever was: in the queue, or gone. -/
def entries
    (q : Pending)
    (journal : List Event) : List Held :=
  q.held ++ gone journal

theorem textsOf_append
    (id : Nat)
    (journal more : List Event) :
    textsOf id (journal ++ more) =
      textsOf id journal ++ textsOf id more :=
  List.filterMap_append

theorem gone_append
    (journal more : List Event) :
    gone (journal ++ more) = gone journal ++ gone more :=
  List.filterMap_append

theorem gone_left
    (way : Way)
    (left : List Held) :
    gone (left.map (Event.left way)) = left := by
  unfold gone
  rw [List.filterMap_map]
  exact List.filterMap_some

theorem textsOf_eq_nil
    {id : Nat}
    {journal : List Event}
    (hNone :
      ∀ text tab dest, .held id text tab dest ∉ journal) :
    textsOf id journal = [] := by
  unfold textsOf
  rw [List.filterMap_eq_nil_iff]
  intro e hMem
  cases e with
  | held i text tab dest =>
      by_cases hId : i = id
      · subst hId
        exact absurd hMem (hNone text tab dest)
      · exact if_neg hId
  | left way h => rfl
  | refused why h => rfl
  | settled paths => rfl

/- An event that moves no entry and gives it no line. -/
def Event.quiet : Event → Prop
| .settled _ => True
| .refused (.elsewhere _) _ => False
| .refused _ _ => True
| _ => False

theorem gone_of_quiet
    {more : List Event}
    (hQuiet : ∀ e ∈ more, e.quiet) :
    gone more = [] := by
  refine List.filterMap_eq_nil_iff.mpr fun e hMem => ?_
  have hE := hQuiet e hMem
  cases e with
  | held i text tab dest => cases hE
  | left way h => cases hE
  | refused why h => rfl
  | settled paths => rfl

------------------------------------------------------------
-- Books
------------------------------------------------------------

section Books

variable (lower : Text → Text)

/-
  An entry stands for its lines: one route for all of them,
  which the entry still takes in the view it was written in.
-/
structure Told
    (journal : List Event)
    (h : Held) : Prop where
  routed : destination lower h.text h.tab = some h.dest
  spoken : Says h.text
  plain : h.tab.Plain
  lines : h.text = ['\n'].intercalate (textsOf h.id journal)
  some_line : textsOf h.id journal ≠ []
  same :
    ∀ text tab dest, .held h.id text tab dest ∈ journal →
      dest = h.dest ∧ destination lower text tab = some dest

structure Books
    (q : Pending)
    (journal : List Event) : Prop where
  ordered : q.held.Pairwise (fun a b => a.id < b.id)
  once : ((entries q journal).map Held.id).Nodup
  numbered : ∀ h ∈ entries q journal, h.id ≤ q.nextId
  counted :
    ∀ h ∈ q.held, h.counting = true → h.source = .enter
  apart :
    q.held.Pairwise
      (fun a b => a.counting = true → b.counting = true →
        a.dest ≠ b.dest)
  told :
    ∀ h ∈ entries q journal, h.source = .enter →
      Told lower journal h
  noted :
    ∀ id text tab dest, .held id text tab dest ∈ journal →
      ∃ h ∈ entries q journal, h.id = id ∧ h.source = .enter
  went :
    ∀ fg h, .left (.sent fg) h ∈ journal →
      h.source = .enter ∧
        destination lower h.text fg = some h.dest
  found :
    ∀ label h, .refused (.elsewhere label) h ∉ journal

theorem Books.init :
    Books lower { held := [], nextId := 0, writes := 0 } [] where
  ordered := List.Pairwise.nil
  once := List.nodup_nil
  numbered := by simp [entries, gone]
  counted := by simp
  apart := List.Pairwise.nil
  told := by simp [entries, gone]
  noted := by simp
  went := by simp
  found := by simp

variable {lower : Text → Text}
variable {q r : Pending}
variable {journal more : List Event}

/- What adds no line for an entry leaves what it stands for. -/
theorem Told.frame
    {h : Held}
    (hTold : Told lower journal h)
    (hMore :
      ∀ text tab dest, .held h.id text tab dest ∉ more) :
    Told lower (journal ++ more) h where
  routed := hTold.routed
  spoken := hTold.spoken
  plain := hTold.plain
  lines := by
    rw [textsOf_append, textsOf_eq_nil hMore, List.append_nil]
    exact hTold.lines
  some_line := by
    rw [textsOf_append, textsOf_eq_nil hMore, List.append_nil]
    exact hTold.some_line
  same := fun text tab dest hMem =>
    hTold.same text tab dest
      ((List.mem_append.mp hMem).resolve_right
        (hMore text tab dest))

/- Entries leave the queue for the journal. -/
theorem Books.leave
    (hBooks : Books lower q journal)
    (left : List Held)
    (way : Way)
    (hNext : r.nextId = q.nextId)
    (hSub : r.held.Sublist q.held)
    (hPerm : q.held.Perm (r.held ++ left))
    (hWay :
      ∀ h ∈ left, ∀ fg, way = .sent fg →
        h.source = .enter ∧
          destination lower h.text fg = some h.dest) :
    Books lower r (journal ++ left.map (Event.left way)) := by
  have hEntries :
      (entries r (journal ++ left.map (Event.left way))).Perm
        (entries q journal) := by
    unfold entries
    rw [gone_append, gone_left]
    have hSwap :
        (r.held ++ (gone journal ++ left)).Perm
          (r.held ++ left ++ gone journal) := by
      rw [List.append_assoc]
      exact List.Perm.append_left _ List.perm_append_comm
    exact hSwap.trans (List.Perm.append_right _ hPerm.symm)
  have hHeld :
      ∀ id text tab dest,
        Event.held id text tab dest ∉
          left.map (Event.left way) := by
    intro id text tab dest hMem
    obtain ⟨h, -, hEq⟩ := List.mem_map.mp hMem
    cases hEq
  exact
    { ordered := hBooks.ordered.sublist hSub
      once := (hEntries.map Held.id).nodup_iff.mpr hBooks.once
      numbered := fun h hMem => by
        rw [hNext]
        exact hBooks.numbered h (hEntries.mem_iff.mp hMem)
      counted := fun h hMem =>
        hBooks.counted h (hSub.subset hMem)
      apart := hBooks.apart.sublist hSub
      told := fun h hMem hEnter =>
        (hBooks.told h (hEntries.mem_iff.mp hMem)
          hEnter).frame (hHeld h.id)
      noted := fun id text tab dest hMem => by
        obtain ⟨h, hIn, hRest⟩ :=
          hBooks.noted id text tab dest
            ((List.mem_append.mp hMem).resolve_right
              (hHeld id text tab dest))
        exact ⟨h, hEntries.mem_iff.mpr hIn, hRest⟩
      went := fun fg h hMem => by
        rcases List.mem_append.mp hMem with hOld | hNew
        · exact hBooks.went fg h hOld
        · obtain ⟨g, hG, hEq⟩ := List.mem_map.mp hNew
          cases hEq
          exact hWay h hG fg rfl
      found := fun label h hMem => by
        rcases List.mem_append.mp hMem with hOld | hNew
        · exact hBooks.found label h hOld
        · obtain ⟨g, -, hEq⟩ := List.mem_map.mp hNew
          cases hEq }

/- One entry leaves. -/
theorem Books.leave_one
    (hBooks : Books lower q journal)
    {front back : List Held}
    {h : Held}
    (hQ : q.held = front ++ h :: back)
    (hR : r.held = front ++ back)
    (hNext : r.nextId = q.nextId)
    (way : Way)
    (hWay :
      ∀ fg, way = .sent fg →
        h.source = .enter ∧
          destination lower h.text fg = some h.dest) :
    Books lower r (journal ++ [.left way h]) := by
  refine hBooks.leave [h] way hNext ?_ ?_ ?_
  · rw [hQ, hR]
    exact List.Sublist.append_left
      (List.sublist_cons_self h back) front
  · rw [hQ, hR]
    refine List.perm_middle.trans ?_
    exact (List.perm_append_singleton h _).symm
  · intro g hMem
    rw [List.mem_singleton] at hMem
    subst hMem
    exact hWay

/- The queue as it was, and nothing told of an entry. -/
theorem Books.frame
    (hBooks : Books lower q journal)
    (hHeld : r.held = q.held)
    (hNext : q.nextId ≤ r.nextId)
    (hQuiet : ∀ e ∈ more, e.quiet) :
    Books lower r (journal ++ more) := by
  have hEntries :
      entries r (journal ++ more) = entries q journal := by
    unfold entries
    rw [gone_append, gone_of_quiet hQuiet, List.append_nil,
      hHeld]
  exact
    { ordered := by
        rw [hHeld]
        exact hBooks.ordered
      once := by
        rw [hEntries]
        exact hBooks.once
      numbered := fun h hMem => by
        rw [hEntries] at hMem
        exact (hBooks.numbered h hMem).trans hNext
      counted := by
        rw [hHeld]
        exact hBooks.counted
      apart := by
        rw [hHeld]
        exact hBooks.apart
      told := fun h hMem hEnter => by
        rw [hEntries] at hMem
        exact (hBooks.told h hMem hEnter).frame
          (fun text tab dest hNew => hQuiet _ hNew)
      noted := fun id text tab dest hMem => by
        rw [hEntries]
        exact hBooks.noted id text tab dest
          ((List.mem_append.mp hMem).resolve_right
            (fun hNew => hQuiet _ hNew))
      went := fun fg h hMem =>
        hBooks.went fg h
          ((List.mem_append.mp hMem).resolve_right
            (fun hNew => hQuiet _ hNew))
      found := fun label h hMem =>
        hBooks.found label h
          ((List.mem_append.mp hMem).resolve_right
            (fun hNew => hQuiet _ hNew)) }

------------------------------------------------------------
-- An Entry Written To
------------------------------------------------------------

section Written

variable {front back : List Held}
variable {h g : Held}

theorem pairwise_replace
    {α : Type}
    {R : α → α → Prop}
    {front back : List α}
    {a b : α}
    (hPair : (front ++ a :: back).Pairwise R)
    (hLeft : ∀ c, R c a → R c b)
    (hRight : ∀ c, R a c → R b c) :
    (front ++ b :: back).Pairwise R := by
  simp only [List.pairwise_append, List.pairwise_cons,
    List.mem_cons, forall_eq_or_imp] at hPair ⊢
  obtain ⟨hFront, ⟨hHead, hBack⟩, hCross⟩ := hPair
  exact ⟨hFront,
    ⟨fun c hMem => hRight c (hHead c hMem), hBack⟩,
    fun c hMem => ⟨hLeft c (hCross c hMem).1,
      (hCross c hMem).2⟩⟩

/- Of the entries of one number there is one. -/
theorem Books.eq_of_id
    (hBooks : Books lower q journal)
    {a b : Held}
    (hA : a ∈ entries q journal)
    (hB : b ∈ entries q journal)
    (hId : a.id = b.id) :
    a = b :=
  List.inj_on_of_nodup_map hBooks.once hA hB hId

/-
  An entry written to where it stands: the lines it is given
  are its own, and the others keep theirs.
-/
theorem Books.replace
    (hBooks : Books lower q journal)
    (hQ : q.held = front ++ h :: back)
    (hR : r.held = front ++ g :: back)
    (hNext : r.nextId = q.nextId)
    (hId : g.id = h.id)
    (hCount : g.counting = true → h.counting = true)
    (hDest : g.dest = h.dest)
    (hSource : g.source = h.source)
    (hGone : gone more = [])
    (hNoted :
      ∀ id text tab dest, .held id text tab dest ∈ more →
        id = h.id ∧ h.source = .enter)
    (hFound : ∀ label o, .refused (.elsewhere label) o ∉ more)
    (hTold :
      h.source = .enter → Told lower (journal ++ more) g) :
    Books lower r (journal ++ more) := by
  have hLeft : ∀ way o, Event.left way o ∉ more := by
    intro way o hMem
    have hIn : o ∈ gone more :=
      List.mem_filterMap.mpr ⟨_, hMem, rfl⟩
    rw [hGone] at hIn
    cases hIn
  have hEntriesQ :
      entries q journal =
        front ++ h :: (back ++ gone journal) := by
    simp [entries, hQ]
  have hEntriesR :
      entries r (journal ++ more) =
        front ++ g :: (back ++ gone journal) := by
    simp [entries, hR, gone_append, hGone]
  have hIds :
      (entries r (journal ++ more)).map Held.id =
        (entries q journal).map Held.id := by
    simp [hEntriesQ, hEntriesR, hId]
  have hOld :
      ∀ o ∈ entries r (journal ++ more),
        o = g ∨ (o ∈ entries q journal ∧ o.id ≠ h.id) := by
    intro o hMem
    have hNodup := hBooks.once
    rw [hEntriesR, List.mem_append, List.mem_cons] at hMem
    rw [hEntriesQ, List.map_append, List.map_cons,
      List.nodup_middle, List.nodup_cons] at hNodup
    have hOther :
        o ∈ front ∨ o ∈ back ++ gone journal →
          o ∈ entries q journal ∧ o.id ≠ h.id := by
      intro hIn
      refine ⟨?_, fun hEq => hNodup.1 ?_⟩
      · rw [hEntriesQ, List.mem_append, List.mem_cons]
        exact hIn.imp id .inr
      · rw [← hEq, ← List.map_append]
        exact List.mem_map_of_mem (List.mem_append.mpr hIn)
    rcases hMem with hFront | hG | hBack
    · exact .inr (hOther (.inl hFront))
    · exact .inl hG
    · exact .inr (hOther (.inr hBack))
  have hHere : g ∈ entries r (journal ++ more) := by
    rw [hEntriesR]
    simp
  exact
    { ordered := by
        have hOrder := hBooks.ordered
        rw [hQ] at hOrder
        rw [hR]
        exact pairwise_replace hOrder
          (fun c hC => hId ▸ hC) (fun c hC => hId ▸ hC)
      once := by
        rw [hIds]
        exact hBooks.once
      numbered := fun o hMem => by
        have hIn := List.mem_map_of_mem (f := Held.id) hMem
        rw [hIds, List.mem_map] at hIn
        obtain ⟨a, hA, hEq⟩ := hIn
        rw [hNext, ← hEq]
        exact hBooks.numbered a hA
      counted := fun o hMem hCounting => by
        rw [hR, List.mem_append, List.mem_cons] at hMem
        have hQIn := fun o (hIn : o ∈ front ∨ o ∈ back) =>
          show o ∈ q.held by
            rw [hQ, List.mem_append, List.mem_cons]
            exact hIn.imp id .inr
        rcases hMem with hFront | rfl | hBack
        · exact hBooks.counted o (hQIn o (.inl hFront))
            hCounting
        · rw [hSource]
          exact hBooks.counted h (by simp [hQ])
            (hCount hCounting)
        · exact hBooks.counted o (hQIn o (.inr hBack))
            hCounting
      apart := by
        have hApart := hBooks.apart
        rw [hQ] at hApart
        rw [hR]
        refine pairwise_replace hApart ?_ ?_
        · intro c hC hCc hCg
          rw [hDest]
          exact hC hCc (hCount hCg)
        · intro c hC hCg hCc
          rw [hDest]
          exact hC (hCount hCg) hCc
      told := fun o hMem hEnter => by
        rcases hOld o hMem with rfl | ⟨hIn, hNe⟩
        · exact hTold (hSource ▸ hEnter)
        · exact (hBooks.told o hIn hEnter).frame
            (fun text tab dest hNew =>
              hNe (hNoted _ _ _ _ hNew).1)
      noted := fun id text tab dest hMem => by
        rcases List.mem_append.mp hMem with hBefore | hNew
        · obtain ⟨o, hIn, hOId, hEnter⟩ :=
            hBooks.noted id text tab dest hBefore
          rw [hEntriesQ, List.mem_append,
            List.mem_cons] at hIn
          by_cases hSame : o = h
          · subst hSame
            exact ⟨g, hHere, hId.trans hOId,
              hSource.trans hEnter⟩
          · refine ⟨o, ?_, hOId, hEnter⟩
            rw [hEntriesR, List.mem_append, List.mem_cons]
            exact hIn.imp_right
              (fun hEither =>
                .inr (hEither.resolve_left hSame))
        · obtain ⟨rfl, hEnter⟩ := hNoted _ _ _ _ hNew
          exact ⟨g, hHere, hId, hSource.trans hEnter⟩
      went := fun fg o hMem =>
        hBooks.went fg o
          ((List.mem_append.mp hMem).resolve_right
            (hLeft _ o))
      found := fun label o hMem => by
        rcases List.mem_append.mp hMem with hBefore | hNew
        · exact hBooks.found label o hBefore
        · exact hFound label o hNew }

/- A message put back, refused, where it was. -/
theorem Books.refuse
    (hBooks : Books lower q journal)
    (hQ : q.held = front ++ h :: back)
    (hR : r.held = front ++ back)
    (hNext : r.nextId = q.nextId)
    (why : Refusal)
    (refused : Refused)
    (hWhy : ∀ label, why ≠ .elsewhere label) :
    Books lower (r.refuse h refused)
      (journal ++ [.refused why h]) := by
  have hOrder := hBooks.ordered
  rw [hQ, List.pairwise_append, List.pairwise_cons] at hOrder
  have hHeld :=
    Pending.refuse_held hR
      (fun o hMem =>
        (hOrder.2.2 o hMem h (List.mem_cons_self ..)).le)
      (fun o hMem => hOrder.2.1.1 o hMem) refused
  have hHeldEvent :
      ∀ id text tab dest,
        Event.held id text tab dest ∉ [.refused why h] := by
    simp
  have hQuiet : ∀ e ∈ [Event.refused why h], e.quiet := by
    intro e hMem
    rw [List.mem_singleton] at hMem
    subst hMem
    cases why with
    | gone channel => trivial
    | elsewhere label => exact absurd rfl (hWhy label)
    | quiet status => trivial
    | failed label status => trivial
  refine hBooks.replace hQ hHeld ?_ rfl
    (fun hCounting => by cases hCounting) rfl rfl
    (gone_of_quiet hQuiet)
    (fun id text tab dest hMem =>
      absurd hMem (hHeldEvent id text tab dest))
    (fun label o hMem => hQuiet _ hMem) (fun hEnter => ?_)
  · exact hNext
  · have hTold :=
      (hBooks.told h (by simp [entries, hQ]) hEnter).frame
        (hHeldEvent h.id)
    exact
      { routed := hTold.routed
        spoken := hTold.spoken
        plain := hTold.plain
        lines := hTold.lines
        some_line := hTold.some_line
        same := hTold.same }

/- A line put on the message counting down for its route. -/
theorem Books.join
    (hBooks : Books lower q journal)
    (hLower : KeepsSpace lower)
    {text dest : Text}
    {tab : Tab}
    {due touched : Nat}
    (hQ : q.held = front ++ h :: back)
    (hR : r.held = front ++ h.join text due touched :: back)
    (hNext : r.nextId = q.nextId)
    (hCounting : h.counting = true)
    (hSame : h.dest = dest)
    (hPlain : tab.Plain)
    (hDest : destination lower text tab = some dest) :
    Books lower r
      (journal ++ [.held h.id text tab dest]) := by
  have hEnter :=
    hBooks.counted h (by simp [hQ]) hCounting
  have hTold := hBooks.told h (by simp [entries, hQ]) hEnter
  refine hBooks.replace hQ hR hNext rfl id rfl rfl rfl
    (fun i t b d hMem => ?_) (by simp) (fun _ => ?_)
  · rw [List.mem_singleton] at hMem
    cases hMem
    exact ⟨rfl, hEnter⟩
  · have hTexts :
        textsOf h.id
            (journal ++ [.held h.id text tab dest]) =
          textsOf h.id journal ++ [text] := by
      rw [textsOf_append]
      simp [textsOf, Event.heldText]
    exact
      { routed := by
          subst hSame
          exact destination_join hLower hTold.spoken
            hTold.plain hPlain hTold.routed hDest
        spoken := by
          intro hBlank
          have hSays := hTold.spoken
          unfold Says at hSays
          rw [show (h.join text due touched).text =
              h.text ++ '\n' :: text from rfl,
            dropWhile_append_ne _ hSays] at hBlank
          exact hSays (List.append_eq_nil_iff.mp hBlank).1
        plain := hTold.plain
        lines := by
          rw [show (h.join text due touched).id = h.id from
              rfl, hTexts,
            Framing.intercalate_append hTold.some_line
              (List.cons_ne_nil _ _),
            ← hTold.lines, List.intercalate_singleton]
          rfl
        some_line := by
          rw [show (h.join text due touched).id = h.id from
              rfl, hTexts]
          simp
        same := fun t b d hMem => by
          rcases List.mem_append.mp hMem with hOld | hNew
          · exact hTold.same t b d hOld
          · rw [List.mem_singleton] at hNew
            cases hNew
            exact ⟨hSame.symm, hDest⟩ }

/- A number not given yet. -/
theorem Books.fresh
    (hBooks : Books lower q journal)
    (hId : g.id = q.nextId + 1) :
    ∀ o ∈ entries q journal, o.id ≠ g.id := by
  intro o hMem
  have hLe := hBooks.numbered o hMem
  omega

theorem Books.ordered_snoc
    (hBooks : Books lower q journal)
    (hId : g.id = q.nextId + 1) :
    (q.held ++ [g]).Pairwise (fun a b => a.id < b.id) := by
  rw [List.pairwise_append]
  refine ⟨hBooks.ordered, by simp, fun a hA b hB => ?_⟩
  rw [List.mem_singleton] at hB
  subst hB
  have hLe := hBooks.numbered a (List.mem_append_left _ hA)
  omega

theorem Books.once_cons
    (hBooks : Books lower q journal)
    (hId : g.id = q.nextId + 1) :
    ((g :: entries q journal).map Held.id).Nodup := by
  rw [List.map_cons, List.nodup_cons]
  refine ⟨fun hMem => ?_, hBooks.once⟩
  obtain ⟨o, hIn, hEq⟩ := List.mem_map.mp hMem
  exact hBooks.fresh hId o hIn hEq

/- A message of its own, at the end. -/
theorem Books.start
    (hBooks : Books lower q journal)
    {g : Held}
    (hHeld : r.held = q.held ++ [g])
    (hNext : r.nextId = g.id)
    (hId : g.id = q.nextId + 1)
    (hEnter : g.source = .enter)
    (hApart :
      ∀ o ∈ q.held, o.counting = true → o.dest ≠ g.dest)
    (hSays : Says g.text)
    (hPlain : g.tab.Plain)
    (hDest : destination lower g.text g.tab = some g.dest) :
    Books lower r
      (journal ++ [.held g.id g.text g.tab g.dest]) := by
  have hFresh := hBooks.fresh hId
  have hNone :
      ∀ text tab dest,
        .held g.id text tab dest ∉ journal := by
    intro text tab dest hMem
    obtain ⟨o, hIn, hOId, -⟩ :=
      hBooks.noted g.id text tab dest hMem
    exact hFresh o hIn hOId
  have hEntries :
      (entries r
          (journal ++
            [.held g.id g.text g.tab g.dest])).Perm
        (g :: entries q journal) := by
    have hSame :
        entries r
            (journal ++
              [.held g.id g.text g.tab g.dest]) =
          q.held ++ g :: gone journal := by
      simp [entries, hHeld, gone, Event.leftEntry]
    rw [hSame]
    exact List.perm_middle
  have hOther :
      ∀ o ∈ entries q journal, ∀ text tab dest,
        Event.held o.id text tab dest ∉
          [.held g.id g.text g.tab g.dest] := by
    intro o hMem text tab dest hNew
    rw [List.mem_singleton] at hNew
    exact hFresh o hMem (Event.held.inj hNew).1
  exact
    { ordered := by
        rw [hHeld]
        exact hBooks.ordered_snoc hId
      once := by
        rw [(hEntries.map Held.id).nodup_iff]
        exact hBooks.once_cons hId
      numbered := fun o hMem => by
        rcases List.mem_cons.mp (hEntries.mem_iff.mp hMem) with
          rfl | hIn
        · exact hNext.ge
        · have hLe := hBooks.numbered o hIn
          omega
      counted := fun o hMem hCounting => by
        rw [hHeld, List.mem_append, List.mem_singleton] at hMem
        rcases hMem with hIn | rfl
        · exact hBooks.counted o hIn hCounting
        · exact hEnter
      apart := by
        rw [hHeld, List.pairwise_append]
        refine ⟨hBooks.apart, by simp, fun a hA b hB => ?_⟩
        rw [List.mem_singleton] at hB
        subst hB
        exact fun hCounting _ => hApart a hA hCounting
      told := fun o hMem hSource => by
        rcases List.mem_cons.mp (hEntries.mem_iff.mp hMem) with
          rfl | hIn
        · have hTexts :
              textsOf o.id
                  (journal ++
                    [.held o.id o.text o.tab o.dest]) =
                [o.text] := by
            rw [textsOf_append, textsOf_eq_nil hNone]
            simp [textsOf, Event.heldText]
          exact
            { routed := hDest
              spoken := hSays
              plain := hPlain
              lines := by
                rw [hTexts, List.intercalate_singleton]
              some_line := by
                rw [hTexts]
                simp
              same := fun text tab dest hNew => by
                rcases List.mem_append.mp hNew with
                  hOld | hHere
                · exact absurd hOld (hNone text tab dest)
                · rw [List.mem_singleton] at hHere
                  cases hHere
                  exact ⟨rfl, hDest⟩ }
        · exact (hBooks.told o hIn hSource).frame (hOther o hIn)
      noted := fun id text tab dest hMem => by
        rcases List.mem_append.mp hMem with hOld | hNew
        · obtain ⟨o, hIn, hRest⟩ :=
            hBooks.noted id text tab dest hOld
          exact ⟨o, hEntries.mem_iff.mpr
            (List.mem_cons_of_mem _ hIn), hRest⟩
        · rw [List.mem_singleton] at hNew
          cases hNew
          exact ⟨g, hEntries.mem_iff.mpr
            (List.mem_cons_self ..), rfl, hEnter⟩
      went := fun fg o hMem =>
        hBooks.went fg o (by simpa using hMem)
      found := fun label o hMem =>
        hBooks.found label o (by simpa using hMem) }

/- A line held: joined, or a message of its own. -/
theorem Books.hold
    (hBooks : Books lower q journal)
    (hLower : KeepsSpace lower)
    {text dest label : Text}
    {tab : Tab}
    {now delay id : Nat}
    (hPlain : tab.Plain)
    (hSays : Says text)
    (hDest : destination lower text tab = some dest)
    (hHold :
      q.hold text tab dest label now delay =
        (r, .held id)) :
    Books lower r (journal ++ [.held id text tab dest]) := by
  rcases Pending.hold_held hHold with
    ⟨front, h, back, hQ, hR, hCounting, hSame, rfl, hNext⟩ |
      ⟨rfl, hNext, hApart, hHeld⟩
  · exact hBooks.join hLower hQ hR hNext hCounting hSame
      hPlain hDest
  · exact hBooks.start hHeld hNext rfl rfl hApart hSays
      hPlain hDest

/- An entry that never counts down, at the end. -/
theorem Books.add
    (hBooks : Books lower q journal)
    (h : Held)
    (last : Bool)
    (hNot : h.source ≠ .enter) :
    Books lower (q.add h last) journal := by
  obtain ⟨g, hHeld, hId, hSource, hCounting⟩ :
      ∃ g, (q.add h last).held = q.held ++ [g] ∧
        g.id = q.nextId + 1 ∧ g.source = h.source ∧
        g.counting = false :=
    ⟨_, rfl, rfl, rfl, rfl⟩
  have hEntries :
      (entries (q.add h last) journal).Perm
        (g :: entries q journal) := by
    have hSame :
        entries (q.add h last) journal =
          q.held ++ g :: gone journal := by
      simp [entries, hHeld]
    rw [hSame]
    exact List.perm_middle
  exact
    { ordered := by
        rw [hHeld]
        exact hBooks.ordered_snoc hId
      once := by
        rw [(hEntries.map Held.id).nodup_iff]
        exact hBooks.once_cons hId
      numbered := fun o hMem => by
        rcases List.mem_cons.mp (hEntries.mem_iff.mp hMem) with
          rfl | hIn
        · exact hId.le
        · exact (hBooks.numbered o hIn).trans (Nat.le_succ _)
      counted := fun o hMem hCount => by
        rw [hHeld, List.mem_append, List.mem_singleton] at hMem
        rcases hMem with hIn | rfl
        · exact hBooks.counted o hIn hCount
        · rw [hCounting] at hCount
          cases hCount
      apart := by
        rw [hHeld, List.pairwise_append]
        refine ⟨hBooks.apart, by simp, fun a _ b hB => ?_⟩
        rw [List.mem_singleton] at hB
        subst hB
        intro _ hCount
        rw [hCounting] at hCount
        cases hCount
      told := fun o hMem hEnter => by
        rcases List.mem_cons.mp (hEntries.mem_iff.mp hMem) with
          rfl | hIn
        · exact absurd (hSource ▸ hEnter) hNot
        · exact hBooks.told o hIn hEnter
      noted := fun id text tab dest hMem => by
        obtain ⟨o, hIn, hRest⟩ :=
          hBooks.noted id text tab dest hMem
        exact ⟨o, hEntries.mem_iff.mpr
          (List.mem_cons_of_mem _ hIn), hRest⟩
      went := hBooks.went
      found := hBooks.found }

end Written

end Books

end Chat
