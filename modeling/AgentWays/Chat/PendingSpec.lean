import AgentWays.Chat.Pending
import AgentWays.Chat.RouteSpec

/-
  What each operation of the queue does to the messages in
  it, as the places of a list: one joined where it stands,
  one put at the end, one taken out and one put back where
  it was.

  Main declarations:
    * `Chat.Pending.hold_held`
    * `Chat.Pending.hold_now`
    * `Chat.Pending.recall_some`
    * `Chat.Pending.refuse_held`
    * `Chat.Pending.recallNewest_some`
-/

------------------------------------------------------------
-- Joins
------------------------------------------------------------

namespace Chat

open RustText

theorem joinFirst_some
    {text dest : Text}
    {due touched id : Nat}
    {held after : List Held}
    (hJoin :
      joinFirst text dest due touched held =
        some (id, after)) :
    ∃ front h back,
      held = front ++ h :: back ∧
        after = front ++ h.join text due touched :: back ∧
        h.counting = true ∧ h.dest = dest ∧ h.id = id := by
  induction held generalizing after with
  | nil => cases hJoin
  | cons h rest ih =>
      unfold joinFirst at hJoin
      split at hJoin
      · rename_i hHit
        simp only [Bool.and_eq_true, beq_iff_eq] at hHit
        cases hJoin
        exact ⟨[], h, rest, rfl, rfl, hHit.1, hHit.2, rfl⟩
      · rw [Option.map_eq_some_iff] at hJoin
        obtain ⟨found, hFound, hEq⟩ := hJoin
        obtain ⟨front, g, back, rfl, hAfter, hRest⟩ :=
          @ih found.2 (by
            rw [hFound]
            cases hEq
            rfl)
        cases hEq
        refine ⟨h :: front, g, back, rfl, ?_, hRest⟩
        rw [hAfter]
        rfl

theorem joinFirst_none
    {text dest : Text}
    {due touched : Nat}
    {held : List Held}
    (hJoin :
      joinFirst text dest due touched held = none) :
    ∀ h ∈ held, h.counting = true → h.dest ≠ dest := by
  induction held with
  | nil => exact fun h hMem => nomatch hMem
  | cons g rest ih =>
      unfold joinFirst at hJoin
      split at hJoin
      · cases hJoin
      · rename_i hMiss
        rw [Option.map_eq_none_iff] at hJoin
        intro h hMem hCounting hDest
        rcases List.mem_cons.mp hMem with rfl | hRest
        · simp [hCounting, hDest] at hMiss
        · exact ih hJoin h hRest hCounting hDest

------------------------------------------------------------
-- Taking Out And Putting Back
------------------------------------------------------------

namespace Pending

/-
  A hold: a line more on the message counting down for the
  route, or a message of its own at the end.
-/
theorem hold_held
    {p q : Pending}
    {text dest label : Text}
    {tab : Tab}
    {now delay id : Nat}
    (hHold :
      p.hold text tab dest label now delay =
        (q, .held id)) :
    (∃ front h back,
      p.held = front ++ h :: back ∧
        q.held =
          front ++
            h.join text (now + delay) (p.writes + 1) ::
              back ∧
        h.counting = true ∧ h.dest = dest ∧ h.id = id ∧
        q.nextId = p.nextId) ∨
      (id = p.nextId + 1 ∧ q.nextId = id ∧
        (∀ h ∈ p.held, h.counting = true → h.dest ≠ dest) ∧
        q.held = p.held ++
          [{ id := id, text := text, tab := tab, dest := dest,
             label := label, due := now + delay,
             refused := none, touched := p.writes + 1,
             source := .enter }]) := by
  unfold hold at hHold
  simp only at hHold
  split at hHold
  · rename_i found after hJoin
    cases hHold
    obtain ⟨front, h, back, hHeld, hAfter, hCounting, hDest,
      hId⟩ := joinFirst_some hJoin
    exact .inl ⟨front, h, back, hHeld, hAfter, hCounting,
      hDest, hId, rfl⟩
  · rename_i hJoin
    split at hHold
    · cases hHold
    · cases hHold
      exact .inr ⟨rfl, rfl, joinFirst_none hJoin, rfl⟩

theorem hold_now
    {p q : Pending}
    {text dest label : Text}
    {tab : Tab}
    {now delay : Nat}
    (hHold :
      p.hold text tab dest label now delay = (q, .now)) :
    q.held = p.held ∧ q.nextId = p.nextId := by
  unfold hold at hHold
  simp only at hHold
  split at hHold
  · cases hHold
  · split at hHold
    · cases hHold
      exact ⟨rfl, rfl⟩
    · cases hHold

theorem recall_some
    {p q : Pending}
    {id : Nat}
    {h : Held}
    (hRecall : p.recall id = some (h, q)) :
    ∃ front back,
      p.held = front ++ h :: back ∧
        q.held = front ++ back ∧
        h.id = id ∧ (∀ o ∈ front, o.id ≠ id) ∧
        q.nextId = p.nextId := by
  unfold Pending.recall at hRecall
  rw [Option.map_eq_some_iff] at hRecall
  obtain ⟨found, hFind, hEq⟩ := hRecall
  cases hEq
  obtain ⟨hId, front, back, hHeld, hFront⟩ :=
    List.find?_eq_some_iff_append.mp hFind
  have hMiss : ∀ o ∈ front, ¬ (o.id == id) = true := by
    intro o hMem
    simpa using hFront o hMem
  refine ⟨front, back, hHeld, ?_, by simpa using hId,
    fun o hMem => by simpa using hMiss o hMem, rfl⟩
  simp only [hHeld]
  rw [List.eraseP_append_right _ hMiss]
  simp [hId]

/- What is taken out and put back stands where it stood. -/
theorem refuse_held
    {p : Pending}
    {h : Held}
    {front back : List Held}
    (hHeld : p.held = front ++ back)
    (hFront : ∀ o ∈ front, o.id ≤ h.id)
    (hBack : ∀ o ∈ back, h.id < o.id)
    (refused : Refused) :
    (p.refuse h refused).held =
      front ++
        { h with
          refused := some refused
          touched := p.writes + 1 } :: back := by
  have hStop :
      ∀ o ∈ back, decide (o.id ≤ h.id) = false := by
    intro o hMem
    have hLt := hBack o hMem
    simp only [decide_eq_false_iff_not]
    omega
  have hTake :
      back.takeWhile (fun o => decide (o.id ≤ h.id)) = [] ∧
        back.dropWhile (fun o => decide (o.id ≤ h.id)) =
          back := by
    cases back with
    | nil => exact ⟨rfl, rfl⟩
    | cons o rest =>
        have hHead := hStop o (List.mem_cons_self ..)
        exact ⟨List.takeWhile_cons_of_neg (by simp [hHead]),
          List.dropWhile_cons_of_neg (by simp [hHead])⟩
  have hGo :
      ∀ o ∈ front, decide (o.id ≤ h.id) = true := by
    intro o hMem
    simpa using hFront o hMem
  simp only [refuse, hHeld]
  rw [List.takeWhile_append_of_pos hGo,
    List.dropWhile_append_of_pos hGo, hTake.1, hTake.2,
    List.append_nil]

theorem newest_mem
    {p : Pending}
    {h : Held × Nat}
    (hNewest : p.newest = some h) :
    p.held[h.2]? = some h.1 := by
  have hAll : ∀ b ∈ p.newest, p.held[b.2]? = some b.1 := by
    unfold newest
    refine List.foldlRecOn
      (motive := fun best : Option (Held × Nat) =>
        ∀ b ∈ best, p.held[b.2]? = some b.1)
      _ _ (fun b hMem => nomatch hMem) ?_
    intro best hBest e hEntry b hMem
    have hAt := List.mem_zipIdx' hEntry
    have hHead : p.held[e.2]? = some e.1 := by
      rw [hAt.2]
      exact List.getElem?_eq_getElem _
    cases best with
    | none =>
        cases hMem
        exact hHead
    | some c =>
        simp only at hMem
        split at hMem
        · cases hMem
          exact hHead
        · cases hMem
          exact hBest _ rfl
  exact hAll h hNewest

theorem recallNewest_some
    {p q : Pending}
    {h : Held}
    (hRecall : p.recallNewest = some (h, q)) :
    ∃ front back,
      p.held = front ++ h :: back ∧
        q.held = front ++ back ∧ q.nextId = p.nextId := by
  unfold recallNewest at hRecall
  rw [Option.map_eq_some_iff] at hRecall
  obtain ⟨found, hNewest, hEq⟩ := hRecall
  cases hEq
  obtain ⟨hLt, hAt⟩ :=
    List.getElem?_eq_some_iff.mp (newest_mem hNewest)
  refine ⟨p.held.take found.2, p.held.drop (found.2 + 1),
    ?_, ?_, rfl⟩
  · rw [← hAt, List.getElem_cons_drop, List.take_append_drop]
  · exact List.eraseIdx_eq_take_drop_succ _ _

end Pending

end Chat
