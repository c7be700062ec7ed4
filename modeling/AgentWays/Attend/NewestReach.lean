import AgentWays.Attend.PlanSpec

/-
  The cold start delivers the newest of what reaches the
  session, of each kind as many as its cap.

  Key definitions include:
    * `Attend.NewestReach`
    * `Attend.Widens`

  Main declarations:
    * `Attend.newestReach`
-/

------------------------------------------------------------
-- What Is Delivered
------------------------------------------------------------

namespace Attend

variable {w w' : Window} {pending : List (Room × Nat)}

/-
  One answer a message; of the messages that reach, those
  withheld have as many of their kind no older as its cap.
-/
structure NewestReach
    (pending : List (Room × Nat))
    (w : Window)
    (p : Plan) : Prop where
  one : p.deliver.length = pending.length
  reach :
    ∀ (i : Nat) m,
      pending[i]? = some m →
        p.deliver[i]? = some true →
          w.reaches m.1 m.2 = true
  capped :
    ∀ kind,
      (List.range pending.length).countP
          (fun i =>
            (p.deliver[i]?).getD false &&
              decide ((pending[i]?).map (kindOf w) = some kind)) ≤
        capOf kind
  withheld :
    ∀ (i : Nat) m,
      pending[i]? = some m →
        w.reaches m.1 m.2 = true →
          p.deliver[i]? = some false →
            capOf (kindOf w m) ≤
              (pending.eraseIdx i).countP
                (fun m' =>
                  reachesAs w (kindOf w m) m' &&
                    decide (m'.2 ≤ m.2))
  few :
    ∀ (i : Nat) m,
      pending[i]? = some m →
        w.reaches m.1 m.2 = true →
          pending.countP (reachesAs w (kindOf w m)) ≤
              capOf (kindOf w m) →
            p.deliver[i]? = some true
  notShown : p.notShown = p.deliver.countP (fun d => !d)

/- A larger age, or one more briefing. -/
inductive Widens : Window → Window → Prop
| session
    (w : Window)
    (began began' : Nat) :
    began ≤ began' →
      Widens { w with session := some began }
        { w with session := some began' }
| listening
    (w : Window)
    (joined joined' : Nat) :
    joined ≤ joined' →
      Widens { w with listening := some joined }
        { w with listening := some joined' }
| briefing
    (w : Window)
    (first second : List (String × Nat))
    (b : String × Nat) :
    Widens { w with briefings := first ++ second }
      { w with briefings := first ++ b :: second }

theorem deliver_getElem?
    {i : Nat}
    {m : Room × Nat}
    (hGet : pending[i]? = some m) :
    (plan pending w).deliver[i]? =
      some
        (w.reaches m.1 m.2 &&
          decide (i ∉ cutAt w pending (kindOf w m))) := by
  rw [plan_deliver_eq, List.getElem?_mapIdx, hGet]
  rfl

/- The messages of an index's kind up to its own age. -/
theorem countP_eraseIdx
    {i : Nat}
    {m : Room × Nat}
    (hGet : pending[i]? = some m)
    (hReaches : w.reaches m.1 m.2 = true) :
    upTo w pending m =
      (pending.eraseIdx i).countP
          (fun m' =>
            reachesAs w (kindOf w m) m' &&
              decide (m'.2 ≤ m.2)) +
        1 := by
  rcases List.getElem?_eq_some_iff.mp hGet with ⟨hLt, hAt⟩
  have hSplit :
      pending = pending.take i ++ m :: pending.drop (i + 1) := by
    rw [← hAt, List.getElem_cons_drop, List.take_append_drop]
  have hOwn :
      (reachesAs w (kindOf w m) m && decide (m.2 ≤ m.2)) =
        true := by
    simp [reachesAs, hReaches]
  unfold upTo
  conv_lhs => rw [hSplit]
  rw [List.eraseIdx_eq_take_drop_succ, List.countP_append,
    List.countP_append, List.countP_cons, if_pos hOwn,
    Nat.add_assoc]

theorem upTo_le_countP
    (w : Window)
    (pending : List (Room × Nat))
    (m : Room × Nat) :
    upTo w pending m ≤
      pending.countP (reachesAs w (kindOf w m)) := by
  apply List.countP_mono_left
  intro m' _ hBoth
  exact (Bool.and_eq_true_iff.mp hBoth).1

/- A message the cap cuts is beyond the cap of its kind. -/
theorem lt_upTo_of_mem_cutAt
    {i : Nat}
    {m : Room × Nat}
    (hGet : pending[i]? = some m)
    (hCut : i ∈ cutAt w pending (kindOf w m)) :
    capOf (kindOf w m) < upTo w pending m := by
  have hAge : ageAt pending i = m.2 := by
    simp [ageAt, hGet]
  by_contra hFew
  refine Cutoff.not_mem_beyond ?_ hCut
  rw [hAge,
    countP_ofKind w pending (kindOf w m)
      (fun a => decide (a ≤ m.2))]
  exact Nat.le_of_not_lt hFew

theorem countP_delivered_le
    (w : Window)
    (pending : List (Room × Nat))
    (kind : Nat) :
    (List.range pending.length).countP
        (fun i =>
          ((plan pending w).deliver[i]?).getD false &&
            decide ((pending[i]?).map (kindOf w) = some kind)) ≤
      capOf kind := by
  have hCap :
      (List.range pending.length).countP
          (fun i =>
            shownAt w pending i &&
              decide
                (((pending[i]?).map (kindOf w)).getD 0 =
                  kind)) ≤
        capOf kind := by
    rw [countP_shownAt_kind]
    exact Nat.min_le_left _ _
  refine Nat.le_trans ?_ hCap
  apply List.countP_mono_left
  intro i hMember hBoth
  have hGet :=
    List.getElem?_eq_getElem (List.mem_range.mp hMember)
  rw [deliver_getElem? hGet, hGet] at hBoth
  unfold shownAt
  rw [hGet]
  simpa using hBoth

/- A wider window has a briefing for all it had one for. -/
theorem Widens.briefs
    (hWidens : Widens w w')
    {room : Room}
    {age : Nat}
    (hBriefs : w.briefs room age = true) :
    w'.briefs room age = true := by
  cases hWidens with
  | session w began began' hLe => exact hBriefs
  | listening w joined joined' hLe => exact hBriefs
  | briefing w first second b =>
      cases room with
      | project => cases hBriefs
      | openRoom => cases hBriefs
      | channel name =>
          simp only [Window.briefs, List.any_append,
            List.any_cons, Bool.or_eq_true] at hBriefs ⊢
          rcases hBriefs with hFirst | hSecond
          · exact Or.inl hFirst
          · exact Or.inr (Or.inr hSecond)

/- What reaches a session reaches it in a wider window. -/
theorem Widens.reaches
    (hWidens : Widens w w')
    {room : Room}
    {age : Nat}
    (hReaches : w.reaches room age = true) :
    w'.reaches room age = true := by
  by_cases hBriefs : w.briefs room age = true
  · simp [Window.reaches, hWidens.briefs hBriefs]
  by_cases hBriefs' : w'.briefs room age = true
  · simp [Window.reaches, hBriefs']
  simp only [Window.reaches, if_neg hBriefs] at hReaches
  simp only [Window.reaches, if_neg hBriefs']
  cases hWidens with
  | session w began began' hLe =>
      cases room with
      | project =>
          simp only [decide_eq_true_eq] at hReaches ⊢
          omega
      | openRoom =>
          cases hJoined : w.listening <;>
            simpa [hJoined] using hReaches
      | channel name =>
          cases hJoined : w.listening <;>
            simpa [hJoined] using hReaches
  | listening w joined joined' hLe =>
      cases room with
      | project =>
          cases hBegan : w.session <;>
            simpa [hBegan] using hReaches
      | openRoom =>
          simp only [decide_eq_true_eq] at hReaches ⊢
          omega
      | channel name =>
          simp only [decide_eq_true_eq] at hReaches ⊢
          omega
  | briefing w first second b => exact hReaches

/-
  Every plan delivers the newest of what reaches, and no
  wider window loses a message that a window reached.
-/
theorem newestReach
    (pending : List (Room × Nat))
    (w : Window) :
    NewestReach pending w (plan pending w) ∧
      ∀ w' room age,
        Widens w w' →
          w.reaches room age = true →
            w'.reaches room age = true := by
  refine ⟨⟨?_, ?_, ?_, ?_, ?_, rfl⟩, ?_⟩
  · exact length_plan pending w
  · intro i m hGet hShown
    rw [deliver_getElem? hGet, Option.some.injEq] at hShown
    exact (Bool.and_eq_true_iff.mp hShown).1
  · exact countP_delivered_le w pending
  · intro i m hGet hReaches hHidden
    rw [deliver_getElem? hGet, hReaches, Bool.true_and,
      Option.some.injEq, decide_eq_false_iff_not,
      not_not] at hHidden
    have hMany := lt_upTo_of_mem_cutAt hGet hHidden
    rw [countP_eraseIdx hGet hReaches] at hMany
    omega
  · intro i m hGet hReaches hFew
    rw [deliver_getElem? hGet, hReaches, Bool.true_and,
      Option.some.injEq, decide_eq_true_eq]
    intro hCut
    have hMany := lt_upTo_of_mem_cutAt hGet hCut
    have hLe := upTo_le_countP w pending m
    omega
  · intro w' room age hWidens hReaches
    exact hWidens.reaches hReaches

end Attend
