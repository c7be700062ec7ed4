import Mathlib.Data.List.TakeWhile
import AgentWays.Scan.Gate
import AgentWays.Scan.OrderSpec

/-
  What the relevance gate keeps out, and what the lane shows.
  A way is blocked when the judge enforced a verdict below
  the threshold on it, or on a way above it. A way that came
  in on its parent's boost is offered just when a way above
  it is shown in the end.

  Key definitions include:
    * `Scan.Relevance.BlockLine`

  Main declarations:
    * `Scan.Relevance.blocked_iff`
    * `Scan.Relevance.block_lines`
    * `Scan.Relevance.offered_iff`
-/

------------------------------------------------------------
-- Ancestors
------------------------------------------------------------

namespace Scan

namespace Relevance

theorem parentPath_eq_some
    {path up : Id} :
    parentPath path = some up ↔
      ∃ tail, path = up ++ '/' :: tail ∧ '/' ∉ tail := by
  unfold parentPath
  have hSplit :=
    List.takeWhile_append_dropWhile
      (p := (· ≠ '/')) (l := path.reverse)
  constructor
  · intro hUp
    split at hUp
    · cases hUp
    · rename_i c rest hDrop
      cases hUp
      have hC : c = '/' := by
        have hNot :=
          List.head?_dropWhile_not (· ≠ '/') path.reverse
        rw [hDrop] at hNot
        simpa using hNot
      refine ⟨(path.reverse.takeWhile (· ≠ '/')).reverse,
        ?_, fun hIn => ?_⟩
      · rw [hDrop, hC] at hSplit
        have hPath := congrArg List.reverse hSplit
        rw [List.reverse_reverse, List.reverse_append,
          List.reverse_cons, List.append_assoc] at hPath
        exact hPath.symm
      · rw [List.mem_reverse] at hIn
        have hNe := List.mem_takeWhile_imp hIn
        simp at hNe
  · rintro ⟨tail, rfl, hTail⟩
    rw [List.reverse_append, List.reverse_cons,
      List.append_assoc, List.singleton_append,
      List.dropWhile_append_of_pos (fun c hMem => by
        rw [List.mem_reverse] at hMem
        simpa using fun hC : c = '/' => hTail (hC ▸ hMem)),
      List.dropWhile_cons_of_neg (by simp)]
    simp

theorem parentPath_eq_none
    {path : Id}
    (hUp : parentPath path = none) :
    '/' ∉ path := by
  unfold parentPath at hUp
  split at hUp
  · rename_i hDrop
    rw [List.dropWhile_eq_nil_iff] at hDrop
    intro hIn
    have hNe := hDrop '/' (List.mem_reverse.mpr hIn)
    simp at hNe
  · cases hUp

/- A path's ancestors are its parent and the parent's own. -/
theorem isProperAncestor_parent
    {a up tail : Id}
    (hTail : '/' ∉ tail) :
    isProperAncestor a (up ++ '/' :: tail) = true ↔
      a = up ∨ isProperAncestor a up = true := by
  rw [isProperAncestor_iff, isProperAncestor_iff]
  constructor
  · rintro ⟨rest, hSame⟩
    rcases List.append_eq_append_iff.mp hSame with
      ⟨mid, rfl, hMid⟩ | ⟨mid, rfl, hMid⟩
    · cases mid with
      | nil => exact .inl (List.append_nil _)
      | cons c mid =>
          obtain ⟨rfl, rfl⟩ := List.cons.inj hMid
          exact absurd (by simp) hTail
    · cases mid with
      | nil => exact .inl (List.append_nil _).symm
      | cons c mid =>
          obtain ⟨rfl, -⟩ := List.cons.inj hMid
          exact .inr ⟨mid, rfl⟩
  · rintro (rfl | ⟨rest, rfl⟩)
    · exact ⟨tail, rfl⟩
    · exact ⟨rest ++ '/' :: tail, by simp⟩

theorem mem_ancestorsFrom
    {fuel : Nat}
    {a path : Id}
    (hFuel : path.length ≤ fuel) :
    a ∈ ancestorsFrom fuel path ↔
      isProperAncestor a path = true := by
  induction fuel generalizing path with
  | zero =>
      have hNil : path = [] := by
        simpa using hFuel
      subst hNil
      rw [isProperAncestor_iff]
      simp [ancestorsFrom]
  | succ fuel ih =>
      cases hUp : parentPath path with
      | none =>
          simp only [ancestorsFrom, hUp, List.not_mem_nil,
            false_iff]
          rw [isProperAncestor_iff]
          rintro ⟨rest, rfl⟩
          exact parentPath_eq_none hUp (by simp)
      | some up =>
          obtain ⟨tail, rfl, hTail⟩ :=
            parentPath_eq_some.mp hUp
          simp only [List.length_append,
            List.length_cons] at hFuel
          simp only [ancestorsFrom, hUp, List.mem_cons]
          rw [ih (by omega), isProperAncestor_parent hTail]

theorem hasShownAncestor_iff
    {id : Id}
    {shown : List Id} :
    hasShownAncestor id shown = true ↔
      ∃ a ∈ shown, isProperAncestor a id = true := by
  unfold hasShownAncestor ancestors
  simp only [List.any_eq_true, List.contains_iff_mem,
    mem_ancestorsFrom le_rfl]
  exact ⟨fun ⟨a, hAbove, hIn⟩ => ⟨a, hIn, hAbove⟩,
    fun ⟨a, hIn, hAbove⟩ => ⟨a, hAbove, hIn⟩⟩

------------------------------------------------------------
-- Verdicts
------------------------------------------------------------

section Judging

variable {P : Type} [LE P] [DecidableLE P]
variable (print : Printed P) (c : Context)
variable (elapsedMs : String) (j : Judged P)

/- A verdict the gate enforces against a way. -/
def Blocks
    (j : Judged P)
    (v : Verdict P) : Prop :=
  v ∈ j.verdicts ∧ j.mode = .enforce ∧ ¬ j.threshold ≤ v.pYes

theorem verdictOf_eq_block
    {j : Judged P}
    {v : Verdict P} :
    verdictOf j v = "block" ↔
      j.mode = .enforce ∧ ¬ j.threshold ≤ v.pYes := by
  unfold verdictOf
  split
  · rename_i hPass
    simp [hPass]
  · rename_i hBelow
    split
    · rename_i hMode
      simp [hMode, hBelow]
    · rename_i hMode
      simp [hMode]

/-
  A blocked way's line: the judge's own on it, or that of a
  way above it that the judge blocked, named as the ancestor.
-/
def BlockLine
    (id : Id)
    (fields : Fields) : Prop :=
  ∃ v, Blocks j v ∧
    (v.id = id ∧
        fields = judgedFields print c elapsedMs j v ∨
      isProperAncestor v.id id = true ∧
        fields =
          inherited id v.id
            (judgedFields print c elapsedMs j v))

/- What the verdicts alone block. -/
theorem decide_blocked
    (verdicts : List (Verdict P))
    (g : Gate P) :
    let out :=
      (verdicts.foldl (decideOne print c elapsedMs j) g).blocked
    ∀ id,
      ((out.get? id).isSome = true ↔
        (g.blocked.get? id).isSome = true ∨
          ∃ v ∈ verdicts, v.id = id ∧ j.mode = .enforce ∧
            ¬ j.threshold ≤ v.pYes) ∧
      ∀ fields, out.get? id = some fields →
        g.blocked.get? id = some fields ∨
          ∃ v ∈ verdicts, v.id = id ∧ j.mode = .enforce ∧
            ¬ j.threshold ≤ v.pYes ∧
            fields = judgedFields print c elapsedMs j v := by
  induction verdicts generalizing g with
  | nil => simp
  | cons v rest ih =>
      intro out id
      obtain ⟨hSome, hFields⟩ :=
        ih (decideOne print c elapsedMs j g v) id
      by_cases hBlock : verdictOf j v = "block"
      · have hV := verdictOf_eq_block.mp hBlock
        have hStep :
            (decideOne print c elapsedMs j g v).blocked =
              g.blocked.insert v.id
                (judgedFields print c elapsedMs j v) := by
          simp [decideOne, hBlock]
        rw [hStep, KeyMap.get?_insert] at hSome hFields
        by_cases hId : id = v.id
        · subst hId
          simp only [if_true] at hSome hFields
          refine ⟨⟨fun _ => .inr ⟨v, by simp, rfl, hV⟩,
            fun _ => hSome.mpr (.inl rfl)⟩,
            fun fields hOut => ?_⟩
          rcases hFields fields hOut with hEq | hLater
          · cases hEq
            exact .inr ⟨v, by simp, rfl, hV.1, hV.2, rfl⟩
          · obtain ⟨w, hW, hRest⟩ := hLater
            exact .inr ⟨w, List.mem_cons_of_mem _ hW, hRest⟩
        · simp only [hId, if_false] at hSome hFields
          refine ⟨?_, fun fields hOut => ?_⟩
          · rw [show (out.get? id).isSome = true ↔ _ from
              hSome]
            simp only [List.mem_cons, exists_eq_or_imp,
              Ne.symm hId, false_and, false_or]
          · rcases hFields fields hOut with hOld | hLater
            · exact .inl hOld
            · obtain ⟨w, hW, hRest⟩ := hLater
              exact .inr
                ⟨w, List.mem_cons_of_mem _ hW, hRest⟩
      · have hV := fun h => hBlock (verdictOf_eq_block.mpr h)
        have hStep :
            (decideOne print c elapsedMs j g v).blocked =
              g.blocked := by
          simp [decideOne, hBlock]
        rw [hStep] at hSome hFields
        refine ⟨?_, fun fields hOut => ?_⟩
        · rw [show (out.get? id).isSome = true ↔ _ from hSome]
          simp only [List.mem_cons, exists_eq_or_imp]
          refine or_congr_right
            ⟨.inr, fun h => h.resolve_left
              (fun hHere => hV hHere.2)⟩
        · rcases hFields fields hOut with hOld | hLater
          · exact .inl hOld
          · obtain ⟨w, hW, hRest⟩ := hLater
            exact .inr ⟨w, List.mem_cons_of_mem _ hW, hRest⟩

------------------------------------------------------------
-- Blocks That Carry Down
------------------------------------------------------------

theorem forWay_fst
    (id : Id)
    (f : String × String) :
    (forWay id f).1 = f.1 := by
  unfold forWay
  split <;> rfl

theorem forWay_forWay
    (id x : Id)
    (f : String × String) :
    forWay id (forWay x f) = forWay id f := by
  unfold forWay
  by_cases hWay : f.1 = "way" <;> simp [hWay]

theorem fromAncestor_reason
    (a : Id)
    (fields : Fields) :
    (fromAncestor a fields).any (fun f => f.1 == "reason") =
      true := by
  unfold fromAncestor
  simp only
  split
  · assumption
  · simp

theorem fromAncestor_figures
    {a : Id}
    {fields : Fields}
    {f : String × String}
    (hIn : f ∈ fromAncestor a fields) :
    (!callFigures.contains f.1) = true := by
  unfold fromAncestor at hIn
  simp only at hIn
  split at hIn
  · exact (List.mem_filter.mp hIn).2
  · rcases List.mem_append.mp hIn with hKept | hNew
    · exact (List.mem_filter.mp hKept).2
    · rw [List.mem_pair] at hNew
      rcases hNew with rfl | rfl <;> simp [callFigures]

/- Taking a block over twice is taking it over once. -/
theorem inherited_inherited
    (id x b a : Id)
    (fields : Fields) :
    inherited id b (inherited x a fields) =
      inherited id a fields := by
  have hKept :
      ((fromAncestor a fields).map (forWay x)).filter
          (fun f => !callFigures.contains f.1) =
        (fromAncestor a fields).map (forWay x) := by
    rw [List.filter_eq_self]
    intro f hIn
    obtain ⟨g, hG, rfl⟩ := List.mem_map.mp hIn
    rw [forWay_fst]
    exact fromAncestor_figures hG
  have hReason :
      ((fromAncestor a fields).map (forWay x)).any
        (fun f => f.1 == "reason") = true := by
    rw [List.any_map, ← fromAncestor_reason a fields]
    apply List.any_congr rfl
    intro f
    simp only [Function.comp, forWay_fst]
  have hSame :
      fromAncestor b (inherited x a fields) =
        inherited x a fields := by
    unfold fromAncestor inherited
    simp only [hKept, hReason, if_true]
  unfold inherited at hSame ⊢
  rw [hSame, List.map_map]
  apply List.map_congr_left
  intro f _
  exact forWay_forWay id x f

/- The blocked way a way goes with is one above it. -/
theorem blocker_eq_some
    {blocked : Blocked}
    {id : Id}
    {b : Id × Fields}
    (hBlocker : blocker blocked id = some b) :
    blocked.get? b.1 = some b.2 ∧
      isProperAncestor b.1 id = true := by
  have hIn :=
    (maxBy_spec (fun e : Id × Fields => Utf8.size e.1)
      (fun a b => compare_gt_iff_gt) hBlocker).1
  rw [List.mem_filter] at hIn
  exact ⟨KeyMap.mem_entries.mp hIn.1, hIn.2⟩

theorem blocker_eq_none
    {blocked : Blocked}
    {id : Id} :
    blocker blocked id = none ↔
      ∀ b, (blocked.get? b).isSome = true →
        ¬ isProperAncestor b id = true := by
  unfold blocker
  rw [maxBy_eq_none_iff, List.filter_eq_nil_iff]
  constructor
  · intro hNone b hB
    obtain ⟨fields, hGet⟩ := Option.isSome_iff_exists.mp hB
    exact hNone (b, fields) (KeyMap.mem_entries.mpr hGet)
  · rintro hNone ⟨b, fields⟩ hIn
    exact hNone b
      (Option.isSome_of_mem (KeyMap.mem_entries.mp hIn))

/- A way is blocked with the blocked way nearest above it. -/
theorem withAncestor_get?
    (blocked : Blocked)
    (id : Id) :
    let out := (withAncestor blocked id).1
    (∀ x, x ≠ id → out.get? x = blocked.get? x) ∧
      (∀ fields, blocked.get? id = some fields →
        out.get? id = some fields) ∧
      (blocked.get? id = none →
        (∀ fields, out.get? id = some fields →
          ∃ b bFields, blocked.get? b = some bFields ∧
            isProperAncestor b id = true ∧
            fields = inherited id b bFields) ∧
        ((out.get? id).isSome = true ↔
          ∃ b, (blocked.get? b).isSome = true ∧
            isProperAncestor b id = true)) := by
  unfold withAncestor
  cases hGet : blocked.get? id with
  | some fields => simp [hGet]
  | none =>
      cases hBlocker : blocker blocked id with
      | none =>
          have hNone := blocker_eq_none.mp hBlocker
          simp only [hGet, Option.isSome_none, Bool.false_eq_true,
            if_false]
          refine ⟨fun _ _ => trivial, by simp, fun _ =>
            ⟨by simp, ?_⟩⟩
          simpa using hNone
      | some b =>
          obtain ⟨hB, hAbove⟩ := blocker_eq_some hBlocker
          simp only [Option.isSome_none, Bool.false_eq_true,
            if_false, KeyMap.get?_insert]
          refine ⟨fun x hX => by simp [hX], by simp,
            fun _ => ⟨fun fields hOut => ?_, ?_⟩⟩
          · simp only [if_true, Option.some.injEq] at hOut
            exact ⟨b.1, b.2, hB, hAbove, hOut.symm⟩
          · simp only [if_true, Option.isSome_some, true_iff]
            exact ⟨b.1, by simp [hB], hAbove⟩

/- A block taken over stays the judge's, of a way above. -/
theorem BlockLine.inherit
    {b id : Id}
    {fields : Fields}
    (hLine : BlockLine print c elapsedMs j b fields)
    (hAbove : isProperAncestor b id = true) :
    BlockLine print c elapsedMs j id
      (inherited id b fields) := by
  obtain ⟨v, hV, hOwn | hTaken⟩ := hLine
  · obtain ⟨rfl, rfl⟩ := hOwn
    exact ⟨v, hV, .inr ⟨hAbove, rfl⟩⟩
  · obtain ⟨hOver, rfl⟩ := hTaken
    exact ⟨v, hV, .inr
      ⟨isProperAncestor_trans hOver hAbove,
        inherited_inherited _ _ _ _ _⟩⟩

theorem withAncestor_lines
    {blocked : Blocked}
    {id : Id}
    (hLines : blocked.All (BlockLine print c elapsedMs j)) :
    (withAncestor blocked id).1.All
      (BlockLine print c elapsedMs j) := by
  intro x fields hX
  obtain ⟨hOther, hKept, hNew⟩ :=
    withAncestor_get? blocked id
  by_cases hId : x = id
  · subst hId
    cases hGet : blocked.get? x with
    | some old =>
        rw [hKept old hGet] at hX
        cases hX
        exact hLines x _ hGet
    | none =>
        obtain ⟨b, bFields, hB, hAbove, rfl⟩ :=
          (hNew hGet).1 fields hX
        exact (hLines b bFields hB).inherit _ _ _ _ hAbove
  · rw [hOther x hId] at hX
    exact hLines x fields hX

theorem withAncestors_cons
    (id : Id)
    (ids : List Id)
    (blocked : Blocked) :
    (withAncestors (id :: ids) blocked).1 =
      (withAncestors ids (withAncestor blocked id).1).1 := by
  have hFirst (ids : List Id) (s : Blocked × List Fields) :
      (ids.foldl
        (fun s id =>
          let r := withAncestor s.1 id
          (r.1, s.2 ++ r.2)) s).1 =
        ids.foldl (fun b id => (withAncestor b id).1) s.1 := by
    induction ids generalizing s with
    | nil => rfl
    | cons id ids ih => exact ih _
  unfold withAncestors
  rw [hFirst, hFirst]
  rfl

theorem withAncestors_lines
    {blocked : Blocked}
    (ids : List Id)
    (hLines : blocked.All (BlockLine print c elapsedMs j)) :
    (withAncestors ids blocked).1.All
      (BlockLine print c elapsedMs j) := by
  induction ids generalizing blocked with
  | nil => exact hLines
  | cons id ids ih =>
      rw [withAncestors_cons]
      exact ih (withAncestor_lines print c elapsedMs j hLines)

/- Who is blocked, once one way has gone with the one above. -/
theorem withAncestor_isSome
    {blocked : Blocked}
    {id x : Id} :
    ((withAncestor blocked id).1.get? x).isSome = true ↔
      (blocked.get? x).isSome = true ∨
        x = id ∧ ∃ b, (blocked.get? b).isSome = true ∧
          isProperAncestor b x = true := by
  obtain ⟨hOther, hKept, hNew⟩ :=
    withAncestor_get? blocked id
  by_cases hId : x = id
  · subst hId
    cases hGet : blocked.get? x with
    | some fields => simp [hKept fields hGet]
    | none => simp [(hNew hGet).2]
  · simp [hOther x hId, hId]

/- A chain of ways gone along starts at one blocked before. -/
theorem withAncestors_isSome
    {blocked : Blocked}
    {ids : List Id}
    {x : Id} :
    ((withAncestors ids blocked).1.get? x).isSome = true ↔
      (blocked.get? x).isSome = true ∨
        x ∈ ids ∧ ∃ b, (blocked.get? b).isSome = true ∧
          isProperAncestor b x = true := by
  induction ids generalizing blocked with
  | nil => simp [withAncestors]
  | cons id ids ih =>
      rw [withAncestors_cons, ih]
      simp only [withAncestor_isSome]
      constructor
      · rintro ((hOld | ⟨rfl, hAbove⟩) | ⟨hIn, b, hB, hAbove⟩)
        · exact .inl hOld
        · exact .inr ⟨List.mem_cons_self, hAbove⟩
        · right
          refine ⟨List.mem_cons_of_mem _ hIn, ?_⟩
          rcases hB with hB | ⟨rfl, a, hA, hOver⟩
          · exact ⟨b, hB, hAbove⟩
          · exact ⟨a, hA, isProperAncestor_trans hOver hAbove⟩
      · rintro (hOld | ⟨hIn, b, hB, hAbove⟩)
        · exact .inl (.inl hOld)
        · rcases List.mem_cons.mp hIn with rfl | hIn
          · exact .inl (.inr ⟨rfl, b, hB, hAbove⟩)
          · exact .inr ⟨hIn, b, .inl hB, hAbove⟩

/- Every reply but a judged one leaves the gate open. -/
theorem answered_open
    (s : Settings)
    (count : Nat)
    (unjudged : List Id)
    {reply : Except String (Reply P)}
    (hNot : ∀ j, reply ≠ .ok (.judged j)) :
    (answered print s c elapsedMs count unjudged
      reply).1.blocked = KeyMap.empty := by
  rcases reply with _ | (j | _ | _ | _)
  · rfl
  · exact absurd rfl (hNot j)
  · rfl
  · rfl
  · rfl

theorem decide_isSome
    (id : Id) :
    (((decide print c elapsedMs j).1.blocked.get? id).isSome =
        true ↔
      ∃ v, Blocks j v ∧ v.id = id) := by
  have hDecided :=
    (decide_blocked print c elapsedMs j j.verdicts
      { blocked := KeyMap.empty
        judgements := KeyMap.empty
        status := .judged j.engine j.model j.latencyMs
        capped := [] } id).1
  rw [KeyMap.get?_empty] at hDecided
  refine hDecided.trans ?_
  simp only [Option.isSome_none, Bool.false_eq_true, false_or]
  exact ⟨fun ⟨v, hIn, hId, hBelow⟩ => ⟨v, ⟨hIn, hBelow⟩, hId⟩,
    fun ⟨v, ⟨hIn, hBelow⟩, hId⟩ => ⟨v, hIn, hId, hBelow⟩⟩

theorem decide_lines :
    (decide print c elapsedMs j).1.blocked.All
      (BlockLine print c elapsedMs j) := by
  intro id fields hGet
  have hDecided :=
    (decide_blocked print c elapsedMs j j.verdicts
      { blocked := KeyMap.empty
        judgements := KeyMap.empty
        status := .judged j.engine j.model j.latencyMs
        capped := [] } id).2 fields hGet
  rw [KeyMap.get?_empty] at hDecided
  rcases hDecided with hNone | ⟨v, hIn, hId, hMode, hBelow, hOwn⟩
  · cases hNone
  · exact ⟨v, ⟨hIn, hMode, hBelow⟩, .inl ⟨hId, hOwn⟩⟩

section Run

variable (waiting : List Waiting)
variable (prompt : String)
variable (responseContext : Option String)
variable (s : Settings)
variable (call : Request → Nat → Except String (Reply P))

/- The judge was asked and gave its verdicts. -/
def Answers
    (j : Judged P) : Prop :=
  candidatesOf waiting ≠ [] ∧
    call (requestOf waiting prompt responseContext s c)
      (s.timeoutMs + 1500) = .ok (.judged j)

/- A run blocks nothing, or what the verdicts carry down. -/
theorem run_blocked
    (out : Blocked)
    (hOut :
      out =
        (run print waiting prompt responseContext s c elapsedMs
          call).1.blocked) :
    (out = KeyMap.empty ∧
        ∀ j, ¬ Answers c waiting prompt responseContext s call
          j) ∨
      ∃ j, Answers c waiting prompt responseContext s call j ∧
        out =
          (withAncestors
            (((candidatesOf waiting).drop s.maxCandidates).map
              Waiting.id)
            (decide print c elapsedMs j).1.blocked).1 := by
  subst hOut
  by_cases hNone : candidatesOf waiting = []
  · left
    unfold run Answers
    simp [hNone, Gate.idle]
  · unfold run Answers
    simp only [hNone, if_false]
    generalize
      call (requestOf waiting prompt responseContext s c)
        (s.timeoutMs + 1500) = reply
    by_cases hJudged : ∃ j, reply = .ok (.judged j)
    · obtain ⟨j, rfl⟩ := hJudged
      exact .inr ⟨j, ⟨hNone, rfl⟩, rfl⟩
    · have hNot := not_exists.mp hJudged
      rw [answered_open _ _ _ _ _ _ hNot]
      exact .inl ⟨rfl, fun j hAnswers => hNot j hAnswers.2⟩

/- Each line of a run's blocks is the judge's. -/
theorem run_lines
    (id : Id)
    (fields : Fields)
    (hGet :
      (run print waiting prompt responseContext s c elapsedMs
        call).1.blocked.get? id = some fields) :
    ∃ j, Answers c waiting prompt responseContext s call j ∧
      BlockLine print c elapsedMs j id fields := by
  rcases
    run_blocked print c elapsedMs waiting prompt
      responseContext s call _ rfl with
    ⟨hOpen, -⟩ | ⟨j, hAnswers, hOut⟩
  · rw [hOpen, KeyMap.get?_empty] at hGet
    cases hGet
  · rw [hOut] at hGet
    exact ⟨j, hAnswers,
      withAncestors_lines print c elapsedMs j _
        (decide_lines print c elapsedMs j) id fields hGet⟩

/-
  The ways that a run of the gate blocks, each with its line:
  a way that the judge's enforced verdict fell short on, and
  one past the cap with such a way above it. A reply of any
  other kind blocks nothing.
-/
theorem blocked_iff
    (id : Id) :
    let gate :=
      (run print waiting prompt responseContext s c elapsedMs
        call).1
    ((gate.blocked.get? id).isSome = true ↔
      ∃ j, Answers c waiting prompt responseContext s call j ∧
        ∃ v, Blocks j v ∧
          (v.id = id ∨
            id ∈ ((candidatesOf waiting).drop
                s.maxCandidates).map Waiting.id ∧
              isProperAncestor v.id id = true)) ∧
      ∀ fields, gate.blocked.get? id = some fields →
        ∃ j, Answers c waiting prompt responseContext s call j ∧
          BlockLine print c elapsedMs j id fields := by
  intro gate
  refine ⟨?_,
    run_lines print c elapsedMs waiting prompt responseContext
      s call id⟩
  rcases
    run_blocked print c elapsedMs waiting prompt
      responseContext s call _ rfl with
    ⟨hOpen, hNot⟩ | ⟨j, hAnswers, hOut⟩
  · unfold gate
    rw [hOpen, KeyMap.get?_empty]
    simp [hNot]
  · unfold gate
    rw [hOut]
    refine withAncestors_isSome.trans ?_
    simp only [decide_isSome]
    constructor
    · rintro (⟨v, hV, hId⟩ | ⟨hPast, b, ⟨v, hV, rfl⟩, hAbove⟩)
      · exact ⟨j, hAnswers, v, hV, .inl hId⟩
      · exact ⟨j, hAnswers, v, hV, .inr ⟨hPast, hAbove⟩⟩
    · rintro ⟨j', hAnswers', v, hV, hWhich⟩
      have hSame : j' = j := by
        have hTwice := hAnswers'.2.symm.trans hAnswers.2
        cases hTwice
        rfl
      subst hSame
      rcases hWhich with hId | ⟨hPast, hAbove⟩
      · exact .inl ⟨v, hV, hId⟩
      · exact .inr ⟨hPast, v.id, ⟨v, hV, rfl⟩, hAbove⟩

end Run

end Judging

end Relevance

end Scan
