import AgentWays.Scan.GateSpec

/-
  What becomes of each hit the prompt lane admits. It follows
  from the gate's blocks and the ways that are shown in the
  end: a parent stands before its children, so whether a way
  above a hit is shown is settled when the hit comes up.

  Key definitions include:
    * `Scan.Relevance.keptBack`
    * `Scan.Relevance.Settled`

  Main declarations:
    * `Scan.Relevance.admitHits_settled`
-/

------------------------------------------------------------
-- What Keeps A Hit Back
------------------------------------------------------------

namespace Scan

namespace Relevance

variable {S σ : Type}

/- Whether a way above is blocked. -/
def hasBlockedAncestor
    (blocked : Blocked)
    (id : Id) : Bool :=
  blocked.entries.any fun e => isProperAncestor e.1 id

theorem hasBlockedAncestor_iff
    {blocked : Blocked}
    {id : Id} :
    hasBlockedAncestor blocked id = true ↔
      ∃ b, (blocked.get? b).isSome = true ∧
        isProperAncestor b id = true := by
  unfold hasBlockedAncestor
  rw [List.any_eq_true]
  constructor
  · rintro ⟨⟨b, fields⟩, hIn, hAbove⟩
    exact ⟨b, Option.isSome_of_mem (KeyMap.mem_entries.mp hIn),
      hAbove⟩
  · rintro ⟨b, hB, hAbove⟩
    obtain ⟨fields, hGet⟩ := Option.isSome_iff_exists.mp hB
    exact ⟨(b, fields), KeyMap.mem_entries.mpr hGet, hAbove⟩

/-
  What keeps a hit back, by the gate's blocks and the ways
  that are shown in all: none for a hit that is offered.
-/
def keptBack
    (blocked : Blocked)
    (waiting : List Waiting)
    (shown : List Id)
    (h : Hit S Payload) : Option Result :=
  match blockResult blocked h.id with
  | some result => some result
  | none =>
      if h.payload.needsParent &&
          !hasShownAncestor h.id shown then
        if waiting.any (fun w => w.id == h.id) &&
            hasBlockedAncestor blocked h.id then
          some .ancestorBlock
        else some .withheld
      else none

/- A hit's record says what kept it back, or what came of it. -/
structure Settled
    (blocked : Blocked)
    (waiting : List Waiting)
    (shown : List Id)
    (h : Hit S Payload)
    (o : Outcome S) : Prop where
  way : o.way = h.id
  channel : o.channel = h.payload.channel
  score : o.score = h.score
  kept :
    ∀ r, keptBack blocked waiting shown h = some r →
      o.result = r
  offered :
    keptBack blocked waiting shown h = none →
      ∃ outcome, o.result = .offered outcome

------------------------------------------------------------
-- Reasons
------------------------------------------------------------

/- The one reason that a block's line gives is an ancestor. -/
def NamesAncestor
    (fields : Fields) : Prop :=
  ∀ f ∈ fields, f.1 = "reason" → f.2 = "ancestor"

theorem NamesAncestor.carried
    {fields : Fields}
    (hNames : NamesAncestor fields)
    (id b : Id) :
    NamesAncestor (inherited id b fields) := by
  intro f hIn hReason
  obtain ⟨g, hG, rfl⟩ := List.mem_map.mp hIn
  rw [forWay_fst] at hReason
  have hSame : forWay id g = g := by
    unfold forWay
    rw [hReason]
    simp
  rw [hSame]
  unfold fromAncestor at hG
  simp only at hG
  split at hG
  · exact hNames g (List.mem_filter.mp hG).1 hReason
  · rcases List.mem_append.mp hG with hKept | hNew
    · exact hNames g (List.mem_filter.mp hKept).1 hReason
    · rw [List.mem_pair] at hNew
      rcases hNew with rfl | rfl
      · rfl
      · simp at hReason

/- A block that is taken over is recorded as one. -/
theorem NamesAncestor.contains_inherited
    {fields : Fields}
    (hNames : NamesAncestor fields)
    (id b : Id) :
    (inherited id b fields).contains ("reason", "ancestor") =
      true := by
  rw [List.contains_iff_mem]
  have hAny := fromAncestor_reason b fields
  rw [List.any_eq_true] at hAny
  obtain ⟨f, hIn, hReason⟩ := hAny
  have hFirst : f.1 = "reason" := by simpa using hReason
  have hMem : forWay id f ∈ inherited id b fields :=
    List.mem_map_of_mem hIn
  have hKey : (forWay id f).1 = "reason" := by
    rw [forWay_fst, hFirst]
  have hSecond := hNames.carried id b (forWay id f) hMem hKey
  rw [← hKey, ← hSecond]
  exact hMem

section Judging

variable {P : Type} [LE P] [DecidableLE P]

/- A judge's own line gives no reason. -/
theorem namesAncestor_judgedFields
    (print : Printed P)
    (c : Context)
    (elapsedMs : String)
    (j : Judged P)
    (v : Verdict P) :
    NamesAncestor (judgedFields print c elapsedMs j v) := by
  intro f hIn hReason
  simp [judgedFields, Context.tail] at hIn
  rcases hIn with rfl | rfl | rfl | rfl | rfl | rfl | rfl |
    rfl | rfl | rfl | rfl | rfl | rfl | rfl | rfl | rfl <;>
  simp at hReason

theorem BlockLine.namesAncestor
    {print : Printed P}
    {c : Context}
    {elapsedMs : String}
    {j : Judged P}
    {id : Id}
    {fields : Fields}
    (hLine : BlockLine print c elapsedMs j id fields) :
    NamesAncestor fields := by
  obtain ⟨v, -, ⟨-, rfl⟩ | ⟨-, rfl⟩⟩ := hLine
  · exact namesAncestor_judgedFields print c elapsedMs j v
  · exact
      (namesAncestor_judgedFields print c elapsedMs j
        v).carried id v.id

end Judging

------------------------------------------------------------
-- Blocks As They Grow
------------------------------------------------------------

/-
  The blocks of a lane: the gate's, and those taken over for
  a way that was kept back, which is one already seen.
-/
structure Grown
    (blocked : Blocked)
    (seen : List Id)
    (now : Blocked) : Prop where
  reasons : now.All fun _ fields => NamesAncestor fields
  kept :
    ∀ id fields, blocked.get? id = some fields →
      now.get? id = some fields
  added :
    ∀ id, blocked.get? id = none →
      (now.get? id).isSome = true →
      id ∈ seen ∧ ∃ b, (blocked.get? b).isSome = true ∧
        isProperAncestor b id = true

theorem Grown.refl
    {blocked : Blocked}
    (hReasons :
      blocked.All fun _ fields => NamesAncestor fields) :
    Grown blocked [] blocked where
  reasons := hReasons
  kept _ _ hGet := hGet
  added _ hNone hSome := by
    rw [hNone] at hSome
    cases hSome

theorem Grown.seen
    {blocked now : Blocked}
    {seen : List Id}
    (hGrown : Grown blocked seen now)
    (id : Id) :
    Grown blocked (id :: seen) now where
  reasons := hGrown.reasons
  kept := hGrown.kept
  added x hNone hSome := by
    obtain ⟨hIn, hAbove⟩ := hGrown.added x hNone hSome
    exact ⟨List.mem_cons_of_mem id hIn, hAbove⟩

theorem Grown.get?_unseen
    {blocked now : Blocked}
    {seen : List Id}
    (hGrown : Grown blocked seen now)
    {id : Id}
    (hNew : id ∉ seen) :
    now.get? id = blocked.get? id := by
  cases hGet : blocked.get? id with
  | some fields => exact hGrown.kept id fields hGet
  | none =>
      cases hNow : now.get? id with
      | none => rfl
      | some fields =>
          have hSome : (now.get? id).isSome = true := by
            rw [hNow]
            rfl
          exact absurd (hGrown.added id hGet hSome).1 hNew

/- A way above is blocked now just when one was at first. -/
theorem Grown.above_iff
    {blocked now : Blocked}
    {seen : List Id}
    (hGrown : Grown blocked seen now)
    {id : Id} :
    (∃ b, (now.get? b).isSome = true ∧
        isProperAncestor b id = true) ↔
      ∃ b, (blocked.get? b).isSome = true ∧
        isProperAncestor b id = true := by
  constructor
  · rintro ⟨b, hNow, hAbove⟩
    cases hB : blocked.get? b with
    | some fields => exact ⟨b, by rw [hB]; rfl, hAbove⟩
    | none =>
        obtain ⟨-, a, hA, hOver⟩ := hGrown.added b hB hNow
        exact ⟨a, hA, isProperAncestor_trans hOver hAbove⟩
  · rintro ⟨b, hB, hAbove⟩
    obtain ⟨fields, hGet⟩ := Option.isSome_iff_exists.mp hB
    exact ⟨b, by rw [hGrown.kept b fields hGet]; rfl, hAbove⟩

theorem Grown.taken
    {blocked now : Blocked}
    {seen : List Id}
    (hGrown : Grown blocked seen now)
    (id : Id) :
    Grown blocked (id :: seen) (withAncestor now id).1 where
  reasons x fields hGet := by
    obtain ⟨hOther, hKept, hNew⟩ := withAncestor_get? now id
    by_cases hId : x = id
    · subst hId
      cases hNow : now.get? x with
      | some old =>
          rw [hKept _ hNow] at hGet
          cases hGet
          exact hGrown.reasons x _ hNow
      | none =>
          obtain ⟨b, bFields, hB, -, rfl⟩ :=
            (hNew hNow).1 fields hGet
          exact (hGrown.reasons b bFields hB).carried x b
    · rw [hOther x hId] at hGet
      exact hGrown.reasons x fields hGet
  kept x fields hGet := by
    obtain ⟨hOther, hKept, -⟩ := withAncestor_get? now id
    have hNow := hGrown.kept x fields hGet
    by_cases hId : x = id
    · subst hId
      exact hKept fields hNow
    · rw [hOther x hId, hNow]
  added x hNone hSome := by
    rcases withAncestor_isSome.mp hSome with
      hNow | ⟨rfl, hAbove⟩
    · exact (hGrown.seen id).added x hNone hNow
    · exact ⟨List.mem_cons_self, hGrown.above_iff.mp hAbove⟩

------------------------------------------------------------
-- Admission
------------------------------------------------------------

section Admission

variable {P : Type} {blocked : Blocked}
variable (waiting : List Waiting)
variable (deliver : Hit S Payload → σ → String × Bool × σ)

theorem blockResult_unseen
    {now : Blocked}
    {seen : List Id}
    (hGrown : Grown blocked seen now)
    {id : Id}
    (hNew : id ∉ seen) :
    blockResult now id = blockResult blocked id := by
  unfold blockResult
  rw [hGrown.get?_unseen hNew]

/- What a way kept back for its parent is recorded as. -/
theorem blockResult_withAncestor
    {now : Blocked}
    {seen : List Id}
    (hGrown : Grown blocked seen now)
    {id : Id}
    (hNone : now.get? id = none) :
    blockResult (withAncestor now id).1 id =
      if hasBlockedAncestor blocked id then some .ancestorBlock
      else none := by
  have hSame :
      (hasBlockedAncestor blocked id = true) ↔
        ((withAncestor now id).1.get? id).isSome = true := by
    rw [hasBlockedAncestor_iff, ← hGrown.above_iff,
      ((withAncestor_get? now id).2.2 hNone).2]
  unfold blockResult
  cases hGet : (withAncestor now id).1.get? id with
  | none =>
      rw [hGet] at hSame
      simp [hSame]
  | some fields =>
      obtain ⟨b, bFields, hB, -, rfl⟩ :=
        ((withAncestor_get? now id).2.2 hNone).1 fields hGet
      have hContains :=
        (hGrown.reasons b bFields hB).contains_inherited id b
      rw [hGet] at hSame
      rw [if_pos (hSame.mpr rfl), Option.map_some,
        if_pos hContains]

/- One hit: what its record says, and what it leaves. -/
theorem admitOne_spec
    {seen : List Id}
    {l : Lane S σ}
    (hGrown : Grown blocked seen l.blocked)
    {h : Hit S Payload}
    (hNew : h.id ∉ seen) :
    let out := admitOne waiting deliver l h
    Grown blocked (h.id :: seen) out.1.blocked ∧
      out.1.outcomes = l.outcomes ∧
      (∀ r, keptBack blocked waiting l.shown h = some r →
        out.2 = r ∧ out.1.shown = l.shown) ∧
      (keptBack blocked waiting l.shown h = none →
        (∃ outcome, out.2 = .offered outcome) ∧
          (out.1.shown = l.shown ∨
            out.1.shown = l.shown ++ [h.id])) := by
  unfold admitOne keptBack
  have hBlock := blockResult_unseen hGrown hNew
  rw [hBlock]
  cases hOwn : blockResult blocked h.id with
  | some result =>
      refine ⟨hGrown.seen h.id, rfl, fun r hR => ?_, by simp⟩
      cases hR
      exact ⟨rfl, rfl⟩
  | none =>
      have hNone : l.blocked.get? h.id = none := by
        unfold blockResult at hBlock hOwn
        rw [hOwn] at hBlock
        simpa using hBlock
      by_cases hKeep :
          (h.payload.needsParent &&
            !hasShownAncestor h.id l.shown) = true
      · obtain ⟨hNeeds, hShown⟩ := Bool.and_eq_true_iff.mp hKeep
        rw [Bool.not_eq_true'] at hShown
        simp only [hNeeds, hShown, withheldForParent, if_true,
          Bool.false_eq_true, if_false, Bool.not_false,
          Bool.and_self]
        by_cases hWaits :
            waiting.any (fun w => w.id == h.id) = true
        · simp only [hWaits, if_true, Bool.true_and]
          refine ⟨hGrown.taken h.id, trivial, fun r hR => ?_, ?_⟩
          · rw [blockResult_withAncestor hGrown hNone]
            split at hR
            · rename_i hAbove
              cases hR
              simp [hAbove]
            · rename_i hAbove
              cases hR
              simp [hAbove]
          · intro hOffered
            split at hOffered <;> cases hOffered
        · rw [Bool.not_eq_true] at hWaits
          simp only [hWaits, Bool.false_eq_true, if_false,
            Bool.false_and, hBlock, hOwn]
          refine ⟨hGrown.seen h.id, trivial, fun r hR => ?_,
            by simp⟩
          cases hR
          simp
      · have hLets :
            (if h.payload.needsParent then
              withheldForParent waiting l h.id
            else none) = none := by
          split
          · rename_i hNeeds
            rw [hNeeds, Bool.true_and, Bool.not_eq_true,
              Bool.not_eq_false'] at hKeep
            rw [withheldForParent, if_pos hKeep]
          · rfl
        simp only [hLets, hKeep]
        refine ⟨hGrown.seen h.id, trivial, by simp, fun _ =>
          ⟨⟨_, rfl⟩, ?_⟩⟩
        split
        · exact .inr rfl
        · exact .inl rfl

/- Ways that are not above a way leave its shown ancestor. -/
theorem hasShownAncestor_append
    {id : Id}
    {shown more : List Id}
    (hMore : ∀ x ∈ more, ¬ isProperAncestor x id = true) :
    hasShownAncestor id (shown ++ more) =
      hasShownAncestor id shown := by
  rw [Bool.eq_iff_iff, hasShownAncestor_iff,
    hasShownAncestor_iff]
  constructor
  · rintro ⟨a, hIn, hAbove⟩
    rcases List.mem_append.mp hIn with hOld | hNew
    · exact ⟨a, hOld, hAbove⟩
    · exact absurd hAbove (hMore a hNew)
  · rintro ⟨a, hIn, hAbove⟩
    exact ⟨a, List.mem_append_left more hIn, hAbove⟩

theorem not_isProperAncestor_self
    (id : Id) :
    ¬ isProperAncestor id id = true := by
  intro hAbove
  exact lt_irrefl _ (size_lt_of_isProperAncestor hAbove)

theorem ways_of_settled
    {shown : List Id}
    {hits : List (Hit S Payload)}
    {records : List (Outcome S)}
    (hSettled :
      List.Forall₂ (Settled blocked waiting shown) hits
        records) :
    records.map Outcome.way = hits.map Hit.id := by
  induction hSettled with
  | nil => rfl
  | cons hHead _ ih =>
      rw [List.map_cons, List.map_cons, hHead.way, ih]

/- What the hits still to come leave: one record for each. -/
structure Admitted
    (blocked : Blocked)
    (waiting : List Waiting)
    (first : Nat)
    (hits : List (Hit S Payload))
    (before after : Lane S σ) : Prop where
  records :
    ∃ new, after.outcomes = before.outcomes ++ new ∧
      List.Forall₂ (Settled blocked waiting after.shown) hits
        new ∧
      new.map Outcome.rank = List.range' first hits.length ∧
      ∃ more, after.shown = before.shown ++ more ∧
        ∀ x ∈ more, ∃ o ∈ new, o.way = x ∧
          ∃ outcome, o.result = .offered outcome

/- A parent comes before its children. -/
theorem admitFrom_spec
    (print : Printed P)
    (judgements : KeyMap Id (Judgement P))
    {seen : List Id}
    {l : Lane S σ}
    (hGrown : Grown blocked seen l.blocked)
    (hits : List (Hit S Payload))
    (hDistinct : (hits.map Hit.id).Nodup)
    (hNew : ∀ h ∈ hits, h.id ∉ seen)
    (hParents :
      hits.Pairwise fun a b =>
        ¬ isProperAncestor b.id a.id = true)
    (first : Nat) :
    Admitted blocked waiting first hits l
      (admitFrom print judgements waiting deliver first l
        hits) := by
  induction hits generalizing seen l first with
  | nil =>
      exact ⟨[], (List.append_nil _).symm, .nil, rfl, [],
        (List.append_nil _).symm, by simp⟩
  | cons h rest ih =>
      have hOne :=
        admitOne_spec waiting deliver hGrown
          (hNew h List.mem_cons_self)
      obtain ⟨hHead, hRest⟩ := List.pairwise_cons.mp hParents
      rw [List.map_cons, List.nodup_cons] at hDistinct
      have hUnseen : ∀ x ∈ rest, x.id ∉ h.id :: seen := by
        intro x hX hSeen
        rcases List.mem_cons.mp hSeen with hSame | hOld
        · exact hDistinct.1 (hSame ▸ List.mem_map_of_mem hX)
        · exact hNew x (List.mem_cons_of_mem h hX) hOld
      unfold admitFrom
      generalize admitOne waiting deliver l h = r at hOne ⊢
      obtain ⟨hGrown', hOutcomes, hKept, hOffered⟩ := hOne
      obtain ⟨new, hOut, hAll, hRanks, more, hShown, hMore⟩ :=
        (@ih (h.id :: seen)
          (recordHit print judgements first h r.1 r.2)
          hGrown' hDistinct.2 hUnseen hRest (first + 1)).records
      have hOwn :
          ∃ own, r.1.shown = l.shown ++ own ∧
            ∀ x ∈ own, x = h.id ∧
              ∃ outcome, r.2 = .offered outcome := by
        cases hBack : keptBack blocked waiting l.shown h with
        | some result =>
            exact ⟨[], by rw [(hKept result hBack).2,
              List.append_nil], by simp⟩
        | none =>
            obtain ⟨hOutcome, hSame | hAdded⟩ := hOffered hBack
            · exact ⟨[], by rw [hSame, List.append_nil],
                by simp⟩
            · exact ⟨[h.id], hAdded, by simpa using hOutcome⟩
      obtain ⟨own, hHere, hOwn⟩ := hOwn
      -- What is shown from here on is not above this hit.
      have hLater :
          ∀ x ∈ own ++ more,
            ¬ isProperAncestor x h.id = true := by
        intro x hX
        rcases List.mem_append.mp hX with hX | hX
        · rw [(hOwn x hX).1]
          exact not_isProperAncestor_self h.id
        · obtain ⟨o, hO, rfl, -⟩ := hMore x hX
          have hWay : o.way ∈ rest.map Hit.id := by
            rw [← ways_of_settled waiting hAll]
            exact List.mem_map_of_mem hO
          obtain ⟨y, hY, hSame⟩ := List.mem_map.mp hWay
          rw [← hSame]
          exact hHead y hY
      have hEnd :
          (admitFrom print judgements waiting deliver
            (first + 1)
            (recordHit print judgements first h r.1 r.2)
            rest).shown = l.shown ++ (own ++ more) := by
        rw [← List.append_assoc, ← hHere]
        exact hShown
      have hBack :
          keptBack blocked waiting
              (l.shown ++ (own ++ more)) h =
            keptBack blocked waiting l.shown h := by
        unfold keptBack
        rw [hasShownAncestor_append hLater]
      refine ⟨recordOf print judgements first h r.1 r.2 :: new,
        ?_, .cons ?_ hAll, ?_, own ++ more, hEnd, ?_⟩
      · rw [← hOutcomes]
        exact hOut.trans (List.append_assoc _ _ _)
      · simp only [hEnd]
        exact
          { way := rfl
            channel := rfl
            score := rfl
            kept := fun result hResult =>
              (hKept result (hBack ▸ hResult)).1
            offered := fun hNone =>
              (hOffered (hBack ▸ hNone)).1 }
      · rw [List.map_cons, hRanks, List.length_cons,
          List.range'_succ]
        rfl
      · intro x hX
        rcases List.mem_append.mp hX with hX | hX
        · obtain ⟨rfl, hOutcome⟩ := hOwn x hX
          exact ⟨_, List.mem_cons_self, rfl, hOutcome⟩
        · obtain ⟨o, hO, hRecord⟩ := hMore x hX
          exact ⟨o, List.mem_cons_of_mem _ hO, hRecord⟩

/- In the admission order no hit comes before its parent. -/
theorem parents_first
    [LinearOrder S]
    {sc : Scores S}
    {found hits : List (Hit S Payload)}
    (hDistinct : (found.map Hit.id).Nodup)
    (hSorted :
      hits.Pairwise
        ((hitForest hDistinct).Precedes (Better sc found))) :
    hits.Pairwise fun a b =>
      ¬ isProperAncestor b.id a.id = true := by
  apply hSorted.imp
  intro a b hPrecedes hAbove
  exact
    precedes_hits_asymm hDistinct hPrecedes (Or.inl hAbove)

section Judging

variable [LE P] [DecidableLE P]

theorem run_reasons
    (print : Printed P)
    (waiting : List Waiting)
    (prompt : String)
    (responseContext : Option String)
    (s : Settings)
    (c : Context)
    (elapsedMs : String)
    (call : Request → Nat → Except String (Reply P)) :
    (run print waiting prompt responseContext s c elapsedMs
      call).1.blocked.All
        fun _ fields => NamesAncestor fields := by
  intro id fields hGet
  obtain ⟨j, -, hLine⟩ :=
    run_lines print c elapsedMs waiting prompt responseContext
      s call id fields hGet
  exact hLine.namesAncestor

/-
  The hits of a scan, judged and admitted: each has one
  record, in the admission order and with its rank, and the
  record says what the gate's blocks and the ways shown in
  the end make of it. Only a hit that was offered is shown.
-/
theorem admitHits_settled
    [LinearOrder S]
    (sc : Scores S)
    (found : List (Hit S Payload))
    (hDistinct : (found.map Hit.id).Nodup)
    (print : Printed P)
    (prompt : String)
    (responseContext : Option String)
    (s : Settings)
    (c : Context)
    (elapsedMs : String)
    (call : Request → Nat → Except String (Reply P))
    (context : σ) :
    ∃ hits, orderHits found sc = some hits ∧
      hits.Perm found ∧
      let gate :=
        (run print waiting prompt responseContext s c elapsedMs
          call).1
      let after :=
        admitHits print gate waiting deliver context hits
      List.Forall₂
          (Settled gate.blocked waiting after.shown) hits
          after.outcomes ∧
        after.outcomes.map Outcome.rank =
          List.range' 1 hits.length ∧
        ∀ x ∈ after.shown,
          ∃ o ∈ after.outcomes, o.way = x ∧
            ∃ outcome, o.result = .offered outcome := by
  obtain ⟨hits, hOrder, hPerm, hSorted⟩ :=
    orderHits_sorted sc hDistinct
  refine ⟨hits, hOrder, hPerm, ?_⟩
  intro gate after
  obtain ⟨new, hOut, hAll, hRanks, more, hShown, hMore⟩ :=
    (admitFrom_spec waiting deliver print gate.judgements
      (Grown.refl
        (run_reasons print waiting prompt responseContext s c
          elapsedMs call))
      (l :=
        { blocked := gate.blocked
          shown := []
          outcomes := []
          log := []
          context := context })
      hits ((hPerm.map Hit.id).nodup_iff.mpr hDistinct)
      (by simp) (parents_first hDistinct hSorted) 1).records
  rw [List.nil_append] at hOut hShown
  subst hOut
  subst hShown
  exact ⟨hAll, hRanks, hMore⟩

end Judging

end Admission

/- A parent that the judge blocks, and the child it boosted. -/
theorem admitHits_blockedParent :
    let found : List (Hit Nat Payload) :=
      [{ id := ['a', '/', 'b']
         score := some 9
         specificity := 0
         payload :=
           { channel := "semantic"
             matchedSpan := none
             needsParent := true } },
        { id := ['a']
          score := some 6
          specificity := 0
          payload :=
            { channel := "semantic"
              matchedSpan := none
              needsParent := false } }]
    let waiting : List Waiting :=
      [{ id := ['a'], description := "", patternStrict := false },
        { id := ['a', '/', 'b']
          description := ""
          patternStrict := false }]
    let s : Settings :=
      { engine := "e"
        provider := "p"
        claudeCode := false
        model := "m"
        maxCandidates := 1
        timeoutMs := 3000 }
    let c : Context :=
      { session := "s"
        project := "p"
        scope := "agent"
        hookEvent := "UserPromptSubmit"
        agent := "" }
    let print : Printed Nat := ⟨toString, toString⟩
    let call : Request → Nat → Except String (Reply Nat) :=
      fun _ _ =>
        .ok (.judged
          { engine := "e"
            model := "m"
            mode := .enforce
            threshold := 5
            verdicts := [{ id := ['a'], pYes := 1 }]
            latencyMs := 40
            call := none })
    ∃ hits, orderHits found natScores = some hits ∧
      hits.Perm found ∧
      let gate :=
        (run print waiting "store the key" none s c "41" call).1
      let after :=
        admitHits print gate waiting
          (fun _ n => ("fire", true, n + 1)) 0 hits
      List.Forall₂
          (Settled gate.blocked waiting after.shown) hits
          after.outcomes ∧
        after.outcomes.map Outcome.rank =
          List.range' 1 hits.length ∧
        ∀ x ∈ after.shown,
          ∃ o ∈ after.outcomes, o.way = x ∧
            ∃ outcome, o.result = .offered outcome := by
  intro found waiting s c print call
  exact
    admitHits_settled waiting
      (fun _ n => ("fire", true, n + 1)) natScores found
      (by decide) print "store the key" none s c "41" call 0

end Relevance

end Scan
