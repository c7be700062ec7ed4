import AgentWays.Command.Lexer

/-
  Where the segments of a list lie in the text. The tokens of
  a segment follow each other; of two segments, the later lies
  in one token of the earlier, or they keep apart; and no
  heredoc body cuts into a token.

  The list's state keeps this as it grows, with the segment
  in progress past what is out, and each segment that waits
  to follow it before it or in one of its tokens.

  Key definitions include:
    * `Command.Placed`
    * `Command.Laminar`
    * `Command.Region`
    * `Command.Held`

  Main declarations:
    * `Command.Region.append`
    * `Command.Held.word`
    * `Command.Held.finish`
-/

------------------------------------------------------------
-- Segments In A Region
------------------------------------------------------------

namespace Command

/- A segment with its tokens in order between two positions. -/
structure Placed
    (d lo hi : Nat)
    (x : RawSegment) : Prop where
  filled : x.tokens ≠ []
  wide : ∀ t ∈ x.tokens, t.span.start < t.span.stop
  runs : Span.Runs lo (x.tokens.map Token.span) hi
  depth : d ≤ x.depth
  capped : x.depth < maxDepth

def InToken
    (t : Token)
    (x : RawSegment) : Prop :=
  ∀ u ∈ x.tokens, u.span.Inside t.span

/- The later segment lies deeper, in one token. -/
def Hosts
    (x y : RawSegment) : Prop :=
  x.depth < y.depth ∧ ∃ t ∈ x.tokens, InToken t y

def Apart
    (x y : RawSegment) : Prop :=
  (∀ t ∈ x.tokens, ∀ u ∈ y.tokens, t.span.Before u.span) ∨
    ∀ t ∈ x.tokens, ∀ u ∈ y.tokens, u.span.Before t.span

def Laminar
    (x y : RawSegment) : Prop :=
  Hosts x y ∨ Apart x y

/- No body cuts into a token of the segment. -/
def Clears
    (bodies : List Span)
    (x : RawSegment) : Prop :=
  ∀ t ∈ x.tokens, ∀ e ∈ bodies, e.Clear t.span

/- The segments and bodies read between two positions. -/
structure Region
    (d lo hi : Nat)
    (segs : List RawSegment)
    (bodies : List Span) : Prop where
  placed : ∀ x ∈ segs, Placed d lo hi x
  laminar : segs.Pairwise Laminar
  clears : ∀ x ∈ segs, Clears bodies x
  bodies : Span.Runs lo bodies hi

variable {d lo mid hi : Nat} {x y : RawSegment}
variable {segs more : List RawSegment}
variable {bodies new : List Span}

theorem Placed.token
    (hPlaced : Placed d lo hi x)
    {t : Token}
    (hIn : t ∈ x.tokens) :
    lo ≤ t.span.start ∧ t.span.stop ≤ hi := by
  have hBounds := hPlaced.runs.bounds (List.mem_map_of_mem hIn)
  exact ⟨hBounds.1, hBounds.2.2⟩

theorem Placed.mono
    {d' lo' hi' : Nat}
    (hPlaced : Placed d lo hi x)
    (hDepth : d' ≤ d)
    (hLo : lo' ≤ lo)
    (hHi : hi ≤ hi') :
    Placed d' lo' hi' x where
  filled := hPlaced.filled
  wide := hPlaced.wide
  runs := hPlaced.runs.mono hLo hHi
  depth := hDepth.trans hPlaced.depth
  capped := hPlaced.capped

/- A token takes room. -/
theorem Placed.lt
    (hPlaced : Placed d lo hi x) :
    lo < hi := by
  obtain ⟨t, hIn⟩ := List.exists_mem_of_ne_nil _ hPlaced.filled
  have hToken := hPlaced.token hIn
  have hWide := hPlaced.wide t hIn
  omega

theorem Placed.before
    {d' : Nat}
    (hX : Placed d lo mid x)
    (hY : Placed d' mid hi y) :
    ∀ t ∈ x.tokens, ∀ u ∈ y.tokens, t.span.Before u.span :=
  fun _ hT _ hU => (hX.token hT).2.trans (hY.token hU).1

theorem Placed.apart
    {d' : Nat}
    (hX : Placed d lo mid x)
    (hY : Placed d' mid hi y) :
    Apart x y :=
  .inl (hX.before hY)

theorem Placed.apart_after
    {d' : Nat}
    (hX : Placed d mid hi x)
    (hY : Placed d' lo mid y) :
    Apart x y :=
  .inr fun t hT u hU => hY.before hX u hU t hT

theorem Placed.clears_after
    (hPlaced : Placed d lo mid x)
    (hNew : Span.Runs mid new hi) :
    Clears new x := by
  intro t hT e hE
  have hToken := hPlaced.token hT
  have hBody := hNew.bounds hE
  exact .inl (.inr (hToken.2.trans hBody.1))

theorem Placed.clears_before
    (hPlaced : Placed d mid hi x)
    (hOld : Span.Runs lo bodies mid) :
    Clears bodies x := by
  intro t hT e hE
  have hToken := hPlaced.token hT
  have hBody := hOld.bounds hE
  exact .inl (.inl (hBody.2.2.trans hToken.1))

theorem clears_append :
    Clears (bodies ++ new) x ↔ Clears bodies x ∧ Clears new x := by
  unfold Clears
  simp only [List.mem_append]
  exact
    ⟨fun h => ⟨fun t hT e hE => h t hT e (.inl hE),
      fun t hT e hE => h t hT e (.inr hE)⟩,
    fun h t hT e hE => hE.elim (h.1 t hT e) (h.2 t hT e)⟩

theorem Region.nil
    (hLe : lo ≤ hi) :
    Region d lo hi [] [] where
  placed _ hIn := absurd hIn List.not_mem_nil
  laminar := .nil
  clears _ hIn := absurd hIn List.not_mem_nil
  bodies := hLe

theorem Region.mono
    {lo' hi' : Nat}
    (hRegion : Region d lo hi segs bodies)
    (hLo : lo' ≤ lo)
    (hHi : hi ≤ hi') :
    Region d lo' hi' segs bodies where
  placed x hIn := (hRegion.placed x hIn).mono le_rfl hLo hHi
  laminar := hRegion.laminar
  clears := hRegion.clears
  bodies := hRegion.bodies.mono hLo hHi

theorem Region.append
    (hRegion : Region d lo mid segs bodies)
    (hMore : Region d mid hi more new) :
    Region d lo hi (segs ++ more) (bodies ++ new) where
  placed x hIn := by
    rcases List.mem_append.mp hIn with hIn | hIn
    · exact
        (hRegion.placed x hIn).mono le_rfl le_rfl hMore.bodies.le
    · exact
        (hMore.placed x hIn).mono le_rfl hRegion.bodies.le le_rfl
  laminar := by
    rw [List.pairwise_append]
    refine ⟨hRegion.laminar, hMore.laminar, ?_⟩
    intro x hX y hY
    exact
      .inr ((hRegion.placed x hX).apart (hMore.placed y hY))
  clears x hIn := by
    rw [clears_append]
    rcases List.mem_append.mp hIn with hIn | hIn
    · exact
        ⟨hRegion.clears x hIn,
          (hRegion.placed x hIn).clears_after hMore.bodies⟩
    · exact
        ⟨(hMore.placed x hIn).clears_before hRegion.bodies,
          hMore.clears x hIn⟩
  bodies := hRegion.bodies.append hMore.bodies

------------------------------------------------------------
-- A List As It Grows
------------------------------------------------------------

/-
  A list from `lo`, its segment in progress from `cut`, read
  up to `hi`.
-/
structure Held
    (d lo cut hi : Nat)
    (l : Listing)
    (bodies : List Span) : Prop where
  depth : l.depth = d
  curDepth : l.cur.depth = d
  capped : d < maxDepth
  lo_le : lo ≤ cut
  runs : Span.Runs cut (l.cur.tokens.map Token.span) hi
  wide : ∀ t ∈ l.cur.tokens, t.span.start < t.span.stop
  out : ∀ x ∈ l.out, Placed d lo cut x
  nested : ∀ x ∈ l.nested, Placed (d + 1) lo hi x
  hosted :
    ∀ x ∈ l.nested,
      Placed (d + 1) lo cut x ∨ ∃ t ∈ l.cur.tokens, InToken t x
  laminar : (l.out ++ l.nested).Pairwise Laminar
  clears : ∀ x ∈ l.out ++ l.nested, Clears bodies x
  clear : ∀ t ∈ l.cur.tokens, ∀ e ∈ bodies, e.Clear t.span
  bodies : Span.Runs lo bodies hi

namespace Held

variable {cut hi' : Nat} {l l' : Listing}

theorem fresh
    (hCapped : d < maxDepth)
    (first : Connector) :
    Held d lo lo lo (Listing.new d first) [] where
  depth := rfl
  curDepth := rfl
  capped := hCapped
  lo_le := le_rfl
  runs := show lo ≤ lo from le_rfl
  wide _ hIn := absurd hIn List.not_mem_nil
  out _ hIn := absurd hIn List.not_mem_nil
  nested _ hIn := absurd hIn List.not_mem_nil
  hosted _ hIn := absurd hIn List.not_mem_nil
  laminar := .nil
  clears _ hIn := absurd hIn List.not_mem_nil
  clear _ hIn := absurd hIn List.not_mem_nil
  bodies := show lo ≤ lo from le_rfl

/- Only the segments of a list, done and in progress, count. -/
theorem congr
    (hHeld : Held d lo cut hi l bodies)
    (hDepth : l'.depth = l.depth)
    (hCur : l'.cur = l.cur)
    (hOut : l'.out = l.out)
    (hNested : l'.nested = l.nested) :
    Held d lo cut hi l' bodies where
  depth := hDepth ▸ hHeld.depth
  curDepth := hCur ▸ hHeld.curDepth
  capped := hHeld.capped
  lo_le := hHeld.lo_le
  runs := hCur ▸ hHeld.runs
  wide := hCur ▸ hHeld.wide
  out := hOut ▸ hHeld.out
  nested := hNested ▸ hHeld.nested
  hosted := hCur ▸ hNested ▸ hHeld.hosted
  laminar := hOut ▸ hNested ▸ hHeld.laminar
  clears := hOut ▸ hNested ▸ hHeld.clears
  clear := hCur ▸ hHeld.clear
  bodies := hHeld.bodies

theorem advance
    (hHeld : Held d lo cut hi l bodies)
    (hLe : hi ≤ hi') :
    Held d lo cut hi' l bodies :=
  { hHeld with
    runs := hHeld.runs.mono le_rfl hLe
    nested := fun x hIn =>
      (hHeld.nested x hIn).mono le_rfl le_rfl hLe
    bodies := hHeld.bodies.mono le_rfl hLe }

/- The bodies that a newline reads. -/
theorem read
    (hHeld : Held d lo cut hi l bodies)
    (hNew : Span.Runs hi new hi') :
    Held d lo cut hi' l (bodies ++ new) :=
  { hHeld.advance hNew.le with
    clears := by
      intro x hIn
      refine clears_append.mpr ⟨hHeld.clears x hIn, ?_⟩
      rcases List.mem_append.mp hIn with hOut | hNested
      · exact
          ((hHeld.out x hOut).mono le_rfl le_rfl
            hHeld.runs.le).clears_after hNew
      · exact (hHeld.nested x hNested).clears_after hNew
    clear := by
      intro t hT e hE
      rcases List.mem_append.mp hE with hOld | hLate
      · exact hHeld.clear t hT e hOld
      · have hToken :=
          hHeld.runs.bounds (List.mem_map_of_mem hT)
        exact
          .inl (.inr (hToken.2.2.trans (hNew.bounds hLate).1))
    bodies := hHeld.bodies.append hNew }

/- One more token. -/
theorem push
    (hHeld : Held d lo cut hi l bodies)
    {t : Token}
    (hStart : hi ≤ t.span.start)
    (hWide : t.span.start < t.span.stop)
    (hStop : t.span.stop ≤ hi') :
    Held d lo cut hi' (l.push t) bodies where
  depth := hHeld.depth
  curDepth := hHeld.curDepth
  capped := hHeld.capped
  lo_le := hHeld.lo_le
  runs := by
    have hRuns := hHeld.runs.snoc hStart hWide.le hStop
    simpa [Listing.push, Listing.withTokens] using hRuns
  wide u hIn := by
    rcases List.mem_append.mp hIn with hOld | hLast
    · exact hHeld.wide u hOld
    · rw [List.mem_singleton.mp hLast]
      exact hWide
  out := hHeld.out
  nested x hIn :=
    (hHeld.nested x hIn).mono le_rfl le_rfl
      (hStart.trans (hWide.le.trans hStop))
  hosted x hIn := by
    rcases hHeld.hosted x hIn with hEarly | ⟨u, hU, hInside⟩
    · exact .inl hEarly
    · exact .inr ⟨u, List.mem_append_left _ hU, hInside⟩
  laminar := hHeld.laminar
  clears := hHeld.clears
  clear u hIn e hE := by
    rcases List.mem_append.mp hIn with hOld | hLast
    · exact hHeld.clear u hOld e hE
    · rw [List.mem_singleton.mp hLast]
      exact
        .inl (.inl
          ((hHeld.bodies.bounds hE).2.2.trans hStart))
  bodies :=
    hHeld.bodies.mono le_rfl
      (hStart.trans (hWide.le.trans hStop))

/- The last token, made longer. -/
theorem grow
    (hHeld : Held d lo cut hi l bodies)
    {front : List Token}
    {last t : Token}
    (hTokens : l.cur.tokens = front ++ [last])
    (hStart : t.span.start = last.span.start)
    (hStop : hi ≤ t.span.stop)
    (hHi : t.span.stop ≤ hi') :
    Held d lo cut hi' (l.withTokens (front ++ [t])) bodies := by
  have hLastIn : last ∈ l.cur.tokens := by
    rw [hTokens]
    exact List.mem_append_right _ List.mem_cons_self
  have hFront {u : Token} (hU : u ∈ front) :
      u ∈ l.cur.tokens := by
    rw [hTokens]
    exact List.mem_append_left _ hU
  have hLast := hHeld.runs.bounds (List.mem_map_of_mem hLastIn)
  have hInside : last.span.Inside t.span :=
    ⟨hStart.le, hLast.2.2.trans hStop⟩
  have hWide := hHeld.wide last hLastIn
  refine
    { hHeld with
      runs := ?_
      wide := ?_
      nested := fun x hIn =>
        (hHeld.nested x hIn).mono le_rfl le_rfl
          (hStop.trans hHi)
      hosted := ?_
      clear := ?_
      bodies :=
        hHeld.bodies.mono le_rfl (hStop.trans hHi) }
  · have hRuns := hHeld.runs
    rw [hTokens, List.map_append, List.map_singleton] at hRuns
    have hNew :=
      hRuns.last.1.snoc hStart.ge
        (hStart.le.trans (hLast.2.1.trans hInside.2)) hHi
    simpa [Listing.withTokens] using hNew
  · intro u hIn
    rcases List.mem_append.mp hIn with hOld | hSame
    · exact hHeld.wide u (hFront hOld)
    · rw [List.mem_singleton.mp hSame, hStart]
      exact hWide.trans_le hInside.2
  · intro x hIn
    rcases hHeld.hosted x hIn with hEarly | ⟨u, hU, hHost⟩
    · exact .inl hEarly
    · right
      rw [hTokens] at hU
      rcases List.mem_append.mp hU with hOld | hSame
      · exact ⟨u, List.mem_append_left _ hOld, hHost⟩
      · rw [List.mem_singleton.mp hSame] at hHost
        exact
          ⟨t, List.mem_append_right _ List.mem_cons_self,
            fun v hV => (hHost v hV).trans hInside⟩
  · intro u hIn e hE
    rcases List.mem_append.mp hIn with hOld | hSame
    · exact hHeld.clear u (hFront hOld) e hE
    · rw [List.mem_singleton.mp hSame]
      have hBody := hHeld.bodies.bounds hE
      rcases hHeld.clear last hLastIn e hE with
        (hBefore | hAfter) | hIn
      · exact .inl (.inl (hBefore.trans hStart.ge))
      · -- A body past the token is in what it grew by.
        refine .inr ⟨?_, hBody.2.2.trans hStop⟩
        exact hStart.le.trans (hLast.2.1.trans hAfter)
      · exact .inr (hIn.trans hInside)

/- The segment in progress, dropped. -/
theorem clearTokens
    (hHeld : Held d lo cut hi l bodies) :
    Held d lo hi hi (l.withTokens []) bodies :=
  { hHeld with
    lo_le := hHeld.lo_le.trans hHeld.runs.le
    runs := show hi ≤ hi from le_rfl
    wide := fun _ hIn => absurd hIn List.not_mem_nil
    out := fun x hIn =>
      (hHeld.out x hIn).mono le_rfl le_rfl hHeld.runs.le
    hosted := fun x hIn => .inl (hHeld.nested x hIn)
    clear := fun _ hIn => absurd hIn List.not_mem_nil }

/- The segment in progress, with those that wait for it. -/
theorem cur_placed
    (hHeld : Held d lo cut hi l bodies)
    (hFilled : l.cur.tokens ≠ []) :
    Placed d cut hi l.cur where
  filled := hFilled
  wide := hHeld.wide
  runs := hHeld.runs
  depth := hHeld.curDepth.ge
  capped := hHeld.curDepth ▸ hHeld.capped

theorem cur_laminar
    (hHeld : Held d lo cut hi l bodies)
    (hFilled : l.cur.tokens ≠ [])
    (hIn : x ∈ l.nested) :
    Laminar l.cur x := by
  rcases hHeld.hosted x hIn with hEarly | hHost
  · exact .inr ((hHeld.cur_placed hFilled).apart_after hEarly)
  · refine .inl ⟨?_, hHost⟩
    rw [hHeld.curDepth]
    exact (hHeld.nested x hIn).depth

/- What a segment's end leaves out is a region. -/
theorem flushed
    (hHeld : Held d lo cut hi l bodies)
    (next : Connector) :
    Region d lo hi (l.flush next).out bodies := by
  have hBoth := List.pairwise_append.mp hHeld.laminar
  have hNested {x : RawSegment} (hIn : x ∈ l.nested) :
      Placed d lo hi x :=
    (hHeld.nested x hIn).mono (Nat.le_succ d) le_rfl le_rfl
  have hOut {x : RawSegment} (hIn : x ∈ l.out) :
      Placed d lo hi x :=
    (hHeld.out x hIn).mono le_rfl le_rfl hHeld.runs.le
  have hSplit :
      Region d lo hi (l.out ++ l.nested) bodies :=
    { placed := fun x hIn =>
        (List.mem_append.mp hIn).elim hOut hNested
      laminar := hHeld.laminar
      clears := hHeld.clears
      bodies := hHeld.bodies }
  by_cases hEmpty : l.cur.tokens = []
  · have hSame : (l.flush next).out = l.out ++ l.nested := by
      simp [Listing.flush, hEmpty]
    rw [hSame]
    exact hSplit
  · have hSame :
        (l.flush next).out = l.out ++ l.cur :: l.nested := by
      simp [Listing.flush, hEmpty]
    have hCur := hHeld.cur_placed hEmpty
    have hMem {x : RawSegment}
        (hIn : x ∈ l.out ++ l.cur :: l.nested) :
        x = l.cur ∨ x ∈ l.out ++ l.nested := by
      simp only [List.mem_append, List.mem_cons] at hIn ⊢
      tauto
    rw [hSame]
    refine
      { placed := fun x hIn => ?_
        laminar := ?_
        clears := fun x hIn => ?_
        bodies := hHeld.bodies }
    · rcases hMem hIn with rfl | hOther
      · exact hCur.mono le_rfl hHeld.lo_le le_rfl
      · exact hSplit.placed x hOther
    · rw [List.pairwise_append, List.pairwise_cons]
      refine ⟨hBoth.1, ⟨?_, hBoth.2.1⟩, ?_⟩
      · exact fun y hIn => hHeld.cur_laminar hEmpty hIn
      · intro x hX y hY
        rcases List.mem_cons.mp hY with rfl | hY
        · exact .inr ((hHeld.out x hX).apart hCur)
        · exact hBoth.2.2 x hX y hY
    · rcases hMem hIn with rfl | hOther
      · exact hHeld.clear
      · exact hHeld.clears x hOther

theorem flush
    (hHeld : Held d lo cut hi l bodies)
    (next : Connector) :
    Held d lo hi hi (l.flush next) bodies := by
  have hRegion := hHeld.flushed next
  refine
    { depth := hHeld.depth
      curDepth := hHeld.depth
      capped := hHeld.capped
      lo_le := hHeld.lo_le.trans hHeld.runs.le
      runs := show hi ≤ hi from le_rfl
      wide := fun _ hIn => absurd hIn List.not_mem_nil
      out := hRegion.placed
      nested := fun _ hIn => absurd hIn List.not_mem_nil
      hosted := fun _ hIn => absurd hIn List.not_mem_nil
      laminar := ?_
      clears := ?_
      clear := fun _ hIn => absurd hIn List.not_mem_nil
      bodies := hHeld.bodies }
  · have hNone : (l.flush next).nested = [] := rfl
    rw [hNone, List.append_nil]
    exact hRegion.laminar
  · intro x hIn
    have hNone : (l.flush next).nested = [] := rfl
    rw [hNone, List.append_nil] at hIn
    exact hRegion.clears x hIn

/- What the list leaves when it ends. -/
theorem finish
    (hHeld : Held d lo cut hi l bodies) :
    Region d lo hi l.finish bodies :=
  hHeld.flushed .semicolon

/- A subshell where the segment has no token. -/
theorem subshell
    (hHeld : Held d lo hi hi l bodies)
    (hEmpty : l.cur.tokens = [])
    (hRegion : Region (d + 1) hi hi' segs new) :
    Held d lo hi' hi' { l with out := l.out ++ segs }
      (bodies ++ new) := by
  have hLe := hRegion.bodies.le
  have hRead := hHeld.read hRegion.bodies
  have hBoth := List.pairwise_append.mp hHeld.laminar
  refine
    { hRead with
      lo_le := hHeld.lo_le.trans hLe
      runs := ?_
      out := ?_
      hosted := ?_
      laminar := ?_
      clears := ?_ }
  · simp only [hEmpty]
    exact le_refl hi'
  · intro x hIn
    rcases List.mem_append.mp hIn with hOld | hSub
    · exact (hHeld.out x hOld).mono le_rfl le_rfl hLe
    · exact
        (hRegion.placed x hSub).mono (Nat.le_succ d)
          hHeld.lo_le le_rfl
  · intro x hIn
    rcases hHeld.hosted x hIn with hEarly | ⟨t, hT, -⟩
    · exact .inl (hEarly.mono le_rfl le_rfl hLe)
    · rw [hEmpty] at hT
      exact absurd hT List.not_mem_nil
  · rw [List.pairwise_append, List.pairwise_append]
    refine ⟨⟨hBoth.1, hRegion.laminar, ?_⟩, hBoth.2.1, ?_⟩
    · intro x hX y hY
      exact
        .inr ((hHeld.out x hX).apart (hRegion.placed y hY))
    · intro x hX y hY
      rcases List.mem_append.mp hX with hX | hX
      · exact hBoth.2.2 x hX y hY
      · exact
          .inr
            ((hRegion.placed x hX).apart_after
              (hHeld.nested y hY))
  · intro x hIn
    simp only [List.append_assoc, List.mem_append] at hIn
    rcases hIn with hOut | hSub | hNested
    · exact hRead.clears x (List.mem_append_left _ hOut)
    · exact
        clears_append.mpr
          ⟨(hRegion.placed x hSub).clears_before hHeld.bodies,
            hRegion.clears x hSub⟩
    · exact hRead.clears x (List.mem_append_right _ hNested)

/- A word, with the segments of its substitutions. -/
theorem word
    (hHeld : Held d lo cut hi l bodies)
    (hRegion : Region (d + 1) hi hi' segs new)
    {t : Token}
    (hSpan : t.span = ⟨hi, hi'⟩)
    (hWide : hi < hi') :
    Held d lo cut hi'
      (Listing.push { l with nested := l.nested ++ segs } t)
      (bodies ++ new) := by
  have hRead := hHeld.read hRegion.bodies
  have hSub {x : RawSegment} (hIn : x ∈ segs) :
      Placed (d + 1) lo hi' x :=
    (hRegion.placed x hIn).mono le_rfl hHeld.bodies.le le_rfl
  refine
    { depth := hRead.depth
      curDepth := hRead.curDepth
      capped := hRead.capped
      lo_le := hRead.lo_le
      runs := ?_
      wide := ?_
      out := hRead.out
      nested := ?_
      hosted := ?_
      laminar := ?_
      clears := ?_
      clear := ?_
      bodies := hRead.bodies }
  · have hNext : Span.Runs hi [t.span] hi' := by
      simp [Span.Runs, hSpan, hWide.le]
    have hRuns := hHeld.runs.append hNext
    simpa [Listing.push, Listing.withTokens] using hRuns
  · intro u hIn
    rcases List.mem_append.mp hIn with hOld | hLast
    · exact hHeld.wide u hOld
    · rw [List.mem_singleton.mp hLast, hSpan]
      exact hWide
  · intro x hIn
    rcases List.mem_append.mp hIn with hOld | hNew
    · exact hRead.nested x hOld
    · exact hSub hNew
  · intro x hIn
    rcases List.mem_append.mp hIn with hOld | hNew
    · rcases hHeld.hosted x hOld with hEarly | ⟨u, hU, hHost⟩
      · exact .inl hEarly
      · exact .inr ⟨u, List.mem_append_left _ hU, hHost⟩
    · refine
        .inr ⟨t, List.mem_append_right _ List.mem_cons_self,
          fun u hU => ?_⟩
      rw [hSpan]
      exact (hRegion.placed x hNew).token hU
  · have hAll :
        (l.out ++ l.nested ++ segs).Pairwise Laminar := by
      rw [List.pairwise_append]
      refine ⟨hHeld.laminar, hRegion.laminar, ?_⟩
      intro x hX y hY
      have hY := hRegion.placed y hY
      rcases List.mem_append.mp hX with hX | hX
      · exact
          .inr
            (((hHeld.out x hX).mono le_rfl le_rfl
              hHeld.runs.le).apart hY)
      · exact .inr ((hHeld.nested x hX).apart hY)
    rw [List.append_assoc] at hAll
    exact hAll
  · intro x hIn
    simp only [Listing.push, Listing.withTokens,
      List.mem_append] at hIn
    rcases hIn with hOut | hOld | hNew
    · exact hRead.clears x (List.mem_append_left _ hOut)
    · exact hRead.clears x (List.mem_append_right _ hOld)
    · exact
        clears_append.mpr
          ⟨(hRegion.placed x hNew).clears_before hHeld.bodies,
            hRegion.clears x hNew⟩
  · intro u hIn e hE
    rcases List.mem_append.mp hIn with hOld | hLast
    · exact hRead.clear u hOld e hE
    · rw [List.mem_singleton.mp hLast, hSpan]
      rcases List.mem_append.mp hE with hOld | hNew
      · exact .inl (.inl (hHeld.bodies.bounds hOld).2.2)
      · have hBody := hRegion.bodies.bounds hNew
        exact .inr ⟨hBody.1, hBody.2.2⟩

end Held

end Command
