import AgentWays.Command.Laminar

/-
  What each arm of the lexer does: how far it reads, and that
  a list's segments stay in their places.

  Key definitions include:
    * `Command.Reads`
    * `Command.ListStep.Sound`
    * `Command.WordStep.Sound`

  Main declarations:
    * `Command.listStep_sound`
    * `Command.parenStep_sound`
    * `Command.wordStep_sound`
    * `Command.wordEnd_held`
-/

------------------------------------------------------------
-- Positions
------------------------------------------------------------

namespace Command

variable {b : Text}

theorem lt_of_getElem?
    {i : Nat}
    {c : Char}
    (hAt : b[i]? = some c) :
    i < b.length := by
  obtain ⟨hLt, -⟩ := List.getElem?_eq_some_iff.mp hAt
  exact hLt

theorem slice?_eq_some
    {i j : Nat}
    (hLe : i ≤ j)
    (hLen : j ≤ b.length) :
    slice? b i j = some ((b.take j).drop i) := by
  unfold slice?
  rw [if_pos ⟨hLe, hLen⟩]

theorem balancedFrom_bounds
    {opener closer : Char}
    {single esc : Bool}
    {text : Text}
    {i depth stop : Nat}
    {quote : Option Char}
    (hStop :
      balancedFrom opener closer single text i depth quote esc =
        some stop) :
    i < stop ∧ stop ≤ i + text.length := by
  induction text generalizing i depth quote esc with
  | nil => simp [balancedFrom] at hStop
  | cons c rest ih =>
      have hNext {depth' : Nat} {quote' : Option Char}
          {esc' : Bool}
          (hRest :
            balancedFrom opener closer single rest (i + 1) depth'
              quote' esc' = some stop) :
          i < stop ∧ stop ≤ i + (c :: rest).length := by
        have hBounds := ih hRest
        rw [List.length_cons]
        omega
      cases esc with
      | true =>
          unfold balancedFrom at hStop
          exact hNext hStop
      | false =>
          cases quote with
          | some q =>
              unfold balancedFrom at hStop
              split at hStop
              · exact hNext hStop
              · exact hNext hStop
          | none =>
              unfold balancedFrom at hStop
              split_ifs at hStop
              · exact hNext hStop
              · exact hNext hStop
              · exact hNext hStop
              · cases hStop
                rw [List.length_cons]
                omega
              · exact hNext hStop
              · exact hNext hStop

theorem skipBalanced_bounds
    {start : Nat}
    (opener closer : Char)
    (single : Bool)
    (hLt : start < b.length) :
    start < skipBalanced b start opener closer single ∧
      skipBalanced b start opener closer single ≤ b.length := by
  unfold skipBalanced
  cases hStop :
      balancedFrom opener closer single (b.drop start) start 0
        none false with
  | none => exact ⟨hLt, le_rfl⟩
  | some stop =>
      have hBounds := balancedFrom_bounds hStop
      rw [List.length_drop] at hBounds
      rw [Option.getD_some]
      omega

theorem runOf_bounds
    (p : Char → Bool)
    {pos : Nat}
    (hLe : pos ≤ b.length) :
    pos ≤ runOf b p pos ∧ runOf b p pos ≤ b.length := by
  have hTake :=
    (List.takeWhile_sublist p (l := b.drop pos)).length_le
  rw [List.length_drop] at hTake
  unfold runOf
  omega

/- A run takes the character it starts at. -/
theorem lt_runOf
    {p : Char → Bool}
    {pos : Nat}
    {c : Char}
    (hAt : b[pos]? = some c)
    (hP : p c = true) :
    pos < runOf b p pos := by
  obtain ⟨hLt, hGet⟩ := List.getElem?_eq_some_iff.mp hAt
  unfold runOf
  rw [List.drop_eq_getElem_cons hLt, hGet,
    List.takeWhile_cons_of_pos hP, List.length_cons]
  omega

theorem startsWith_le
    {s : Lexer}
    {op : Text}
    (hStarts : startsWith b s op = true)
    (hLe : s.pos ≤ b.length) :
    s.pos + op.length ≤ b.length := by
  unfold startsWith at hStarts
  have hLen := (List.isPrefixOf_iff_prefix.mp hStarts).length_le
  rw [List.length_drop] at hLen
  omega

------------------------------------------------------------
-- Heredoc Bodies
------------------------------------------------------------

/- From one state to another, with the bodies read between. -/
structure Reads
    (b : Text)
    (s s' : Lexer)
    (new : List Span) : Prop where
  excluded : s'.excluded = s.excluded ++ new
  runs : Span.Runs s.pos new s'.pos
  bound : s'.pos ≤ b.length

theorem Reads.trans
    {s s' s'' : Lexer}
    {new more : List Span}
    (hReads : Reads b s s' new)
    (hMore : Reads b s' s'' more) :
    Reads b s s'' (new ++ more) where
  excluded := by
    rw [hMore.excluded, hReads.excluded, List.append_assoc]
  runs := hReads.runs.append hMore.runs
  bound := hMore.bound

theorem Reads.goto
    {s : Lexer}
    {pos : Nat}
    (hLe : s.pos ≤ pos)
    (hLen : pos ≤ b.length) :
    Reads b s (s.goto pos) [] where
  excluded := (List.append_nil _).symm
  runs := hLe
  bound := hLen

theorem length_trimStart_le
    (text : Text) :
    (trimStart text).length ≤ text.length :=
  (List.dropWhile_sublist _).length_le

theorem bodyEnd_bounds
    (doc : Heredoc)
    {n lineStart : Nat}
    (hSteps : b.length - lineStart < n) :
    ∃ stop, bodyEnd b doc n lineStart = some stop ∧
      min lineStart b.length ≤ stop ∧ stop ≤ b.length := by
  induction n generalizing lineStart with
  | zero => omega
  | succ n ih =>
      unfold bodyEnd
      by_cases hEnd : b.length ≤ lineStart
      · rw [if_pos hEnd]
        exact ⟨b.length, rfl, min_le_right _ _, le_rfl⟩
      · rw [if_neg hEnd]
        simp only
        have hRaw :
            ((b.drop lineStart).takeWhile (· ≠ '\n')).length ≤
              b.length - lineStart := by
          have hTake :=
            (List.takeWhile_sublist (· ≠ '\n')
              (l := b.drop lineStart)).length_le
          rwa [List.length_drop] at hTake
        generalize
          (b.drop lineStart).takeWhile (· ≠ '\n') = raw at hRaw ⊢
        have hLine :
            (if doc.stripTabs = true then
              raw.dropWhile (· = '\t')
            else raw).length ≤ raw.length := by
          split
          · exact (List.dropWhile_sublist _).length_le
          · exact le_rfl
        generalize
          (if doc.stripTabs = true then
            raw.dropWhile (· = '\t')
          else raw) = line at hLine ⊢
        split
        · exact ⟨_, rfl, by omega, min_le_right _ _⟩
        · split
          · rename_i hClose
            have hTrim := length_trimStart_le line
            have hDelim :=
              (List.isPrefixOf_iff_prefix.mp
                hClose.1).length_le
            exact ⟨_, rfl, by omega, by omega⟩
          · obtain ⟨stop, hStop, hLo, hHi⟩ :=
              @ih (lineStart + raw.length + 1) (by omega)
            exact ⟨stop, hStop, by omega, hHi⟩

theorem bodies_reads
    (docs : List Heredoc)
    {s : Lexer}
    (hLe : s.pos ≤ b.length) :
    ∃ s' new, bodies b docs s = some s' ∧ Reads b s s' new := by
  induction docs generalizing s with
  | nil =>
      exact
        ⟨s, [], rfl, (List.append_nil _).symm,
          show s.pos ≤ s.pos from le_rfl, hLe⟩
  | cons doc rest ih =>
      obtain ⟨stop, hStop, hLo, hHi⟩ :=
        bodyEnd_bounds (b := b) doc
          (show b.length - s.pos < b.length + 1 by omega)
      rw [min_eq_left hLe] at hLo
      obtain ⟨s', new, hRest, hReads⟩ :=
        @ih
          { s.goto stop with
            excluded := s.excluded ++ [⟨s.pos, stop⟩] } hHi
      refine ⟨s', ⟨s.pos, stop⟩ :: new, ?_, ?_⟩
      · unfold bodies
        rw [hStop, Option.bind_some]
        exact hRest
      · exact
          { excluded := by
              rw [hReads.excluded, List.append_assoc]
              rfl
            runs := ⟨le_rfl, hLo, hReads.runs⟩
            bound := hReads.bound }

theorem heredocBodies_reads
    {s : Lexer}
    (hLe : s.pos ≤ b.length) :
    ∃ s' new, heredocBodies b s = some s' ∧
      Reads b s s' new := by
  obtain ⟨s', new, hBodies, hReads⟩ :=
    bodies_reads (b := b) s.heredocs
      (s := { s with heredocs := [] }) hLe
  exact ⟨s', new, hBodies, hReads.excluded, hReads.runs,
    hReads.bound⟩

------------------------------------------------------------
-- The Arms Of A List
------------------------------------------------------------

/-
  A list's state in a lexer: what was excluded before the
  list, and the bodies read since.
-/
structure Standing
    (b : Text)
    (d lo cut : Nat)
    (before : List Span)
    (s : Lexer)
    (l : Listing) : Prop where
  held :
    ∃ bodies, s.excluded = before ++ bodies ∧
      Held d lo cut s.pos l bodies
  bound : s.pos ≤ b.length

section Arms

variable {d lo cut : Nat} {before : List Span}
variable {s s' : Lexer} {l l' : Listing}

theorem Standing.goto
    (hStanding : Standing b d lo cut before s l)
    {pos : Nat}
    (hLe : s.pos ≤ pos)
    (hLen : pos ≤ b.length) :
    Standing b d lo cut before (s.goto pos) l where
  held := by
    obtain ⟨bodies, hExcluded, hHeld⟩ := hStanding.held
    exact ⟨bodies, hExcluded, hHeld.advance hLe⟩
  bound := hLen

theorem Standing.skip
    (hStanding : Standing b d lo cut before s l)
    {n : Nat}
    (hLen : s.pos + n ≤ b.length) :
    Standing b d lo cut before (s.skip n) l :=
  hStanding.goto (Nat.le_add_right s.pos n) hLen

theorem Standing.flush
    (hStanding : Standing b d lo cut before s l)
    (next : Connector) :
    Standing b d lo s.pos before s (l.flush next) where
  held := by
    obtain ⟨bodies, hExcluded, hHeld⟩ := hStanding.held
    exact ⟨bodies, hExcluded, hHeld.flush next⟩
  bound := hStanding.bound

theorem Standing.read
    (hStanding : Standing b d lo cut before s l)
    {new : List Span}
    (hReads : Reads b s s' new) :
    Standing b d lo cut before s' l where
  held := by
    obtain ⟨bodies, hExcluded, hHeld⟩ := hStanding.held
    refine ⟨bodies ++ new, ?_, hHeld.read hReads.runs⟩
    rw [hReads.excluded, hExcluded, List.append_assoc]
  bound := hReads.bound

theorem Standing.push
    (hStanding : Standing b d lo cut before s l)
    {t : Token}
    (hStart : t.span.start = s.pos)
    (hWide : s.pos < t.span.stop)
    (hLen : t.span.stop ≤ b.length) :
    Standing b d lo cut before (s.goto t.span.stop)
      (l.push t) where
  held := by
    obtain ⟨bodies, hExcluded, hHeld⟩ := hStanding.held
    exact
      ⟨bodies, hExcluded,
        hHeld.push hStart.ge (hStart ▸ hWide) le_rfl⟩
  bound := hLen

theorem Standing.congr
    (hStanding : Standing b d lo cut before s l)
    (hPos : s'.pos = s.pos)
    (hExcluded : s'.excluded = s.excluded)
    (hDepth : l'.depth = l.depth)
    (hCur : l'.cur = l.cur)
    (hOut : l'.out = l.out)
    (hNested : l'.nested = l.nested) :
    Standing b d lo cut before s' l' where
  held := by
    obtain ⟨bodies, hSame, hHeld⟩ := hStanding.held
    refine ⟨bodies, hExcluded.trans hSame, ?_⟩
    rw [hPos]
    exact hHeld.congr hDepth hCur hOut hNested
  bound := hPos ▸ hStanding.bound

/- One of the operators that is there takes a character. -/
theorem findOp_bounds
    {ops : List Text}
    {op : Text}
    (hOps : ∀ op ∈ ops, 0 < op.length)
    (hLe : s.pos ≤ b.length)
    (hFind : ops.find? (startsWith b s) = some op) :
    0 < op.length ∧ s.pos + op.length ≤ b.length :=
  ⟨hOps op (List.mem_of_find?_eq_some hFind),
    startsWith_le (List.find?_some hFind) hLe⟩

theorem redirect_standing
    (hStanding : Standing b d lo cut before s l)
    (hLt : s.pos < b.length) :
    s.pos < (redirect b s l).1.pos ∧
      Standing b d lo cut before (redirect b s l).1
        (redirect b s l).2 := by
  have hOp :
      0 < ((redirectOps.find? (startsWith b s)).getD
          ['>']).length ∧
        s.pos + ((redirectOps.find? (startsWith b s)).getD
          ['>']).length ≤ b.length := by
    cases hFind : redirectOps.find? (startsWith b s) with
    | none => exact ⟨Nat.one_pos, hLt⟩
    | some op =>
        exact
          findOp_bounds (by simp [redirectOps])
            hStanding.bound hFind
  unfold redirect
  generalize
    (redirectOps.find? (startsWith b s)).getD ['>'] = op at hOp ⊢
  have hWide : s.pos < s.pos + op.length := by omega
  refine ⟨hWide, ?_⟩
  cases hFd :
      l.cur.tokens.getLast?.filter (fun t =>
        t.kind == .word && t.span.stop == s.pos &&
          isFd t.value) with
  | none =>
      refine
        (hStanding.push
          (t :=
            { span := ⟨s.pos, s.pos + op.length⟩
              value := op
              kind := .redirectOp })
          rfl hWide hOp.2).congr ?_ ?_ ?_ ?_ ?_ ?_
      all_goals rfl
  | some fd =>
      -- The operator takes the descriptor's place.
      rw [Option.filter_eq_some_iff] at hFd
      obtain ⟨hLast, hIs⟩ := hFd
      have hTokens := List.dropLast_append_getLast? fd hLast
      obtain ⟨bodies, hExcluded, hHeld⟩ := hStanding.held
      refine ⟨⟨bodies, hExcluded, ?_⟩, hOp.2⟩
      refine
        (hHeld.grow
          (t :=
            { span := ⟨fd.span.start, s.pos + op.length⟩
              value := op
              kind := .redirectOp })
          hTokens.symm rfl hWide.le le_rfl).congr ?_ ?_ ?_ ?_
      all_goals rfl

theorem pushRaw_standing
    (hStanding : Standing b d lo cut before s l)
    {stop : Nat}
    (hWide : s.pos < stop)
    (hLen : stop ≤ b.length) :
    ∃ r, pushRaw b s l stop = some r ∧ s.pos < r.1.pos ∧
      Standing b d lo cut before r.1 r.2 := by
  unfold pushRaw
  rw [slice?_eq_some hWide.le hLen, Option.map_some]
  exact
    ⟨_, rfl, hWide,
      hStanding.push (t := ⟨⟨s.pos, stop⟩, _, .word⟩) rfl hWide
        hLen⟩

/- What an arm of a list's loop does to the list. -/
def ListStep.Sound
    (b : Text)
    (d lo : Nat)
    (before : List Span)
    (s : Lexer) : ListStep → Prop
| .go s' l' =>
    s.pos < s'.pos ∧ ∃ cut, Standing b d lo cut before s' l'
| .word => True
| .paren => b[s.pos]? = some '('
| .done s' l' =>
    s.pos < s'.pos ∧ ∃ cut, Standing b d lo cut before s' l'

theorem separatorLen_bounds
    (hLt : s.pos < b.length) :
    0 < separatorLen b s ∧
      s.pos + separatorLen b s ≤ b.length := by
  unfold separatorLen
  cases hFind :
      ([";;&", ";;", ";&"].map String.toList).find?
        (startsWith b s) with
  | none => exact ⟨Nat.one_pos, hLt⟩
  | some op => exact findOp_bounds (by simp) hLt.le hFind

theorem semicolonArm_standing
    (hStanding : Standing b d lo cut before s l)
    (hLt : s.pos < b.length) :
    s.pos < (semicolonArm b s l).1.pos ∧
      ∃ cut, Standing b d lo cut before (semicolonArm b s l).1
        (semicolonArm b s l).2 := by
  have hLen := separatorLen_bounds hLt
  have hNext := (hStanding.flush .semicolon).skip hLen.2
  unfold semicolonArm
  dsimp only
  refine ⟨Nat.lt_add_of_pos_right hLen.1, s.pos, ?_⟩
  split
  · refine hNext.congr ?_ ?_ ?_ ?_ ?_ ?_
    all_goals rfl
  · exact hNext

theorem ampersandArm_standing
    (hStanding : Standing b d lo cut before s l)
    (hLt : s.pos < b.length) :
    s.pos < (ampersandArm b s l).1.pos ∧
      ∃ cut, Standing b d lo cut before (ampersandArm b s l).1
        (ampersandArm b s l).2 := by
  unfold ampersandArm
  split
  · rename_i hAnd
    have hLen := startsWith_le hAnd hStanding.bound
    exact
      ⟨Nat.lt_add_of_pos_right (by decide), _,
        (hStanding.flush .and).skip hLen⟩
  · split
    · obtain ⟨hGo, hNext⟩ := redirect_standing hStanding hLt
      exact ⟨hGo, _, hNext⟩
    · exact
        ⟨Nat.lt_add_of_pos_right (by decide), _,
          (hStanding.flush .background).skip hLt⟩

theorem pipeArm_standing
    (hStanding : Standing b d lo cut before s l)
    (hLt : s.pos < b.length) :
    s.pos < (pipeArm b s l).1.pos ∧
      ∃ cut, Standing b d lo cut before (pipeArm b s l).1
        (pipeArm b s l).2 := by
  unfold pipeArm
  split
  · rename_i hOr
    have hLen := startsWith_le hOr hStanding.bound
    exact
      ⟨Nat.lt_add_of_pos_right (by decide), _,
        (hStanding.flush .or).skip hLen⟩
  · split
    · exact
        ⟨Nat.lt_add_of_pos_right (by decide), _,
          hStanding.push (t := ⟨⟨s.pos, s.pos + 1⟩, _, _⟩) rfl
            (Nat.lt_succ_self _) hLt⟩
    · split
      · rename_i hBoth
        have hLen := startsWith_le hBoth hStanding.bound
        exact
          ⟨Nat.lt_add_of_pos_right (by decide), _,
            (hStanding.flush .pipe).skip hLen⟩
      · exact
          ⟨Nat.lt_add_of_pos_right (by decide), _,
            (hStanding.flush .pipe).skip hLt⟩

theorem closeArm_sound
    (hStanding : Standing b d lo cut before s l)
    (hLt : s.pos < b.length)
    (term : Term) :
    (closeArm s l term).Sound b d lo before s := by
  have hGo : s.pos < s.pos + 1 := Nat.lt_succ_self _
  unfold closeArm
  split
  · -- The pattern is dropped; what waits for it stays.
    obtain ⟨bodies, hExcluded, hHeld⟩ := hStanding.held
    have hCleared :
        Standing b d lo s.pos before s
          { l.withTokens [] with casePattern := false } :=
      ⟨⟨bodies, hExcluded,
        hHeld.clearTokens.congr rfl rfl rfl rfl⟩,
        hStanding.bound⟩
    exact ⟨hGo, _, (hCleared.flush .semicolon).skip hLt⟩
  · split
    · exact ⟨hGo, _, hStanding.skip hLt⟩
    · exact ⟨hGo, _, (hStanding.flush .semicolon).skip hLt⟩

/- The arms one by one, in the loop's order. -/
theorem sound_ite
    {p : Prop}
    [Decidable p]
    {x y : Option ListStep}
    (hPos :
      p → ∃ step, x = some step ∧ step.Sound b d lo before s)
    (hNeg :
      ¬ p → ∃ step, y = some step ∧ step.Sound b d lo before s) :
    ∃ step, (if p then x else y) = some step ∧
      step.Sound b d lo before s := by
  split
  · exact hPos ‹_›
  · exact hNeg ‹_›

theorem listStep_sound
    (hStanding : Standing b d lo cut before s l)
    {c : Char}
    (hAt : b[s.pos]? = some c)
    (term : Term) :
    ∃ step, listStep b s l term c = some step ∧
      step.Sound b d lo before s := by
  have hLt := lt_of_getElem? hAt
  have hGo : s.pos < s.pos + 1 := Nat.lt_succ_self _
  unfold listStep
  refine sound_ite (fun _ => ?_) (fun _ => ?_)
  · exact ⟨_, rfl, hGo, _, hStanding.skip hLt⟩
  refine sound_ite (fun hNewline => ?_) (fun _ => ?_)
  · have hNext := lt_of_getElem? hNewline.2
    exact
      ⟨_, rfl, Nat.lt_add_of_pos_right (by decide), _,
        hStanding.skip hNext⟩
  refine sound_ite (fun _ => ?_) (fun _ => ?_)
  · -- A newline reads the bodies that wait for it.
    obtain ⟨s', new, hBodies, hReads⟩ :=
      heredocBodies_reads
        (show (s.skip 1).pos ≤ b.length from hLt)
    rw [hBodies, Option.map_some]
    refine ⟨_, rfl, hGo.trans_le hReads.runs.le, ?_⟩
    split
    · exact ⟨_, (hStanding.skip hLt).read hReads⟩
    · exact
        ⟨_, ((hStanding.flush .newline).skip hLt).read hReads⟩
  refine sound_ite (fun hHash => ?_) (fun _ => ?_)
  · have hRun :=
      lt_runOf (p := (· ≠ '\n')) hAt (by simp [hHash])
    have hBounds := runOf_bounds (b := b) (· ≠ '\n') hLt.le
    exact
      ⟨_, rfl, hRun, _, hStanding.goto hBounds.1 hBounds.2⟩
  refine sound_ite (fun hTest => ?_) (fun _ => ?_)
  · have hBounds :=
      runOf_bounds (b := b) "&|<>()".toList.contains hLt.le
    obtain ⟨r, hRaw, hNext, hAfter⟩ :=
      pushRaw_standing hStanding (lt_runOf hAt hTest.1)
        hBounds.2
    rw [hRaw, Option.map_some]
    exact ⟨_, rfl, hNext, _, hAfter⟩
  refine sound_ite (fun _ => ?_) (fun _ => ?_)
  · exact ⟨_, rfl, semicolonArm_standing hStanding hLt⟩
  refine sound_ite (fun _ => ?_) (fun _ => ?_)
  · exact ⟨_, rfl, ampersandArm_standing hStanding hLt⟩
  refine sound_ite (fun _ => ?_) (fun _ => ?_)
  · exact ⟨_, rfl, pipeArm_standing hStanding hLt⟩
  refine sound_ite (fun _ => ?_) (fun _ => ?_)
  · refine sound_ite (fun _ => ?_) (fun _ => ?_)
    · exact ⟨_, rfl, trivial⟩
    · obtain ⟨hNext, hAfter⟩ := redirect_standing hStanding hLt
      exact ⟨_, rfl, hNext, _, hAfter⟩
  refine sound_ite (fun hParen => ?_) (fun _ => ?_)
  · refine ⟨_, rfl, hAt.trans ?_⟩
    rw [hParen]
  refine sound_ite (fun _ => ?_) (fun _ => ?_)
  · exact ⟨_, rfl, closeArm_sound hStanding hLt term⟩
  refine sound_ite (fun _ => ?_) (fun _ => ?_)
  · exact ⟨_, rfl, hGo, _, hStanding.skip hLt⟩
  · exact ⟨_, rfl, trivial⟩

/- What an arm of `open_paren` does to the list. -/
def ParenStep.Sound
    (b : Text)
    (d lo : Nat)
    (before : List Span)
    (s : Lexer) : ParenStep → Prop
| .go s' l' =>
    s.pos < s'.pos ∧ ∃ cut, Standing b d lo cut before s' l'
| .subshell s' l' =>
    s'.pos = s.pos + 1 ∧ l'.cur.tokens = [] ∧
      Standing b d lo s'.pos before s' l'

theorem groupArm_standing
    (hStanding : Standing b d lo cut before s l)
    (hLt : s.pos < b.length) :
    ∃ r, groupArm b s l = some r ∧ s.pos < r.1.pos ∧
      Standing b d lo cut before r.1 r.2 := by
  have hBounds :=
    skipBalanced_bounds (b := b) '(' ')' true hLt
  unfold groupArm
  dsimp only
  generalize skipBalanced b s.pos '(' ')' true = stop at hBounds ⊢
  rw [slice?_eq_some hBounds.1.le hBounds.2, Option.map_some]
  refine ⟨_, rfl, hBounds.1, ?_⟩
  have hPush (raw : Text) :
      Standing b d lo cut before (s.goto stop)
        (l.push
          { span := ⟨s.pos, stop⟩, value := raw, kind := .word }) :=
    hStanding.push
      (t :=
        { span := ⟨s.pos, stop⟩, value := raw, kind := .word })
      rfl hBounds.1 hBounds.2
  cases hLast : l.cur.tokens.getLast? with
  | none => exact hPush _
  | some last =>
      dsimp only
      split
      · have hTokens := List.dropLast_append_getLast? last hLast
        obtain ⟨bodies, hExcluded, hHeld⟩ := hStanding.held
        refine ⟨⟨bodies, hExcluded, ?_⟩, hBounds.2⟩
        exact
          hHeld.grow hTokens.symm rfl hBounds.1.le le_rfl
      · exact hPush _

theorem parenStep_sound
    (hStanding : Standing b d lo cut before s l)
    (hLt : s.pos < b.length) :
    ∃ step, parenStep b s l = some step ∧
      step.Sound b d lo before s := by
  have hGo : s.pos < s.pos + 1 := Nat.lt_succ_self _
  have hBounds :=
    skipBalanced_bounds (b := b) '(' ')' true hLt
  unfold parenStep
  split
  · exact ⟨_, rfl, hGo, _, hStanding.skip hLt⟩
  · split
    · obtain ⟨r, hGroup, hNext, hAfter⟩ :=
        groupArm_standing hStanding hLt
      rw [hGroup, Option.map_some]
      exact ⟨_, rfl, hNext, _, hAfter⟩
    · split
      · obtain ⟨r, hRaw, hNext, hAfter⟩ :=
          pushRaw_standing hStanding hBounds.1 hBounds.2
        rw [hRaw, Option.map_some]
        exact ⟨_, rfl, hNext, _, hAfter⟩
      · refine ⟨_, rfl, rfl, rfl, ?_⟩
        obtain ⟨bodies, hExcluded, hHeld⟩ := hStanding.held
        exact
          ⟨⟨bodies, hExcluded, (hHeld.advance hGo.le).clearTokens⟩,
            hLt⟩

end Arms

------------------------------------------------------------
-- The Arms Of A Word
------------------------------------------------------------

section WordArms

variable {s : Lexer}

/- What an arm of a word's loop does to the lexer. -/
def WordStep.Sound
    (b : Text)
    (s : Lexer) : WordStep → Prop
| .done s' =>
    s.pos ≤ s'.pos ∧ s'.pos ≤ b.length ∧
      s'.excluded = s.excluded
| .go s' _ =>
    s.pos < s'.pos ∧ s'.pos ≤ b.length ∧
      s'.excluded = s.excluded
| .process => s.pos + 2 ≤ b.length
| .backtick => True
| .quoted => True
| .dollar => True

theorem WordStep.sound_ite
    {p : Prop}
    [Decidable p]
    {x y : Option WordStep}
    (hPos : p → ∃ step, x = some step ∧ step.Sound b s)
    (hNeg : ¬ p → ∃ step, y = some step ∧ step.Sound b s) :
    ∃ step, (if p then x else y) = some step ∧
      step.Sound b s := by
  split
  · exact hPos ‹_›
  · exact hNeg ‹_›

theorem escape_sound
    (val : Text)
    (hLt : s.pos < b.length) :
    (WordStep.go (escape b s val).1 (escape b s val).2).Sound b
      s := by
  unfold escape
  split
  · rename_i hNext
    exact
      ⟨Nat.lt_add_of_pos_right (by decide), lt_of_getElem? hNext,
        rfl⟩
  · rename_i hNext
    exact
      ⟨Nat.lt_add_of_pos_right (by decide), lt_of_getElem? hNext,
        rfl⟩
  · exact ⟨Nat.lt_add_of_pos_right (by decide), hLt, rfl⟩

theorem singleQuoted_sound
    (val : Text)
    (hLt : s.pos < b.length) :
    ∃ r, singleQuoted b s val = some r ∧
      (WordStep.go r.1 r.2).Sound b s := by
  have hBounds :=
    runOf_bounds (b := b) (· ≠ '\'')
      (show s.pos + 1 ≤ b.length from hLt)
  unfold singleQuoted
  dsimp only
  rw [slice?_eq_some hBounds.1 hBounds.2, Option.map_some]
  refine ⟨_, rfl, ?_, min_le_right _ _, rfl⟩
  simp only [Lexer.goto]
  omega

theorem wordStep_sound
    (term : Term)
    (start : Nat)
    (val : Text)
    {c : Char}
    (hAt : b[s.pos]? = some c) :
    ∃ step, wordStep b s term start val c = some step ∧
      step.Sound b s := by
  have hLt := lt_of_getElem? hAt
  have hDone : (WordStep.done s).Sound b s :=
    ⟨le_rfl, hLt.le, rfl⟩
  unfold wordStep
  refine WordStep.sound_ite (fun _ => ?_) (fun _ => ?_)
  · exact ⟨_, rfl, hDone⟩
  refine WordStep.sound_ite (fun _ => ?_) (fun _ => ?_)
  · refine WordStep.sound_ite (fun hOpens => ?_) (fun _ => ?_)
    · exact ⟨_, rfl, lt_of_getElem? hOpens.2⟩
    · exact ⟨_, rfl, hDone⟩
  refine WordStep.sound_ite (fun _ => ?_) (fun _ => ?_)
  · refine WordStep.sound_ite (fun _ => ?_) (fun _ => ?_)
    · have hBounds :=
        skipBalanced_bounds (b := b) '(' ')' true hLt
      dsimp only
      rw [slice?_eq_some hBounds.1.le hBounds.2,
        Option.map_some]
      exact ⟨_, rfl, hBounds.1, hBounds.2, rfl⟩
    · exact ⟨_, rfl, hDone⟩
  refine WordStep.sound_ite (fun _ => ?_) (fun _ => ?_)
  · refine ⟨_, rfl, ?_⟩
    split
    · exact hDone
    · exact trivial
  refine WordStep.sound_ite (fun _ => ?_) (fun _ => ?_)
  · exact ⟨_, rfl, escape_sound val hLt⟩
  refine WordStep.sound_ite (fun _ => ?_) (fun _ => ?_)
  · obtain ⟨r, hQuoted, hSound⟩ := singleQuoted_sound val hLt
    rw [hQuoted, Option.map_some]
    exact ⟨_, rfl, hSound⟩
  refine WordStep.sound_ite (fun _ => ?_) (fun _ => ?_)
  · exact ⟨_, rfl, trivial⟩
  refine WordStep.sound_ite (fun _ => ?_) (fun _ => ?_)
  · exact ⟨_, rfl, trivial⟩
  · exact ⟨_, rfl, Nat.lt_succ_self _, hLt, rfl⟩

theorem quoteStep_sound
    (term : Term)
    (val : Text)
    {c : Char}
    (hAt : b[s.pos]? = some c) :
    (quoteStep b s term val c).Sound b s := by
  have hLt := lt_of_getElem? hAt
  have hGo (val : Text) : (WordStep.go (s.skip 1) val).Sound b s :=
    ⟨Nat.lt_succ_self _, hLt, rfl⟩
  unfold quoteStep
  split
  · exact ⟨Nat.le_succ _, hLt, rfl⟩
  · split
    · split
      · rename_i n hNext
        have hTwo (val : Text) :
            (WordStep.go (s.skip 2) val).Sound b s :=
          ⟨Nat.lt_add_of_pos_right (by decide),
            lt_of_getElem? hNext, rfl⟩
        split
        · exact hTwo _
        · split
          · exact hTwo _
          · exact hGo _
      · exact hGo _
    · split
      · exact trivial
      · split
        · split
          · exact ⟨le_rfl, hLt.le, rfl⟩
          · exact trivial
        · exact hGo _

theorem ansiFrom_le
    (text : Text)
    (pos : Nat)
    (val : Text) :
    pos ≤ (ansiFrom text pos val).1 := by
  fun_induction ansiFrom text pos val with
  | case1 => exact le_rfl
  | case2 => exact Nat.le_succ _
  | case3 => exact Nat.le_add_right _ _
  | case4 => exact Nat.le_succ _
  | case5 => exact Nat.le_succ _
  | case6 => rename_i ih; exact (Nat.le_add_right _ 2).trans ih
  | case7 => rename_i ih; exact (Nat.le_succ _).trans ih

def DollarStep.Sound
    (b : Text)
    (s : Lexer) : DollarStep → Prop
| .done s' _ =>
    s.pos < s'.pos ∧ s'.pos ≤ b.length ∧
      s'.excluded = s.excluded
| .sub => s.pos + 2 ≤ b.length

theorem rawGroup_sound
    (val : Text)
    (opener closer : Char)
    (single : Bool)
    (hNext : s.pos + 1 < b.length) :
    ∃ step,
      rawGroup b s val
          (skipBalanced b (s.pos + 1) opener closer single) =
        some step ∧ step.Sound b s := by
  have hBounds :=
    skipBalanced_bounds (b := b) opener closer single hNext
  have hLt : s.pos <
      skipBalanced b (s.pos + 1) opener closer single := by
    omega
  unfold rawGroup
  rw [slice?_eq_some hLt.le hBounds.2, Option.map_some]
  exact ⟨_, rfl, hLt, hBounds.2, rfl⟩

theorem dollarStep_sound
    (val : Text)
    (inDquote : Bool)
    (hLt : s.pos < b.length) :
    ∃ step, dollarStep b s val inDquote = some step ∧
      step.Sound b s := by
  have hGo (val : Text) :
      (DollarStep.done (s.skip 1) val).Sound b s :=
    ⟨Nat.lt_succ_self _, hLt, rfl⟩
  unfold dollarStep
  split
  · rename_i c hPeek
    have hNext : s.pos + 1 < b.length := lt_of_getElem? hPeek
    split_ifs
    · exact rawGroup_sound val _ _ _ hNext
    · exact ⟨_, rfl, hNext⟩
    · exact rawGroup_sound val _ _ _ hNext
    · exact ⟨_, rfl, hGo _⟩
    · have hLe :=
        ansiFrom_le (b.drop (s.pos + 2)) (s.pos + 2) val
      refine ⟨_, rfl, ?_, min_le_right _ _, rfl⟩
      simp only [Lexer.goto]
      omega
    · exact ⟨_, rfl, hGo _⟩
    · exact ⟨_, rfl, hGo _⟩
  · exact ⟨_, rfl, hGo _⟩

theorem skipList_sound
    (term : Term)
    (hPos : 0 < s.pos)
    (hLe : s.pos ≤ b.length) :
    s.pos ≤ (skipList b s term).pos ∧
      (skipList b s term).pos ≤ b.length := by
  unfold skipList
  cases term with
  | eof => exact ⟨hLe, le_rfl⟩
  | paren =>
      have hBounds :=
        skipBalanced_bounds (b := b) '(' ')' true
          (show s.pos - 1 < b.length by omega)
      refine ⟨?_, hBounds.2⟩
      simp only [Lexer.goto]
      omega
  | backtick =>
      have hBounds := runOf_bounds (b := b) (· ≠ '\u0060') hLe
      refine ⟨?_, min_le_right _ _⟩
      simp only [Lexer.goto]
      omega

end WordArms

end Command
