import AgentWays.Command.LexerSpec

/-
  A whole run of the lexer. Each turn of a loop takes a
  character on, so the steps that are given suffice; every
  slice is in range; and what is read lies in its places.

  Key definitions include:
    * `Command.Nests`

  Main declarations:
    * `Command.lex_laminar`
-/

------------------------------------------------------------
-- What Each Reader Leaves
------------------------------------------------------------

namespace Command

variable {b : Text}

/- What a part of a word reads, and the segments it nests. -/
def Nests
    (b : Text)
    (s : Lexer)
    (l : Listing)
    (r : Lexer × Listing × Text) : Prop :=
  ∃ segs new,
    Reads b s r.1 new ∧
      r.2.1 = { l with nested := l.nested ++ segs } ∧
      Region (l.depth + 1) s.pos r.1.pos segs new

theorem Nests.le
    {s : Lexer}
    {l : Listing}
    {r : Lexer × Listing × Text}
    (hNests : Nests b s l r) :
    s.pos ≤ r.1.pos ∧ r.1.pos ≤ b.length := by
  obtain ⟨segs, new, hReads, -, -⟩ := hNests
  exact ⟨hReads.runs.le, hReads.bound⟩

theorem Nests.depth
    {s : Lexer}
    {l : Listing}
    {r : Lexer × Listing × Text}
    (hNests : Nests b s l r) :
    r.2.1.depth = l.depth := by
  obtain ⟨segs, new, -, hList, -⟩ := hNests
  rw [hList]

/- A part that nests nothing. -/
theorem Nests.plain
    {s s' : Lexer}
    {l : Listing}
    (val : Text)
    (hLe : s.pos ≤ s'.pos)
    (hLen : s'.pos ≤ b.length)
    (hExcluded : s'.excluded = s.excluded) :
    Nests b s l (s', l, val) := by
  refine ⟨[], [], ⟨?_, hLe, hLen⟩, ?_, Region.nil hLe⟩
  · rw [hExcluded, List.append_nil]
  · rw [List.append_nil]

theorem Nests.trans
    {s : Lexer}
    {l : Listing}
    {r r' : Lexer × Listing × Text}
    (hNests : Nests b s l r)
    (hMore : Nests b r.1 r.2.1 r') :
    Nests b s l r' := by
  have hDepth := hNests.depth
  obtain ⟨segs, new, hReads, hList, hRegion⟩ := hNests
  obtain ⟨segs', new', hReads', hList', hRegion'⟩ := hMore
  rw [hDepth] at hRegion'
  refine
    ⟨segs ++ segs', new ++ new', hReads.trans hReads', ?_,
      hRegion.append hRegion'⟩
  rw [hList', hList, List.append_assoc]

/- The steps each reader is given, by the text that is left. -/
def ListSpec
    (b : Text)
    (n : Nat) : Prop :=
  ∀ {d lo cut before s l}, Standing b d lo cut before s l →
    8 * (b.length - s.pos) + 4 ≤ n → ∀ term,
      ∃ s' segs bodies,
        listFrom b n s l term = some (s', segs) ∧
          s.pos ≤ s'.pos ∧ s'.pos ≤ b.length ∧
          s'.excluded = before ++ bodies ∧
          Region d lo s'.pos segs bodies

def SubSpec
    (b : Text)
    (n : Nat) : Prop :=
  ∀ {s : Lexer}, 0 < s.pos → s.pos ≤ b.length →
    8 * (b.length - s.pos) + 5 ≤ n → ∀ depth first term,
      ∃ s' segs new,
        subList b n s depth first term = some (s', segs) ∧
          Reads b s s' new ∧
          Region (depth + 1) s.pos s'.pos segs new

def ParenSpec
    (b : Text)
    (n : Nat) : Prop :=
  ∀ {d lo cut before s l}, Standing b d lo cut before s l →
    s.pos < b.length → 8 * (b.length - s.pos) ≤ n →
      ∃ s' l', openParen b n s l = some (s', l') ∧
        s.pos < s'.pos ∧ ∃ cut, Standing b d lo cut before s' l'

def WordSpec
    (b : Text)
    (n : Nat) : Prop :=
  ∀ {d lo cut before s l}, Standing b d lo cut before s l →
    s.pos < b.length → 8 * (b.length - s.pos) + 2 ≤ n →
      ∀ term, ∃ s' l', word b n s l term = some (s', l') ∧
        s.pos < s'.pos ∧ ∃ cut, Standing b d lo cut before s' l'

def WordFromSpec
    (b : Text)
    (n : Nat) : Prop :=
  ∀ {s : Lexer}, s.pos ≤ b.length →
    8 * (b.length - s.pos) + 1 ≤ n → ∀ l term start val,
      ∃ r, wordFrom b n s l term start val = some r ∧
        Nests b s l r

def SubstitutionSpec
    (b : Text)
    (n : Nat) : Prop :=
  ∀ {s inside : Lexer}, s.pos < inside.pos →
    inside.pos ≤ b.length → inside.excluded = s.excluded →
      8 * (b.length - inside.pos) + 6 ≤ n → ∀ l term val,
        ∃ r, substitution b n s inside l term val = some r ∧
          Nests b s l r ∧ inside.pos ≤ r.1.pos

def QuotedSpec
    (b : Text)
    (n : Nat) : Prop :=
  ∀ {s : Lexer}, s.pos ≤ b.length →
    8 * (b.length - s.pos) + 1 ≤ n → ∀ l term val,
      ∃ r, quotedFrom b n s l term val = some r ∧ Nests b s l r

def DollarSpec
    (b : Text)
    (n : Nat) : Prop :=
  ∀ {s : Lexer}, s.pos < b.length →
    8 * (b.length - s.pos) ≤ n → ∀ l val inDquote,
      ∃ r, dollar b n s l val inDquote = some r ∧
        Nests b s l r ∧ s.pos < r.1.pos

------------------------------------------------------------
-- One More Step
------------------------------------------------------------

variable {n : Nat}

theorem subSpec_succ
    (hList : ListSpec b n) :
    SubSpec b (n + 1) := by
  intro s hPos hLe hSteps depth first term
  unfold subList
  split
  · rename_i hCapped
    have hFresh :
        Standing b (depth + 1) s.pos s.pos s.excluded s
          (Listing.new (depth + 1) first) :=
      ⟨⟨[], (List.append_nil _).symm, Held.fresh hCapped first⟩,
        hLe⟩
    obtain ⟨s', segs, bodies, hRun, hOn, hLen, hExcluded, hRegion⟩ :=
      hList hFresh (by omega) term
    exact
      ⟨s', segs, bodies, hRun,
        ⟨hExcluded, hRegion.bodies, hLen⟩, hRegion⟩
  · have hSkip := skipList_sound term hPos hLe
    exact
      ⟨_, [], [], rfl, Reads.goto hSkip.1 hSkip.2,
        Region.nil hSkip.1⟩

theorem substitutionSpec_succ
    (hSub : SubSpec b n) :
    SubstitutionSpec b (n + 1) := by
  intro s inside hGo hLe hExcluded hSteps l term val
  obtain ⟨s', segs, new, hRun, hReads, hRegion⟩ :=
    hSub (Nat.zero_lt_of_lt hGo) hLe (by omega) l.depth
      .commandSubstitution term
  have hOn := hReads.runs.le
  unfold substitution
  rw [hRun, Option.bind_some,
    slice?_eq_some (hGo.le.trans hOn) hReads.bound,
    Option.map_some]
  refine
    ⟨_, rfl, ⟨segs, new, ⟨?_, ?_, hReads.bound⟩, rfl, ?_⟩, hOn⟩
  · rw [hReads.excluded, hExcluded]
  · exact hReads.runs.mono hGo.le le_rfl
  · exact hRegion.mono hGo.le le_rfl

theorem dollarSpec_succ
    (hSubstitution : SubstitutionSpec b n) :
    DollarSpec b (n + 1) := by
  intro s hLt hSteps l val inDquote
  obtain ⟨step, hStep, hSound⟩ :=
    dollarStep_sound val inDquote hLt
  unfold dollar
  rw [hStep, Option.bind_some]
  cases step with
  | done s' val' =>
      exact
        ⟨_, rfl,
          Nests.plain val' hSound.1.le hSound.2.1 hSound.2.2,
          hSound.1⟩
  | sub =>
      have hTwo : s.pos < s.pos + 2 :=
        Nat.lt_add_of_pos_right (by decide)
      obtain ⟨r, hRun, hNests, hOn⟩ :=
        @hSubstitution s (s.skip 2) hTwo hSound rfl
          (by simp only [Lexer.skip]; omega) l .paren val
      exact ⟨r, hRun, hNests, hTwo.trans_le hOn⟩

/- A part of a word, and then the rest of the loop. -/
theorem nests_bind
    {s : Lexer}
    {l : Listing}
    {r : Lexer × Listing × Text}
    {next : Option (Lexer × Listing × Text)}
    (hNests : Nests b s l r)
    (hNext : ∃ r', next = some r' ∧ Nests b r.1 r.2.1 r') :
    ∃ r', next = some r' ∧ Nests b s l r' := by
  obtain ⟨r', hRun, hMore⟩ := hNext
  exact ⟨r', hRun, hNests.trans hMore⟩

theorem quotedSpec_succ
    (hQuoted : QuotedSpec b n)
    (hSubstitution : SubstitutionSpec b n)
    (hDollar : DollarSpec b n) :
    QuotedSpec b (n + 1) := by
  intro s hLe hSteps l term val
  unfold quotedFrom
  cases hAt : b[s.pos]? with
  | none => exact ⟨_, rfl, Nests.plain val le_rfl hLe rfl⟩
  | some c =>
      have hLt := lt_of_getElem? hAt
      have hGo : s.pos < s.pos + 1 := Nat.lt_succ_self _
      have hSound := quoteStep_sound term val hAt
      have hRest {s' : Lexer}
          (hOn : s.pos < s'.pos)
          (hLen : s'.pos ≤ b.length) :
          ∀ l val, ∃ r, quotedFrom b n s' l term val = some r ∧
            Nests b s' l r :=
        fun l val => hQuoted hLen (by omega) l term val
      have hBacktick :
          ∃ r,
            ((substitution b n s (s.skip 1) l .backtick val).bind
              fun r => quotedFrom b n r.1 r.2.1 term r.2.2) =
              some r ∧ Nests b s l r := by
        obtain ⟨r, hRun, hNests, hOn⟩ :=
          @hSubstitution s (s.skip 1) hGo hLt rfl
            (by simp only [Lexer.skip]; omega) l .backtick val
        rw [hRun, Option.bind_some]
        exact
          nests_bind hNests
            (hRest (hGo.trans_le hOn) hNests.le.2 _ _)
      dsimp only
      generalize quoteStep b s term val c = step at hSound ⊢
      cases step with
      | done s' =>
          exact
            ⟨_, rfl, Nests.plain val hSound.1 hSound.2.1 hSound.2.2⟩
      | go s' val' =>
          exact
            nests_bind
              (Nests.plain val' hSound.1.le hSound.2.1 hSound.2.2)
              (hRest hSound.1 hSound.2.1 _ _)
      | dollar =>
          obtain ⟨r, hRun, hNests, hOn⟩ :=
            hDollar hLt (by omega) l val true
          dsimp only
          rw [hRun, Option.bind_some]
          exact nests_bind hNests (hRest hOn hNests.le.2 _ _)
      | process => exact hBacktick
      | backtick => exact hBacktick
      | quoted => exact hBacktick

theorem wordFromSpec_succ
    (hWordFrom : WordFromSpec b n)
    (hSubstitution : SubstitutionSpec b n)
    (hQuoted : QuotedSpec b n)
    (hDollar : DollarSpec b n) :
    WordFromSpec b (n + 1) := by
  intro s hLe hSteps l term start val
  unfold wordFrom
  cases hAt : b[s.pos]? with
  | none => exact ⟨_, rfl, Nests.plain val le_rfl hLe rfl⟩
  | some c =>
      have hLt := lt_of_getElem? hAt
      have hGo : s.pos < s.pos + 1 := Nat.lt_succ_self _
      obtain ⟨step, hStep, hSound⟩ :=
        wordStep_sound term start val hAt
      have hRest {s' : Lexer}
          (hOn : s.pos < s'.pos)
          (hLen : s'.pos ≤ b.length) :
          ∀ l val, ∃ r,
            wordFrom b n s' l term start val = some r ∧
              Nests b s' l r :=
        fun l val => hWordFrom hLen (by omega) l term start val
      have hSub {k : Nat}
          (hK : 0 < k)
          (hLen : s.pos + k ≤ b.length)
          (term' : Term) :
          ∃ r,
            ((substitution b n s (s.skip k) l term' val).bind
              fun r =>
                wordFrom b n r.1 r.2.1 term start r.2.2) =
              some r ∧ Nests b s l r := by
        have hOn : s.pos < s.pos + k := Nat.lt_add_of_pos_right hK
        obtain ⟨r, hRun, hNests, hPast⟩ :=
          @hSubstitution s (s.skip k) hOn hLen rfl
            (by simp only [Lexer.skip]; omega) l term' val
        rw [hRun, Option.bind_some]
        exact
          nests_bind hNests
            (hRest (hOn.trans_le hPast) hNests.le.2 _ _)
      dsimp only
      rw [hStep, Option.bind_some]
      cases step with
      | done s' =>
          exact
            ⟨_, rfl, Nests.plain val hSound.1 hSound.2.1 hSound.2.2⟩
      | go s' val' =>
          exact
            nests_bind
              (Nests.plain val' hSound.1.le hSound.2.1 hSound.2.2)
              (hRest hSound.1 hSound.2.1 _ _)
      | process => exact hSub (by decide) hSound .paren
      | backtick => exact hSub (by decide) hLt .backtick
      | quoted =>
          obtain ⟨r, hRun, hNests⟩ :=
            hQuoted (s := s.skip 1) hLt
              (by simp only [Lexer.skip]; omega) l term val
          have hFirst : Nests b s l (s.skip 1, l, val) :=
            Nests.plain val hGo.le hLt rfl
          have hBoth := hFirst.trans hNests
          dsimp only
          rw [hRun, Option.bind_some]
          exact
            nests_bind hBoth
              (hRest (hGo.trans_le hNests.le.1) hNests.le.2 _ _)
      | dollar =>
          obtain ⟨r, hRun, hNests, hOn⟩ :=
            hDollar hLt (by omega) l val false
          dsimp only
          rw [hRun, Option.bind_some]
          exact nests_bind hNests (hRest hOn hNests.le.2 _ _)

/- A word's token holds all that the word nests. -/
theorem wordEnd_standing
    {d lo cut : Nat}
    {before : List Span}
    {s : Lexer}
    {l : Listing}
    (hStanding : Standing b d lo cut before s l)
    {r : Lexer × Listing × Text}
    (hNests : Nests b s l r)
    (hOn : s.pos < r.1.pos) :
    ∃ s' l', wordEnd b r.1 r.2.1 s.pos r.2.2 = some (s', l') ∧
      s.pos < s'.pos ∧ Standing b d lo cut before s' l' := by
  obtain ⟨segs, new, hReads, hList, hRegion⟩ := hNests
  obtain ⟨bodies, hExcluded, hHeld⟩ := hStanding.held
  rw [hHeld.depth] at hRegion
  have hWord (kind : TokenKind) :
      Standing b d lo cut before r.1
        (Listing.push { l with nested := l.nested ++ segs }
          { span := ⟨s.pos, r.1.pos⟩
            value := r.2.2
            kind := kind }) := by
    refine ⟨⟨bodies ++ new, ?_, hHeld.word hRegion rfl hOn⟩, ?_⟩
    · rw [hReads.excluded, hExcluded, List.append_assoc]
    · exact hReads.bound
  unfold wordEnd
  rw [slice?_eq_some hOn.le hReads.bound, Option.map_some, hList]
  cases hRedirect : l.redirect with
  | some op =>
      refine ⟨_, _, rfl, hOn,
        (hWord .redirectTarget).congr ?_ ?_ ?_ ?_ ?_ ?_⟩
      all_goals rfl
  | none =>
      refine ⟨_, _, rfl, hOn,
        (hWord .word).congr ?_ ?_ ?_ ?_ ?_ ?_⟩
      all_goals rfl

theorem wordSpec_succ
    (hWordFrom : WordFromSpec b n) :
    WordSpec b (n + 1) := by
  intro d lo cut before s l hStanding hLt hSteps term
  obtain ⟨r, hRun, hNests⟩ :=
    hWordFrom hLt.le (by omega) l term s.pos []
  unfold word
  rw [hRun, Option.bind_some]
  split
  · rename_i hStays
    -- Nothing was read, so nothing was nested.
    obtain ⟨segs, new, hReads, hList, hRegion⟩ := hNests
    have hNone : segs = [] := by
      rw [List.eq_nil_iff_forall_not_mem]
      intro x hIn
      have hRoom := (hRegion.placed x hIn).lt
      omega
    have hSame : r.2.1 = l := by
      rw [hList, hNone, List.append_nil]
    have hGo : r.1.pos + 1 ≤ b.length := by
      omega
    rw [hSame]
    refine ⟨_, _, rfl, ?_, _,
      (hStanding.read hReads).skip hGo⟩
    simp only [Lexer.skip]
    omega
  · rename_i hMoves
    have hOn := lt_of_le_of_ne hNests.le.1 (Ne.symm hMoves)
    obtain ⟨s', l', hEnd, hNext, hAfter⟩ :=
      wordEnd_standing hStanding hNests hOn
    exact ⟨s', l', hEnd, hNext, _, hAfter⟩

theorem parenSpec_succ
    (hSub : SubSpec b n) :
    ParenSpec b (n + 1) := by
  intro d lo cut before s l hStanding hLt hSteps
  obtain ⟨step, hStep, hSound⟩ := parenStep_sound hStanding hLt
  unfold openParen
  rw [hStep, Option.bind_some]
  cases step with
  | go s' l' => exact ⟨s', l', rfl, hSound⟩
  | subshell s' l' =>
      obtain ⟨hPos, hEmpty, hInside⟩ := hSound
      obtain ⟨bodies, hExcluded, hHeld⟩ := hInside.held
      obtain ⟨s'', segs, new, hRun, hReads, hRegion⟩ :=
        hSub (s := s') (by omega) hInside.bound (by omega)
          l'.depth .subshell .paren
      rw [hHeld.depth] at hRegion
      have hOn := hReads.runs.le
      dsimp only
      rw [hRun, Option.map_some]
      refine ⟨_, _, rfl, ?_, s''.pos,
        ⟨bodies ++ new, ?_, hHeld.subshell hEmpty hRegion⟩,
        hReads.bound⟩
      · dsimp only
        omega
      · rw [hReads.excluded, hExcluded, List.append_assoc]

theorem listSpec_succ
    (hList : ListSpec b n)
    (hWord : WordSpec b n)
    (hParen : ParenSpec b n) :
    ListSpec b (n + 1) := by
  intro d lo cut before s l hStanding hSteps term
  have hDone {cut : Nat} {s : Lexer} {l : Listing}
      (hStanding : Standing b d lo cut before s l) :
      ∃ bodies, s.excluded = before ++ bodies ∧
        Region d lo s.pos l.finish bodies := by
    obtain ⟨bodies, hExcluded, hHeld⟩ := hStanding.held
    exact ⟨bodies, hExcluded, hHeld.finish⟩
  unfold listFrom
  cases hAt : b[s.pos]? with
  | none =>
      obtain ⟨bodies, hExcluded, hRegion⟩ := hDone hStanding
      exact
        ⟨s, _, bodies, rfl, le_rfl, hStanding.bound, hExcluded,
          hRegion⟩
  | some c =>
      have hLt := lt_of_getElem? hAt
      obtain ⟨step, hStep, hSound⟩ :=
        listStep_sound hStanding hAt term
      have hRest {cut : Nat} {s' : Lexer} {l' : Listing}
          (hOn : s.pos < s'.pos)
          (hAfter : Standing b d lo cut before s' l') :
          ∃ s'' segs bodies,
            listFrom b n s' l' term = some (s'', segs) ∧
              s.pos ≤ s''.pos ∧ s''.pos ≤ b.length ∧
              s''.excluded = before ++ bodies ∧
              Region d lo s''.pos segs bodies := by
        have hBound := hAfter.bound
        obtain ⟨s'', segs, bodies, hRun, hPast, hMore⟩ :=
          hList hAfter (by omega) term
        exact
          ⟨s'', segs, bodies, hRun, hOn.le.trans hPast, hMore⟩
      dsimp only
      rw [hStep, Option.bind_some]
      cases step with
      | go s' l' =>
          obtain ⟨hOn, cut', hAfter⟩ := hSound
          exact hRest hOn hAfter
      | word =>
          obtain ⟨s', l', hRun, hOn, cut', hAfter⟩ :=
            hWord hStanding hLt (by omega) term
          dsimp only
          rw [hRun, Option.bind_some]
          exact hRest hOn hAfter
      | paren =>
          obtain ⟨s', l', hRun, hOn, cut', hAfter⟩ :=
            hParen hStanding hLt (by omega)
          dsimp only
          rw [hRun, Option.bind_some]
          exact hRest hOn hAfter
      | done s' l' =>
          obtain ⟨hOn, cut', hAfter⟩ := hSound
          obtain ⟨bodies, hExcluded, hRegion⟩ := hDone hAfter
          exact
            ⟨s', _, bodies, rfl, hOn.le, hAfter.bound, hExcluded,
              hRegion⟩

/- All readers at once, by the steps they are given. -/
structure Specs
    (b : Text)
    (n : Nat) : Prop where
  list : ListSpec b n
  sub : SubSpec b n
  paren : ParenSpec b n
  word : WordSpec b n
  wordFrom : WordFromSpec b n
  substitution : SubstitutionSpec b n
  quoted : QuotedSpec b n
  dollar : DollarSpec b n

theorem specs
    (n : Nat) :
    Specs b n := by
  induction n with
  | zero =>
      refine ⟨?_, ?_, ?_, ?_, ?_, ?_, ?_, ?_⟩
      · intro d lo cut before s l hStanding hSteps
        omega
      · intro s hPos hLe hSteps
        omega
      · intro d lo cut before s l hStanding hLt hSteps
        omega
      · intro d lo cut before s l hStanding hLt hSteps
        omega
      · intro s hLe hSteps
        omega
      · intro s inside hGo hLe hExcluded hSteps
        omega
      · intro s hLe hSteps
        omega
      · intro s hLt hSteps
        omega
  | succ n ih =>
      exact
        { list := listSpec_succ ih.list ih.word ih.paren
          sub := subSpec_succ ih.list
          paren := parenSpec_succ ih.sub
          word := wordSpec_succ ih.wordFrom
          wordFrom :=
            wordFromSpec_succ ih.wordFrom ih.substitution
              ih.quoted ih.dollar
          substitution := substitutionSpec_succ ih.sub
          quoted :=
            quotedSpec_succ ih.quoted ih.substitution ih.dollar
          dollar := dollarSpec_succ ih.substitution }

------------------------------------------------------------
-- The Whole Text
------------------------------------------------------------

theorem lex_region
    (b : Text)
    {depth : Nat}
    (hDepth : depth < maxDepth) :
    ∃ out, lex b depth = some out ∧
      Region depth 0 b.length out.segments out.excluded := by
  have hFresh :
      Standing b depth 0 0 []
        { pos := 0, heredocs := [], excluded := [] }
        (Listing.new depth .start) :=
    ⟨⟨[], rfl, Held.fresh hDepth .start⟩, Nat.zero_le _⟩
  obtain ⟨s, segs, bodies, hRun, -, hLen, hExcluded, hRegion⟩ :=
    (specs (lexSteps b)).list hFresh
      (by simp only [lexSteps]; omega) .eof
  unfold lex
  rw [hRun, Option.map_some]
  refine ⟨_, rfl, ?_⟩
  rw [hExcluded]
  exact hRegion.mono le_rfl hLen

/-
  Lexing any text ends within its steps and never slices out
  of range. Each segment has a token and lies in the text,
  its tokens in order and its depth below the cap; of two
  segments the later lies deeper in one token of the earlier,
  or they keep apart; and the heredoc bodies follow each other
  and cut into no token.
-/
theorem lex_laminar
    (b : Text)
    {depth : Nat}
    (hDepth : depth < maxDepth) :
    ∃ out, lex b depth = some out ∧
      (∀ x ∈ out.segments,
        x.tokens ≠ [] ∧ depth ≤ x.depth ∧ x.depth < maxDepth ∧
          (∀ t ∈ x.tokens, t.span.start < t.span.stop) ∧
          Span.Runs 0 (x.tokens.map Token.span) b.length) ∧
      out.segments.Pairwise Laminar ∧
      Span.Runs 0 out.excluded b.length ∧
      ∀ x ∈ out.segments, Clears out.excluded x := by
  obtain ⟨out, hLex, hRegion⟩ := lex_region b hDepth
  refine
    ⟨out, hLex, fun x hIn => ?_, hRegion.laminar,
      hRegion.bodies, hRegion.clears⟩
  have hPlaced := hRegion.placed x hIn
  exact
    ⟨hPlaced.filled, hPlaced.depth, hPlaced.capped,
      hPlaced.wide, hPlaced.runs⟩

/- A substitution that is never closed, in a string. -/
theorem lex_unclosed :
    ∃ out, lex "a \"$(b".toList 31 = some out ∧
      (∀ x ∈ out.segments,
        x.tokens ≠ [] ∧ 31 ≤ x.depth ∧ x.depth < maxDepth ∧
          (∀ t ∈ x.tokens, t.span.start < t.span.stop) ∧
          Span.Runs 0 (x.tokens.map Token.span)
            "a \"$(b".toList.length) ∧
      out.segments.Pairwise Laminar ∧
      Span.Runs 0 out.excluded "a \"$(b".toList.length ∧
      ∀ x ∈ out.segments, Clears out.excluded x :=
  lex_laminar "a \"$(b".toList (by simp [maxDepth])

end Command
