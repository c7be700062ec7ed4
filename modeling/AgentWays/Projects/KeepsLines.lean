import AgentWays.Projects.Swap
import Mathlib.Data.List.Nodup

/-
  A guarded rewrite drops no line, where no session appends
  while the rewrite is about to rename, and none appends to
  the file that was renamed over.

  The file is what it was with the lines that sessions have
  appended, the part the rewrite has read rewritten line by
  line.

  Key definitions include:
    * `Projects.timely`
    * `Projects.Keeps`

  Main declarations:
    * `Projects.keepsLines`
-/

------------------------------------------------------------
-- One File
------------------------------------------------------------

namespace Projects

variable {s : File}

theorem content_append
    (hBound : s.named < s.inodes.length)
    (line : Bytes)
    (now : Nat) :
    (s.append s.named line now).content =
      s.content ++ line := by
  simp [File.content, File.inode, File.append,
    List.getD_eq_getElem?_getD, List.getElem?_eq_getElem hBound]

theorem content_swap
    (content : Bytes) :
    (s.swap content).content = content := by
  simp [File.content, File.inode, File.swap]

@[simp] theorem content_to
    (pass : Pass) :
    (s.to pass).content = s.content := rfl

/-
  What the rewrite knows of the file: it has grown since the
  rewrite has looked at it, and since it has read it.
-/
def PassOk
    (j : JsonText)
    (f : Field)
    (s : File) : Prop :=
  match s.pass with
  | .waiting => True
  | .stamped before => before.1 ≤ s.content.length
  | .read before bytes =>
      before.1 ≤ bytes.length ∧ bytes <+: s.content
  | .written before bytes =>
      before.1 ≤ bytes.length ∧ bytes <+: s.content ∧
        (rewriteTally j f bytes).changed ≠ 0
  | .checked before bytes =>
      before.1 ≤ bytes.length ∧ bytes <+: s.content ∧
        (rewriteTally j f bytes).changed ≠ 0
  | .finished _ => True

/- What the rewrite knows outlives a line for the file. -/
theorem PassOk.append
    {j : JsonText}
    {f : Field}
    (hOk : PassOk j f s)
    (hBound : s.named < s.inodes.length)
    (line : Bytes)
    (now : Nat) :
    PassOk j f (s.append s.named line now) := by
  have hContent := content_append hBound line now
  have hPass : (s.append s.named line now).pass = s.pass := rfl
  unfold PassOk at hOk ⊢
  rw [hPass, hContent]
  cases hAt : s.pass with
  | waiting => trivial
  | stamped before =>
      simp only [hAt] at hOk ⊢
      rw [List.length_append]
      omega
  | read before bytes =>
      simp only [hAt] at hOk ⊢
      exact
        ⟨hOk.1, hOk.2.trans (List.prefix_append _ _)⟩
  | written before bytes =>
      simp only [hAt] at hOk ⊢
      exact
        ⟨hOk.1, hOk.2.1.trans (List.prefix_append _ _),
          hOk.2.2⟩
  | checked before bytes =>
      simp only [hAt] at hOk ⊢
      exact
        ⟨hOk.1, hOk.2.1.trans (List.prefix_append _ _),
          hOk.2.2⟩
  | finished result => trivial

/- A file with the length it had holds what was read of it. -/
theorem content_of_stamp
    {before : Nat × Nat}
    {bytes : Bytes}
    (hLength : before.1 ≤ bytes.length)
    (hPrefix : bytes <+: s.content)
    (hStamp : stamp (s.inode s.named) = before) :
    s.content = bytes := by
  have hSame : s.content.length = before.1 := by
    rw [← hStamp]
    rfl
  exact
    (List.IsPrefix.eq_of_length_le hPrefix (by omega)).symm

/- Where a look at the file finds what an earlier one found. -/
theorem File.step_cases
    (j : JsonText)
    (f : Field)
    (s : File)
    (event : Event) :
    ((s.step j f event).inodes = s.inodes ∧
        (s.step j f event).named = s.named ∧
          (s.step j f event).pass.swapped =
            s.pass.swapped) ∨
      ∃ before bytes,
        event = .go ∧ s.pass = .checked before bytes ∧
          s.step j f event =
            (s.swap (rewriteBytes j f bytes)).to
              (.finished (.ok (rewriteTally j f bytes))) := by
  cases event with
  | fail =>
      refine Or.inl ?_
      unfold File.step
      cases hPass : s.pass <;>
        simp [File.to, Pass.swapped, hPass]
  | go =>
      cases hPass : s.pass with
      | checked before bytes =>
          refine Or.inr ⟨before, bytes, rfl, rfl, ?_⟩
          simp only [File.step, hPass]
      | read before bytes =>
          refine Or.inl ?_
          simp only [File.step, hPass]
          split
          · rename_i hNone
            simp [File.to, Pass.swapped, hNone]
          · simp [File.to, Pass.swapped]
      | written before bytes =>
          refine Or.inl ?_
          simp only [File.step, hPass]
          split <;> simp [File.to, Pass.swapped]
      | waiting =>
          refine Or.inl ?_
          simp [File.step, hPass, File.to, Pass.swapped]
      | stamped before =>
          refine Or.inl ?_
          simp [File.step, hPass, File.to, Pass.swapped]
      | finished result =>
          refine Or.inl ?_
          simp [File.step, hPass]

theorem PassOk.step
    {j : JsonText}
    {f : Field}
    (hOk : PassOk j f s)
    (event : Event) :
    PassOk j f (s.step j f event) := by
  unfold PassOk at hOk
  cases event with
  | fail =>
      unfold File.step PassOk
      cases hPass : s.pass <;> simp [File.to, hPass]
  | go =>
      unfold File.step
      cases hPass : s.pass with
      | waiting => exact Nat.le_refl _
      | stamped before =>
          rw [hPass] at hOk
          exact ⟨hOk, List.prefix_refl _⟩
      | read before bytes =>
          rw [hPass] at hOk
          simp only
          split
          · trivial
          · rename_i hChanged
            exact ⟨hOk.1, hOk.2, hChanged⟩
      | written before bytes =>
          rw [hPass] at hOk
          simp only
          split
          · exact hOk
          · trivial
      | checked before bytes => trivial
      | finished result =>
          simp only
          unfold PassOk
          rw [hPass]
          trivial

end Projects

------------------------------------------------------------
-- The Lines Of A File
------------------------------------------------------------

namespace Projects

/- The lines that some sessions have written, in order. -/
def linesOf
    (calls : List Appender)
    (order : List Nat) : Bytes :=
  order.flatMap
    (fun i => (calls[i]?.bind Appender.wrote).getD [])

/-
  The file is what it was at the start with every line that
  was written, once: the first of them and the start itself
  as the rewrite leaves them, once it is in place.
-/
structure Keeps
    (j : JsonText)
    (f : Field)
    (start : Bytes)
    (s : Calls)
    (first second : List Nat) : Prop where
  once : (first ++ second).Nodup
  mem :
    ∀ i, i ∈ first ++ second ↔
      ∃ c, s.calls[i]? = some c ∧ c.wrote.isSome
  content :
    s.shared.content =
      if s.shared.pass.swapped then
        rewriteBytes j f (start ++ linesOf s.calls first) ++
          linesOf s.calls second
      else
        start ++ linesOf s.calls first ++
          linesOf s.calls second

variable {j : JsonText} {f : Field} {start : Bytes}
variable {s : Calls} {first second order : List Nat}
variable {calls : List Appender} {i : Nat}
variable {call call' : Appender}

theorem linesOf_append
    (calls : List Appender)
    (first second : List Nat) :
    linesOf calls (first ++ second) =
      linesOf calls first ++ linesOf calls second :=
  List.flatMap_append

/- A call that is not of an order leaves its lines alone. -/
theorem linesOf_set
    (hNot : i ∉ order) :
    linesOf (calls.set i call') order =
      linesOf calls order := by
  unfold linesOf
  apply List.flatMap_congr
  intro k hMember
  have hOther : i ≠ k := by
    rintro rfl
    exact hNot hMember
  rw [List.getElem?_set_ne hOther]

theorem linesOf_concat
    (call : Appender)
    (hBound : ∀ k ∈ order, k < calls.length) :
    linesOf (calls ++ [call]) order =
      linesOf calls order := by
  unfold linesOf
  apply List.flatMap_congr
  intro k hMember
  rw [List.getElem?_append_left (hBound k hMember)]

/- A session starts, and has written nothing. -/
theorem Keeps.began
    (hKeeps : Keeps j f start s first second)
    (line : Bytes) :
    Keeps j f start
      { s with calls := s.calls ++ [.opening line] }
      first second := by
  have hBound :
      ∀ k ∈ first ++ second, k < s.calls.length := by
    intro k hMember
    rcases (hKeeps.mem k).mp hMember with ⟨c, hCall, -⟩
    exact (List.getElem?_eq_some_iff.mp hCall).1
  have hFirst :=
    linesOf_concat (.opening line)
      (fun k hMember =>
        hBound k (List.mem_append_left second hMember))
  have hSecond :=
    linesOf_concat (.opening line)
      (fun k hMember =>
        hBound k (List.mem_append_right first hMember))
  refine ⟨hKeeps.once, ?_, ?_⟩
  · intro k
    rw [hKeeps.mem k]
    constructor
    · rintro ⟨c, hCall, hSome⟩
      have hAt := (List.getElem?_eq_some_iff.mp hCall).1
      exact
        ⟨c, by rw [List.getElem?_append_left hAt]; exact hCall,
          hSome⟩
    · rintro ⟨c, hCall, hSome⟩
      rw [List.getElem?_append] at hCall
      split at hCall
      · exact ⟨c, hCall, hSome⟩
      · rw [List.getElem?_singleton] at hCall
        split at hCall
        · cases hCall
          cases hSome
        · cases hCall
  · simp only [hFirst, hSecond]
    exact hKeeps.content

/- A session that has written nothing is not of the order. -/
theorem Keeps.not_mem
    (hKeeps : Keeps j f start s first second)
    (hCall : s.calls[i]? = some call)
    (hNone : call.wrote = none) :
    i ∉ first ++ second := by
  intro hMember
  rcases (hKeeps.mem i).mp hMember with ⟨c, hAt, hSome⟩
  rw [hCall] at hAt
  rw [← Option.some.inj hAt, hNone] at hSome
  cases hSome

theorem mem_set_iff
    (hCall : calls[i]? = some call)
    (k : Nat) :
    (∃ c, (calls.set i call')[k]? = some c ∧
        c.wrote.isSome) ↔
      if k = i then call'.wrote.isSome = true
      else ∃ c, calls[k]? = some c ∧ c.wrote.isSome := by
  have hBound := (List.getElem?_eq_some_iff.mp hCall).1
  by_cases hK : k = i
  · rw [if_pos hK, hK, List.getElem?_set_self hBound]
    simp
  · rw [if_neg hK, List.getElem?_set_ne (Ne.symm hK)]

/- A session opens the file. -/
theorem Keeps.opened
    (hKeeps : Keeps j f start s first second)
    (hCall : s.calls[i]? = some call)
    (hNone : call.wrote = none)
    (hNone' : call'.wrote = none) :
    Keeps j f start
      { s with calls := s.calls.set i call' }
      first second := by
  have hNot := hKeeps.not_mem hCall hNone
  have hNots : i ∉ first ∧ i ∉ second := by
    simpa using hNot
  refine ⟨hKeeps.once, ?_, ?_⟩
  · intro k
    rw [mem_set_iff hCall, hNone']
    by_cases hK : k = i
    · rw [if_pos hK, hK]
      simpa using hNot
    · rw [if_neg hK]
      exact hKeeps.mem k
  · simp only [linesOf_set hNots.1, linesOf_set hNots.2]
    exact hKeeps.content

/- A session appends its line to the file. -/
theorem Keeps.appended
    {line : Bytes}
    {now : Nat}
    (hKeeps : Keeps j f start s first second)
    (hBound : s.shared.named < s.shared.inodes.length)
    (hCall : s.calls[i]? = some (.writing s.shared.named line)) :
    Keeps j f start
      { shared := s.shared.append s.shared.named line now
        calls := s.calls.set i (.written line) }
      first (second ++ [i]) := by
  have hNot := hKeeps.not_mem hCall rfl
  have hNots : i ∉ first ∧ i ∉ second := by
    simpa using hNot
  have hPlace := (List.getElem?_eq_some_iff.mp hCall).1
  have hLine :
      linesOf (s.calls.set i (.written line)) [i] = line := by
    simp [linesOf, List.getElem?_set_self hPlace,
      Appender.wrote]
  refine ⟨?_, ?_, ?_⟩
  · rw [← List.append_assoc]
    exact
      List.nodup_append.mpr
        ⟨hKeeps.once, by simp, by
          rintro k hOld k' hNew rfl
          rw [List.mem_singleton.mp hNew] at hOld
          exact hNot hOld⟩
  · intro k
    rw [mem_set_iff hCall, ← List.append_assoc,
      List.mem_append, List.mem_singleton]
    by_cases hK : k = i
    · rw [if_pos hK]
      simp [hK, Appender.wrote]
    · rw [if_neg hK, ← hKeeps.mem k]
      simp [hK]
  · have hPass :
        (s.shared.append s.shared.named line now).pass =
          s.shared.pass := rfl
    simp only [hPass, content_append hBound,
      linesOf_append, linesOf_set hNots.1,
      linesOf_set hNots.2, hLine, hKeeps.content]
    split <;> simp only [List.append_assoc]

end Projects

------------------------------------------------------------
-- Every Interleaving
------------------------------------------------------------

namespace Projects

variable {j : JsonText} {f : Field} {start : Bytes}
variable {s : Calls}

/-
  No session appends between the rewrite's second look and
  its rename, and none to a file that was renamed over.
-/
def timely
    (s : Calls) : Move → Bool
| .step i _ =>
    match s.calls[i]? with
    | some (.writing handle _) => handle = s.shared.named
    | _ => true
| .world .go =>
    match s.shared.pass with
    | .checked before _ =>
        stamp (s.shared.inode s.shared.named) = before
    | _ => true
| _ => true

/- The session whose line a move appends. -/
def appends
    (s : Calls) : Move → Option Nat
| .step i _ =>
    match s.calls[i]? with
    | some (.writing _ _) => some i
    | _ => none
| _ => none

/- The sessions that a run has append, in order. -/
def appended
    (j : JsonText)
    (f : Field)
    (file : Inode)
    (moves : List Move) : List Nat :=
  ((sessions j f).trace (initial file) moves).filterMap
    (fun t => appends t.before t.input)

/- What holds of every state of a timely run. -/
structure Ok
    (j : JsonText)
    (f : Field)
    (start : Bytes)
    (order : List Nat)
    (s : Calls) : Prop where
  bound : s.shared.named < s.shared.inodes.length
  pass : PassOk j f s.shared
  keeps :
    ∃ first second,
      first ++ second = order ∧
        Keeps j f start s first second

/- A session's step. -/
theorem Ok.act
    {i now : Nat}
    {call call' : Appender}
    {shared : File}
    (hOk : Ok j f start order s)
    (hTimely : timely s (.step i now) = true)
    (hCall : s.calls[i]? = some call)
    (hAct : act s.shared call now = some (shared, call')) :
    Ok j f start
      (order ++ (appends s (.step i now)).toList)
      { shared := shared, calls := s.calls.set i call' } := by
  rcases hOk.keeps with ⟨first, second, hOrder, hKeeps⟩
  cases call with
  | opening line =>
      cases hAct
      have hNone : appends s (.step i now) = none := by
        simp only [appends, hCall]
      rw [hNone, Option.toList_none, List.append_nil]
      exact
        ⟨hOk.bound, hOk.pass, first, second, hOrder,
          hKeeps.opened hCall rfl rfl⟩
  | writing handle line =>
      cases hAct
      simp only [timely, hCall, decide_eq_true_eq] at hTimely
      subst hTimely
      have hSome : appends s (.step i now) = some i := by
        simp only [appends, hCall]
      rw [hSome, Option.toList_some]
      refine
        ⟨?_, hOk.pass.append hOk.bound line now, first,
          second ++ [i], ?_, hKeeps.appended hOk.bound hCall⟩
      · simpa [File.append] using hOk.bound
      · rw [← List.append_assoc, hOrder]
  | written line => cases hAct

/- A step of the rewrite. -/
theorem Ok.pass_step
    {event : Event}
    (hOk : Ok j f start order s)
    (hTimely : timely s (.world event) = true) :
    Ok j f start order
      { s with shared := s.shared.step j f event } := by
  rcases hOk.keeps with ⟨first, second, hOrder, hKeeps⟩
  refine ⟨?_, hOk.pass.step event, ?_⟩
  · rcases s.shared.step_cases j f event with
      ⟨hInodes, hNamed, -⟩ | ⟨before, bytes, -, -, hStep⟩
    · simp only [hInodes, hNamed]
      exact hOk.bound
    · simp only [hStep]
      simp [File.swap, File.to]
  · rcases s.shared.step_cases j f event with
      ⟨hInodes, hNamed, hSwapped⟩ |
        ⟨before, bytes, rfl, hPass, hStep⟩
    · refine
        ⟨first, second, hOrder, hKeeps.once, hKeeps.mem, ?_⟩
      have hContent :
          (s.shared.step j f event).content =
            s.shared.content := by
        simp only [File.content, File.inode, hInodes, hNamed]
      simp only [hContent, hSwapped]
      exact hKeeps.content
    · -- the file still holds what the rewrite has read of it
      have hKnown := hOk.pass
      unfold PassOk at hKnown
      rw [hPass] at hKnown
      simp only [timely, hPass, decide_eq_true_eq] at hTimely
      have hContent :=
        content_of_stamp hKnown.1 hKnown.2.1 hTimely
      have hBefore : s.shared.pass.swapped = false := by
        rw [hPass]
        rfl
      have hOld := hKeeps.content
      rw [hBefore, hContent] at hOld
      have hAfter :
          (s.shared.step j f .go).pass.swapped = true := by
        rw [hStep]
        simp [File.to, Pass.swapped, hKnown.2.2]
      refine ⟨first ++ second, [], ?_, ?_, ?_, ?_⟩
      · rw [List.append_nil]
        exact hOrder
      · rw [List.append_nil]
        exact hKeeps.once
      · rw [List.append_nil]
        exact hKeeps.mem
      · simp only [hAfter, if_true]
        rw [hStep, content_to, content_swap, hOld,
          linesOf_append]
        simp [linesOf]

theorem Ok.next
    {move : Move}
    (hOk : Ok j f start order s)
    (hTimely : timely s move = true) :
    Ok j f start (order ++ (appends s move).toList)
      (s.next .opening Projects.act (File.step j f) move) := by
  unfold Interleave.Crew.next
  cases move with
  | start line =>
      rcases hOk.keeps with ⟨first, second, hOrder, hKeeps⟩
      simp only [appends, Option.toList_none, List.append_nil]
      exact
        ⟨hOk.bound, hOk.pass, first, second, hOrder,
          hKeeps.began line⟩
  | step i now =>
      simp only
      split
      · rename_i hCall
        simp only [appends, hCall, Option.toList_none,
          List.append_nil]
        exact hOk
      · rename_i call hCall
        split
        · -- only a session that is done can take no step
          rename_i hAct
          have hNone : appends s (.step i now) = none := by
            cases call with
            | opening line => cases hAct
            | writing handle line => cases hAct
            | written line => simp only [appends, hCall]
          rw [hNone, Option.toList_none, List.append_nil]
          exact hOk
        · rename_i shared call' hAct
          exact hOk.act hTimely hCall hAct
  | world event =>
      simp only [appends, Option.toList_none, List.append_nil]
      exact hOk.pass_step hTimely

/- A file at rest holds what it holds. -/
theorem ok_initial
    (file : Inode) :
    Ok j f file.content [] (initial file) := by
  refine ⟨by simp [initial], trivial, [], [], rfl, ?_⟩
  refine ⟨by simp, by simp [initial], ?_⟩
  simp [initial, File.content, File.inode, linesOf,
    Pass.swapped]

/-
  A timely run drops no line: the file holds what it held
  and every line that was appended, once and in the order of
  the appends, rewritten where the rewrite has read them.
-/
theorem keepsLines
    {file : Inode}
    {moves : List Move}
    (hMoves :
      ∀ t ∈ (sessions j f).trace (initial file) moves,
        timely t.before t.input = true) :
    ∃ first second,
      first ++ second = appended j f file moves ∧
        Keeps j f file.content
          ((sessions j f).final (initial file) moves)
          first second :=
  (StepMachine.logged_final appends
    (Ok j f file.content)
    (fun s move => timely s move = true)
    (fun _ _ _ hOk hTimely => hOk.next hTimely) hMoves
    (ok_initial file)).keeps

/- A reader that finds one record, and prints another. -/
def oneRecord : JsonText where
  parse line :=
    if line = bytesOf "cwd=/a" then
      some (.obj [("cwd", .str "/a")])
    else none
  print tree :=
    if tree = .obj [("cwd", .str "/b")] then bytesOf "cwd=/b"
    else []

def cwd : Field where
  field := "cwd"
  old := "/a"
  new := "/b"

def oneLine : Inode where
  content := bytesOf "cwd=/a\n"
  mtime := 0

/- A session appends before and one after a whole rewrite. -/
def appendsAround : List Move :=
  [.start (bytesOf "x\n"), .step 0 1, .step 0 1,
    .world .go, .world .go, .world .go, .world .go,
    .world .go, .start (bytesOf "y\n"), .step 1 2,
    .step 1 2]

theorem keepsLines_appendsAround :
    ∃ first second,
      first ++ second =
          appended oneRecord cwd oneLine appendsAround ∧
        Keeps oneRecord cwd (bytesOf "cwd=/a\n")
          ((sessions oneRecord cwd).final (initial oneLine)
            appendsAround)
          first second :=
  keepsLines (by decide)

/- A session appends between the second look and the rename. -/
def appendsBetween : List Move :=
  [.start (bytesOf "x\n"), .step 0 1, .world .go,
    .world .go, .world .go, .world .go, .step 0 1,
    .world .go]

theorem not_keepsLines_appendsBetween :
    ¬ ∀ j f file moves,
      ∃ first second,
        first ++ second = appended j f file moves ∧
          Keeps j f file.content
            ((sessions j f).final (initial file) moves)
            first second := by
  intro hClaim
  rcases hClaim oneRecord cwd oneLine appendsBetween with
    ⟨first, second, hOrder, hKeeps⟩
  -- the one line that was appended is in one of the two parts
  have hOnly : first ++ second = [0] := by
    rw [hOrder]
    decide
  have hHeld := hKeeps.content
  rcases List.append_eq_singleton_iff.mp hOnly with
    ⟨rfl, rfl⟩ | ⟨rfl, rfl⟩
  · exact absurd hHeld (by decide)
  · exact absurd hHeld (by decide)

end Projects
