import AgentWays.Instances.RegistryFileSpec
import AgentWays.Lib.StepMachine

/-
  The name of one live session, over any run of calls by any
  sessions on any project roots.

  The run is watched with the session's id, which a rename
  of its own changes. No call of another session takes the
  slot, whatever the files say at the start.

  Key definitions include:
    * `Instances.Watch`
    * `Instances.watchMachine`
    * `Instances.Lives`
    * `Instances.Keeps`

  Main declarations:
    * `Instances.get?_runCall`
    * `Instances.keeps_run`
-/

------------------------------------------------------------
-- The Directory After a Call
------------------------------------------------------------

namespace Instances

variable {pathFor : String → String} {call : Call}
variable {files : Files} {path : String}

theorem get?_visitFile
    (pathFor : String → String)
    (call : Call)
    (files : Files)
    (visited path : String) :
    (visitFile pathFor call files visited).get? path =
      if path = visited then
        match call.opOn pathFor path with
        | some op => (runOp (files.get? path) op).1
        | none => files.get? path
      else files.get? path := by
  unfold visitFile
  split
  · rename_i hNone
    split
    · rename_i hHere
      rw [hHere, hNone]
    · rfl
  · rename_i op hOp
    rw [KeyMap.get?_assign]
    split
    · rename_i hHere
      rw [hHere, hOp]
    · rfl

theorem get?_foldl_visitFile
    {paths : List String}
    (hNodup : paths.Nodup) :
    (paths.foldl (visitFile pathFor call) files).get? path =
      if path ∈ paths then
        match call.opOn pathFor path with
        | some op => (runOp (files.get? path) op).1
        | none => files.get? path
      else files.get? path := by
  induction paths generalizing files with
  | nil => simp
  | cons visited paths ih =>
      rw [List.nodup_cons] at hNodup
      rw [List.foldl_cons, ih hNodup.2, get?_visitFile]
      by_cases hHere : path = visited
      · rw [hHere, if_neg hNodup.1, if_pos rfl,
          if_pos (by simp)]
      · simp [hHere]

/- Every file is what the call's operation on it leaves. -/
theorem get?_runCall
    (pathFor : String → String)
    (files : Files)
    (call : Call)
    (path : String) :
    (runCall pathFor files call).1.get? path =
      match call.opOn pathFor path with
      | some op => (runOp (files.get? path) op).1
      | none => files.get? path := by
  have hNodup :
      ∀ m : Files, (m.keys.filter
        (fun p => p ≠ pathFor call.cwd)).Nodup := by
    intro m
    apply List.Nodup.filter
    exact m.sorted.imp (fun hLt => ne_of_lt hLt)
  unfold runCall
  dsimp only
  rw [get?_foldl_visitFile (hNodup _), get?_visitFile]
  by_cases hOwn : path = pathFor call.cwd
  · rw [if_pos hOwn, if_neg (by simp [hOwn])]
  · rw [if_neg hOwn]
    split
    · rfl
    · -- a file that is not there is not visited
      rename_i hOut
      have hNone : files.get? path = none := by
        cases hGet : files.get? path with
        | none => rfl
        | some content =>
            exfalso
            apply hOut
            rw [List.mem_filter, KeyMap.mem_keys,
              get?_visitFile, if_neg hOwn, hGet]
            simp [hOwn]
      cases hOp : call.opOn pathFor path with
      | none => rfl
      | some op =>
          dsimp only
          cases call with
          | register cwd sid gcAge now =>
              have hOther : path ≠ pathFor cwd := hOwn
              rw [Call.opOn, if_neg hOther,
                Option.some.injEq] at hOp
              rw [hNone, ← hOp]
              rfl
          | rename cwd old new now =>
              have hOther : path ≠ pathFor cwd := hOwn
              rw [Call.opOn, if_neg hOther] at hOp
              cases hOp
          | touch cwd sid now =>
              have hOther : path ≠ pathFor cwd := hOwn
              rw [Call.opOn, if_neg hOther] at hOp
              cases hOp

end Instances

------------------------------------------------------------
-- One Operation
------------------------------------------------------------

namespace Instances

variable {rows : Rows} {id name : String}

/- The id of a session after an operation on its rows. -/
def Op.idAfter
    (id : String) : Op → String
| .rename old new _ => if old = id then new else id
| _ => id

/- Whether an operation is the session's own call. -/
def Op.isOwn
    (id : String) : Op → Bool
| .register sid _ _ => sid = id
| .rename old _ _ => old = id
| _ => false

/-
  The session is not evicted, is renamed to an id that holds
  no slot, and was seen no longer ago than the age another
  session's registration prunes by.
-/
def Op.Spares
    (rows : Rows)
    (id : String) : Op → Prop
| .register sid gcAge now =>
    sid ≠ id →
      ∀ e, rows.get? id = some e →
        now.toNat - e.lastSeen ≤ gcAge
| .rename old new _ => old = id → held rows new = none
| .touch _ _ => True
| .evict sid => sid ≠ id

theorem held_prune
    {sid : String}
    {cutoff : Nat}
    (hHeld : held rows id = some name)
    (hKept :
      id = sid ∨
        ∀ e, rows.get? id = some e → cutoff ≤ e.lastSeen) :
    held (prune sid cutoff rows) id = some name := by
  rw [← hHeld]
  apply (views_congr _).2.2
  rw [get?_prune]
  cases hGet : rows.get? id with
  | none => rfl
  | some e =>
      rw [Option.filter_some, if_pos]
      rcases hKept with hOwn | hSeen
      · simp [hOwn]
      · simp [hSeen e hGet]

theorem held_insert_of_ne
    {sid : String}
    (rows : Rows)
    (e : InstanceEntry)
    (hNe : id ≠ sid) :
    held (rows.insert sid e) id = held rows id := by
  apply (views_congr _).2.2
  rw [KeyMap.get?_insert, if_neg hNe]

/- Another session's slot leaves this one's alone. -/
theorem held_allocate
    {sid : String}
    {now : Nat}
    (hHeld : held rows id = some name)
    (hNe : id ≠ sid) :
    held (allocate rows sid now).1 id = some name := by
  have hDetached : held (detach rows sid) id = some name := by
    rw [held_detach rows hNe]
    exact hHeld
  have hFold :
      ∀ (ids : List String) (m : Rows),
        id ∉ ids → held m id = some name →
          held (ids.foldl detach m) id = some name := by
    intro ids
    induction ids with
    | nil => exact fun m _ h => h
    | cons x ids ih =>
        intro m hOut hSlot
        rw [List.mem_cons, not_or] at hOut
        apply ih (detach m x) hOut.2
        rw [held_detach m hOut.1]
        exact hSlot
  unfold allocate
  dsimp only
  generalize hName :
    nextFreeInstance (takenNames (detach rows sid)) = other
  have hOut : id ∉ orphansOf (detach rows sid) other := by
    intro hMem
    have hOrphan := (mem_orphansOf.mp hMem).2
    exact (orphaned_eq_true_iff.mp hOrphan).1
      (held_eq_some_iff.mp hDetached).2
  rw [held_insert_of_ne _ _ hNe]
  exact hFold _ _ hOut hDetached

theorem held_registerWithAge
    {sid : String}
    {gcAge now : Nat}
    (hHeld : held rows id = some name)
    (hSeen :
      sid ≠ id →
        ∀ e, rows.get? id = some e → now - e.lastSeen ≤ gcAge) :
    held (registerWithAge sid gcAge now rows).1 id = some name ∧
      (sid = id →
        (registerWithAge sid gcAge now rows).2 = name) := by
  have hKept :
      held (prune sid (now - gcAge) rows) id = some name := by
    apply held_prune hHeld
    by_cases hOwn : sid = id
    · exact Or.inl hOwn.symm
    · refine Or.inr ?_
      intro e hGet
      have hAge := hSeen hOwn e hGet
      omega
  unfold registerWithAge
  dsimp only
  cases hSlot : held (prune sid (now - gcAge) rows) sid with
  | some other =>
      dsimp only
      refine ⟨?_, ?_⟩
      · rw [held_refresh]
        exact hKept
      · intro hOwn
        rw [hOwn] at hSlot hKept
        rw [hSlot, Option.some.injEq] at hKept
        exact hKept
  | none =>
      dsimp only
      have hNe : id ≠ sid := by
        rintro rfl
        rw [hSlot] at hKept
        cases hKept
      refine ⟨held_allocate hKept hNe, ?_⟩
      intro hOwn
      exact absurd hOwn.symm hNe

/- Its own rename takes the slot to the new id. -/
theorem held_rename_self
    {new : String}
    (now : Nat)
    (hHeld : held rows id = some name)
    (hFresh : held rows new = none) :
    held (rename id new now rows) new = some name ∧
      (takeSlot rows id new now).2 = name := by
  have hNe : id ≠ new := by
    rintro rfl
    rw [hFresh] at hHeld
    cases hHeld
  have hSlot : held (detach rows new) id = some name := by
    rw [held_detach rows hNe]
    exact hHeld
  cases hGet : (detach rows new).get? id with
  | none =>
      have hRow := get?_isSome_of_held hSlot
      rw [hGet] at hRow
      cases hRow
  | some slot =>
      have hView := held_eq_some_iff.mp hSlot
      have hName : slot.instanceName = name := by
        have hShown := hView.1
        unfold nameOf at hShown
        rw [hGet, Option.map_some, Option.some.injEq] at hShown
        exact hShown
      have hEnd : slot.aliasOf = none := by
        have hLast := hView.2
        unfold next at hLast
        rw [hGet, Option.bind_some] at hLast
        exact hLast
      have hTaken :
          takeSlot rows id new now =
            ((detach rows new).insert new
              { slot with lastSeen := now }, name) := by
        unfold takeSlot
        rw [hFresh]
        dsimp only
        rw [hGet, ← hName]
      have hMoves : ¬(id = new ∨ held rows id = none) := by
        rw [hHeld]
        simp [hNe]
      refine ⟨?_, by rw [hTaken]⟩
      unfold rename
      rw [if_neg hMoves]
      dsimp only
      change
        held
          (relabel
            (aliasTo (takeSlot rows id new now).1 id new) new
            (takeSlot rows id new now).2) new = some name
      rw [held_relabel, held_aliasTo _ _ (Ne.symm hNe), hTaken,
        held_eq_some_iff]
      refine ⟨?_, ?_⟩
      · unfold nameOf
        rw [KeyMap.get?_insert, if_pos rfl, Option.map_some,
          hName]
      · unfold next
        rw [KeyMap.get?_insert, if_pos rfl, Option.bind_some]
        exact hEnd

/- A rename of another session leaves the slot. -/
theorem held_rename_other
    {old new : String}
    {now : Nat}
    (hHeld : held rows id = some name)
    (hNe : id ≠ old) :
    held (rename old new now rows) id = some name := by
  have hTaken :
      held (takeSlot rows old new now).1 id = some name := by
    unfold takeSlot
    cases hNew : held rows new with
    | some other => exact hHeld
    | none =>
        have hOther : id ≠ new := by
          rintro rfl
          rw [hNew] at hHeld
          cases hHeld
        have hRest : held (detach rows new) id = some name := by
          rw [held_detach rows hOther]
          exact hHeld
        dsimp only
        cases (detach rows new).get? old with
        | none => exact hRest
        | some slot =>
            dsimp only
            rw [held_insert_of_ne _ _ hOther]
            exact hRest
  unfold rename
  split
  · exact hHeld
  · change
      held
        (relabel
          (aliasTo (takeSlot rows old new now).1 old new) new
          (takeSlot rows old new now).2) id = some name
    rw [held_relabel, held_aliasTo _ _ hNe]
    exact hTaken

/-
  One operation that spares the session leaves its name, and
  returns it when the call is the session's own.
-/
theorem held_edit
    {op : Op}
    (hHeld : held rows id = some name)
    (hSpares : op.Spares rows id) :
    held ((op.edit rows).1.getD rows) (op.idAfter id) =
        some name ∧
      (op.isOwn id = true → (op.edit rows).2 = some name) := by
  cases op with
  | register sid gcAge now =>
      have hKept :=
        held_registerWithAge hHeld hSpares
      refine ⟨hKept.1, ?_⟩
      intro hOwn
      have hSid : sid = id := by
        simpa [Op.isOwn] using hOwn
      exact congrArg some (hKept.2 hSid)
  | rename old new now =>
      by_cases hOwn : old = id
      · subst hOwn
        have hFresh : held rows new = none := hSpares rfl
        have hNe : old ≠ new := by
          rintro rfl
          rw [hFresh] at hHeld
          cases hHeld
        have hMoves : ¬(old = new ∨ held rows old = none) := by
          rw [hHeld]
          simp [hNe]
        have hMoved :=
          held_rename_self now.toNat hHeld hFresh
        simp only [Op.edit, Op.idAfter, if_neg hMoves, if_true,
          Option.getD_some]
        exact ⟨hMoved.1, fun _ => congrArg some hMoved.2⟩
      · have hKept :
            held (rename old new now.toNat rows) id =
              some name :=
          held_rename_other hHeld (Ne.symm hOwn)
        simp only [Op.edit, Op.idAfter, Op.isOwn, if_neg hOwn,
          decide_eq_true_eq]
        refine ⟨?_, fun hSame => absurd hSame hOwn⟩
        split
        · exact hHeld
        · exact hKept
  | touch sid now =>
      refine ⟨?_, fun hOwn => by cases hOwn⟩
      simp only [Op.edit, Op.idAfter]
      split
      · rw [Option.getD_some, held_refresh]
        exact hHeld
      · exact hHeld
  | evict sid =>
      refine ⟨?_, fun hOwn => by cases hOwn⟩
      simp only [Op.edit, Op.idAfter]
      split
      · rw [Option.getD_some,
          held_detach rows (Ne.symm hSpares)]
        exact hHeld
      · exact hHeld

end Instances

------------------------------------------------------------
-- Runs of Calls
------------------------------------------------------------

namespace Instances

variable {pathFor : String → String} {cwd id name : String}
variable {call : Call}

/- The directory, and the id the watched session has. -/
structure Watch where
  files : Files
  id : String

/- What a call does to the file of a project root. -/
def Call.opAt
    (pathFor : String → String)
    (cwd : String)
    (call : Call) : Option Op :=
  call.opOn pathFor (pathFor cwd)

/- The calls, with the watched session's id beside them. -/
def watchMachine
    (pathFor : String → String)
    (cwd : String) :
    StepMachine Watch Call (Option String) where
  step := fun w call =>
    ({ files := (runCall pathFor w.files call).1
       id :=
        ((call.opAt pathFor cwd).map
          (Op.idAfter w.id)).getD w.id },
      (runCall pathFor w.files call).2)

/- The rows of the watched session's project root. -/
def Watch.rows
    (pathFor : String → String)
    (cwd : String)
    (w : Watch) : Rows :=
  rowsOf (w.files.get? (pathFor cwd))

/- The watched session's own registration or rename there. -/
def Call.isOwn
    (pathFor : String → String)
    (cwd id : String)
    (call : Call) : Bool :=
  (call.opAt pathFor cwd).any (Op.isOwn id)

/-
  What the run lets a call do: the session itself registers
  on its own project root alone and is renamed there to an
  id that holds no slot, and another session's registration
  there finds it seen within its age.
-/
def Call.Spares
    (pathFor : String → String)
    (cwd : String)
    (w : Watch)
    (call : Call) : Prop :=
  ∀ op, call.opAt pathFor cwd = some op →
    op.Spares (w.rows pathFor cwd) w.id

/- The ids a call writes are read back. -/
def Call.Plain : Call → Prop
| .register _ sid _ _ => HeadText sid
| .rename _ _ new _ => HeadText new ∧ ValueSafe new
| .touch _ _ _ => True

theorem plain_of_opOn
    {path : String}
    {op : Op}
    (hPlain : call.Plain)
    (hOp : call.opOn pathFor path = some op) :
    op.Plain := by
  cases call with
  | register c sid gcAge now =>
      rw [Call.opOn, Option.some.injEq] at hOp
      rw [← hOp]
      split
      · exact hPlain
      · trivial
  | rename c old new now =>
      rw [Call.opOn] at hOp
      split at hOp
      · rw [Option.some.injEq] at hOp
        rw [← hOp]
        exact hPlain
      · cases hOp
  | touch c sid now =>
      rw [Call.opOn] at hOp
      split at hOp
      · rw [Option.some.injEq] at hOp
        rw [← hOp]
        trivial
      · cases hOp

/- The rows of a file after a call. -/
theorem rowsOf_runCall
    (files : Files)
    (path : String)
    (hPlain : call.Plain) :
    rowsOf ((runCall pathFor files call).1.get? path) =
      match call.opOn pathFor path with
      | some op =>
          ((op.edit (rowsOf (files.get? path))).1).getD
            (rowsOf (files.get? path))
      | none => rowsOf (files.get? path) := by
  rw [get?_runCall]
  cases hOp : call.opOn pathFor path with
  | none => rfl
  | some op => exact rowsOf_runOp _ (plain_of_opOn hPlain hOp)

theorem lookup_eq_nameOf
    (file : Option String)
    (sid : String) :
    lookup file sid = nameOf (rowsOf file) sid := by
  cases file with
  | none =>
      rw [rowsOf_none]
      rfl
  | some content => rfl

/- A call of its own is one on its own file, read through. -/
theorem output_of_isOwn
    (files : Files)
    (hOwn : call.isOwn pathFor cwd id = true) :
    ∃ op, call.opAt pathFor cwd = some op ∧
      op.isOwn id = true ∧
        (runCall pathFor files call).2 =
          (op.edit
            (rowsOf (files.get? (pathFor cwd)))).2 := by
  unfold Call.isOwn Call.opAt at hOwn
  cases call with
  | register c sid gcAge now =>
      by_cases hPath : pathFor cwd = pathFor c
      · refine ⟨Op.register sid gcAge now, ?_, ?_, ?_⟩
        · rw [Call.opAt, Call.opOn, if_pos hPath]
        · simpa [Call.opOn, hPath] using hOwn
        · simp [runCall, Call.opOn, Call.cwd, hPath, runOp,
            Op.passes, Op.edit]
      · simp [Call.opOn, hPath, Op.isOwn] at hOwn
  | rename c old new now =>
      by_cases hPath : pathFor cwd = pathFor c
      · refine ⟨Op.rename old new now, ?_, ?_, ?_⟩
        · rw [Call.opAt, Call.opOn, if_pos hPath]
        · simpa [Call.opOn, hPath] using hOwn
        · simp only [runCall, Call.opOn, Call.cwd, hPath, runOp,
            Op.passes, if_true, Option.bind_some,
            Bool.false_eq_true, if_false]
          split <;> rename_i hEdit <;> rw [hEdit]
      · simp [Call.opOn, hPath] at hOwn
  | touch c sid now =>
      by_cases hPath : pathFor cwd = pathFor c
      · simp [Call.opOn, hPath, Op.isOwn] at hOwn
      · simp [Call.opOn, hPath] at hOwn

/- One call that spares the session leaves its name. -/
theorem held_step
    {w : Watch}
    (hHeld : held (w.rows pathFor cwd) w.id = some name)
    (hPlain : call.Plain)
    (hSpares : call.Spares pathFor cwd w) :
    held
        (((watchMachine pathFor cwd).step w call).1.rows
          pathFor cwd)
        ((watchMachine pathFor cwd).step w call).1.id =
      some name := by
  have hRows :
      ((watchMachine pathFor cwd).step w call).1.rows pathFor
          cwd =
        match call.opAt pathFor cwd with
        | some op =>
            ((op.edit (w.rows pathFor cwd)).1).getD
              (w.rows pathFor cwd)
        | none => w.rows pathFor cwd :=
    rowsOf_runCall w.files (pathFor cwd) hPlain
  rw [hRows]
  unfold watchMachine
  dsimp only
  cases hOp : call.opAt pathFor cwd with
  | none => exact hHeld
  | some op => exact (held_edit hHeld (hSpares op hOp)).1

/-
  In a run whose calls spare the session, its name is what
  is looked up for its id after every call and what each
  call of its own returns, and every file reads as the rows
  that were written to it.
-/
theorem keeps_run
    (pathFor : String → String)
    (cwd id name : String)
    (files : Files)
    (calls : List Call)
    (hHeld :
      held (rowsOf (files.get? (pathFor cwd))) id = some name)
    (hPlain : ∀ call ∈ calls, call.Plain)
    (hSpares :
      ∀ t ∈ (watchMachine pathFor cwd).trace ⟨files, id⟩ calls,
        t.input.Spares pathFor cwd t.before) :
    ∀ t ∈ (watchMachine pathFor cwd).trace ⟨files, id⟩ calls,
      lookup (t.before.files.get? (pathFor cwd))
          t.before.id = some name ∧
        lookup (t.after.files.get? (pathFor cwd))
            t.after.id = some name ∧
          (t.input.isOwn pathFor cwd t.before.id = true →
            t.output = some name) ∧
            ∀ path op written,
              t.input.opOn pathFor path = some op →
                (op.edit
                    (rowsOf (t.before.files.get? path))).1 =
                  some written →
                parseRegistry (serializeRegistry written) =
                    written ∧
                  rowsOf (t.after.files.get? path) =
                    written := by
  intro t hMem
  have hTurn := StepMachine.eq_turn_of_mem_trace hMem
  have hInput := StepMachine.input_mem_of_mem_trace hMem
  have hStep :
      ∀ w call, held (w.rows pathFor cwd) w.id = some name →
        (call.Plain ∧ call.Spares pathFor cwd w) →
          held
              (((watchMachine pathFor cwd).step w call).1.rows
                pathFor cwd)
              ((watchMachine pathFor cwd).step w call).1.id =
            some name :=
    fun w call hInv hOk => held_step hInv hOk.1 hOk.2
  have hOk :
      ∀ t ∈ (watchMachine pathFor cwd).trace ⟨files, id⟩ calls,
        t.input.Plain ∧ t.input.Spares pathFor cwd t.before :=
    fun t hMem =>
      ⟨hPlain t.input (StepMachine.input_mem_of_mem_trace hMem),
        hSpares t hMem⟩
  have hStart :
      held ((Watch.mk files id).rows pathFor cwd) id =
        some name := by
    unfold Watch.rows
    exact hHeld
  have hNamed :
      held (t.before.rows pathFor cwd) t.before.id =
          some name ∧
        held (t.after.rows pathFor cwd) t.after.id =
          some name :=
    StepMachine.invariant_of_mem_trace
      (m := watchMachine pathFor cwd) (s := ⟨files, id⟩)
      (fun w => held (w.rows pathFor cwd) w.id = some name)
      (fun w call => call.Plain ∧ call.Spares pathFor cwd w)
      hStep hOk hStart hMem
  refine ⟨?_, ?_, ?_, ?_⟩
  · rw [lookup_eq_nameOf]
    exact (held_eq_some_iff.mp hNamed.1).1
  · rw [lookup_eq_nameOf]
    exact (held_eq_some_iff.mp hNamed.2).1
  · intro hOwn
    rcases output_of_isOwn t.before.files hOwn with
      ⟨op, hOp, hOwnOp, hOut⟩
    have hEdit :=
      held_edit hNamed.1 (hSpares t hMem op hOp)
    have hOutput :
        t.output = (runCall pathFor t.before.files t.input).2 := by
      rw [hTurn]
      rfl
    rw [hOutput, hOut]
    exact hEdit.2 hOwnOp
  · intro path op written hOp hWritten
    have hPlainOp : op.Plain :=
      plain_of_opOn (hPlain t.input hInput) hOp
    have hAfter :
        t.after.files =
          (runCall pathFor t.before.files t.input).1 := by
      rw [hTurn]
      rfl
    refine ⟨?_, ?_⟩
    · exact parseRegistry_serialize
        ((storable_rowsOf _).edit hPlainOp hWritten)
    · rw [hAfter, rowsOf_runCall _ _ (hPlain t.input hInput),
        hOp]
      dsimp only
      rw [hWritten]
      rfl

/- Each project root's registry under its own path. -/
def samePath
    (cwd : String) : String :=
  cwd

/- A directory with one registry, of one session. -/
def oneSession : Files :=
  KeyMap.empty.insert "/p"
    (serializeRow "b" ⟨"beta", 0, 5, none⟩)

/- Another session comes, and `b` is renamed to `d`. -/
def renamedCalls : List Call :=
  [.register "/p" "c" 10 9, .rename "/p" "b" "d" 9]

theorem keeps_run_renamed :
    ((watchMachine samePath "/p").trace ⟨oneSession, "b"⟩
        renamedCalls).length = 2 ∧
      ∀ t ∈ (watchMachine samePath "/p").trace ⟨oneSession, "b"⟩
          renamedCalls,
        lookup (t.after.files.get? "/p") t.after.id =
          some "beta" := by
  have hPlain : ∀ call ∈ renamedCalls, call.Plain := by
    intro call hMem
    simp only [renamedCalls, List.mem_cons,
      List.not_mem_nil, or_false] at hMem
    rcases hMem with rfl | rfl
    · change HeadText "c"
      constructor <;> decide
    · change HeadText "d" ∧ ValueSafe "d"
      exact ⟨by constructor <;> decide,
        by constructor <;> decide⟩
  have hSpares :
      ∀ t ∈ (watchMachine samePath "/p").trace ⟨oneSession, "b"⟩
          renamedCalls,
        t.input.Spares samePath "/p" t.before := by
    intro t hMem
    simp only [renamedCalls, StepMachine.trace_cons,
      StepMachine.trace_nil, List.mem_cons,
      List.not_mem_nil, or_false] at hMem
    rcases hMem with rfl | rfl
    · intro op hOp
      rw [← Option.some.inj hOp]
      intro _ e hGet
      have hRow :
          (rowsOf (oneSession.get? "/p")).get? "b" =
            some ⟨"beta", 0, 5, none⟩ := by
        decide
      rw [← Option.some.inj (hRow.symm.trans hGet)]
      decide
    · intro op hOp
      rw [← Option.some.inj hOp]
      intro _
      decide +kernel
  refine ⟨rfl, ?_⟩
  intro t hMem
  exact (keeps_run samePath "/p" "b" "beta" oneSession renamedCalls
    (by decide) hPlain hSpares t hMem).2.1

/-
  An id without whitespace or colons that starts with `#`:
  its row is written as a comment, and the session that is
  renamed to it has no name.
-/
theorem keeps_run_comment :
    ("#y".toList.all
        (fun c => !RustText.isWhitespace c && c != ':') =
      true) ∧
      held (rowsOf (oneSession.get? "/p")) "b" =
        some "beta" ∧
      held (rowsOf (oneSession.get? "/p")) "#y" = none ∧
      lookup
          ((runCall samePath oneSession
            (.rename "/p" "b" "#y" 9)).1.get? "/p") "#y" =
        none ∧
      ((Op.edit (rowsOf (oneSession.get? "/p"))
          (.rename "b" "#y" 9)).1.any
        (fun written =>
          parseRegistry (serializeRegistry written) ≠
            written)) = true := by
  refine ⟨?_, ?_, ?_, ?_, ?_⟩ <;> decide +kernel

end Instances
