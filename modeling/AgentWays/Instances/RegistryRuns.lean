import AgentWays.Instances.RegistryFileSpec
import AgentWays.Lib.StepMachine

/-
  The names of one project root's registry, over any run of
  registrations, renames, touches and evictions.

  Key definitions include:
    * `Instances.NamesApart`
    * `Instances.Op.KeepsNames`
    * `Instances.registryMachine`

  Main declarations:
    * `Instances.names_run`
-/

------------------------------------------------------------
-- Names Apart
------------------------------------------------------------

namespace Instances

open Pointers

variable {rows : Rows} {op : Op} {file : Option String}

/-
  No two sessions share a name: the slots have names of
  their own, an alias shows the name of the slot its chain
  ends at and the name of no other, and no chain loops.
-/
structure NamesApart (rows : Rows) : Prop where
  distinct :
    ∀ a b n, held rows a = some n → held rows b = some n →
      a = b
  shows :
    ∀ a s n, chainEnd rows a = some s →
      held rows s = some n → nameOf rows a = some n
  apart :
    ∀ a s n, next rows a ≠ none → nameOf rows a = some n →
      held rows s = some n → chainEnd rows a = some s
  noLoop :
    ∀ a, ¬ Relation.TransGen
      (fun b c => next rows b = some c) a a

theorem Sound.namesApart
    (hSound : Sound rows) :
    NamesApart rows := by
  refine ⟨hSound.distinct, ?_, ?_, ?_⟩
  · intro a s n hEnd hHeld
    rcases chainEnd_eq_some_iff.mp hEnd with ⟨hAlias, hChain⟩
    exact hSound.follows a s n hAlias hChain hHeld
  · intro a s n hAlias hShows hHeld
    exact chainEnd_eq_some_iff.mpr
      ⟨hAlias, hSound.apart a s n hAlias hShows hHeld⟩
  · intro a
    rcases hSound.ends a with ⟨s, hEnd⟩
    exact hEnd.no_loop

/-
  The prune of a registration cuts no chain from an alias it
  keeps to a slot it keeps; and where the session has no
  slot, the aliases that lead to it show the name it is
  given.
-/
def Op.KeepsNames
    (rows : Rows) : Op → Prop
| .register sid gcAge now =>
    KeepsChains rows
        (prune sid (now.toNat - gcAge) rows) ∧
      (held (prune sid (now.toNat - gcAge) rows) sid = none →
        TakesOver
          (detach (prune sid (now.toNat - gcAge) rows) sid)
          sid)
| _ => True

theorem keepsChains_iff
    {kept : Rows} :
    KeepsChains rows kept ↔
      ∀ a ∈ kept.keys, ∀ s ∈ kept.keys,
        (held kept s).isSome = true →
          chainEnd rows a = some s →
            chainEnd kept a = some s := by
  constructor
  · intro hKeeps a hA s _ hSlot
    rcases Option.isSome_iff_exists.mp hSlot with ⟨n, hHeld⟩
    exact hKeeps a s n (KeyMap.mem_keys.mp hA) hHeld
  · intro hKeys a s n hRow hHeld
    apply hKeys a (KeyMap.mem_keys.mpr hRow) s
    · exact KeyMap.mem_keys.mpr (get?_isSome_of_held hHeld)
    · rw [hHeld]
      rfl

theorem takesOver_iff
    {sid : String} :
    TakesOver rows sid ↔
      ∀ a ∈ rows.keys, chainEnd rows a = some sid →
        nameOf rows a =
          some (nextFreeInstance (takenNames rows)) := by
  constructor
  · intro hTakes a _
    exact hTakes a
  · intro hKeys a hEnd
    have hAlias := (chainEnd_eq_some_iff.mp hEnd).1
    exact hKeys a
      (KeyMap.mem_keys.mpr (get?_isSome_of_next hAlias)) hEnd

instance
    (rows kept : Rows) :
    Decidable (KeepsChains rows kept) :=
  decidable_of_iff _ keepsChains_iff.symm

instance
    (rows : Rows)
    (sid : String) :
    Decidable (TakesOver rows sid) :=
  decidable_of_iff _ takesOver_iff.symm

instance
    (rows : Rows) :
    (op : Op) → Decidable (op.KeepsNames rows)
| .register _ _ _ => inferInstanceAs (Decidable (_ ∧ _))
| .rename _ _ _ => inferInstanceAs (Decidable True)
| .touch _ _ => inferInstanceAs (Decidable True)
| .evict _ => inferInstanceAs (Decidable True)

theorem sound_edit
    {written : Rows}
    (hSound : Sound rows)
    (hKeeps : op.KeepsNames rows)
    (hWritten : (op.edit rows).1 = some written) :
    Sound written := by
  cases op with
  | register sid gcAge now =>
      rw [Op.edit, Option.some.injEq] at hWritten
      rw [← hWritten]
      exact sound_registerWithAge hSound hKeeps.1 hKeeps.2
  | rename old new now =>
      rw [Op.edit] at hWritten
      split at hWritten
      · cases hWritten
      · rw [Option.some.injEq] at hWritten
        rw [← hWritten]
        exact sound_rename hSound
  | touch sid now =>
      rw [Op.edit] at hWritten
      dsimp only at hWritten
      split at hWritten
      · rw [Option.some.injEq] at hWritten
        rw [← hWritten]
        exact sound_refresh hSound sid now.toNat
      · cases hWritten
  | evict sid =>
      rw [Op.edit] at hWritten
      dsimp only at hWritten
      split at hWritten
      · rw [Option.some.injEq] at hWritten
        rw [← hWritten]
        exact hSound.detach sid
      · cases hWritten

theorem sound_runOp
    (hSound : Sound (rowsOf file))
    (hPlain : op.Plain)
    (hKeeps : op.KeepsNames (rowsOf file)) :
    Sound (rowsOf (runOp file op).1) := by
  rw [rowsOf_runOp file hPlain]
  cases hWritten : (op.edit (rowsOf file)).1 with
  | none => exact hSound
  | some written => exact sound_edit hSound hKeeps hWritten

end Instances

------------------------------------------------------------
-- Runs
------------------------------------------------------------

namespace Instances

/- One registry file under any operations. -/
def registryMachine :
    StepMachine (Option String) Op (Option String) where
  step := runOp

/- The rows of the file, under the same operations. -/
def rowsMachine :
    StepMachine Rows Op (Option String) where
  step := fun rows op =>
    ((op.edit rows).1.getD rows, (op.edit rows).2)

/- The file's run is the run of its rows. -/
theorem rowsOf_final
    {ops : List Op}
    (hPlain : ∀ op ∈ ops, op.Plain) :
    rowsOf (registryMachine.final none ops) =
      rowsMachine.final KeyMap.empty ops := by
  apply StepMachine.simulates_final
    (fun file rows => rowsOf file = rows) Op.Plain
  · rintro file rows op rfl hOp
    exact rowsOf_runOp file hOp
  · exact hPlain
  · exact rowsOf_none

/- The conditions of a run, read off its rows. -/
theorem keepsNames_of_rows
    {ops : List Op}
    (hPlain : ∀ op ∈ ops, op.Plain)
    (hRows :
      ∀ t ∈ rowsMachine.trace KeyMap.empty ops,
        t.input.KeepsNames t.before) :
    ∀ t ∈ registryMachine.trace none ops,
      t.input.KeepsNames (rowsOf t.before) := by
  have hStep :
      ∀ file rows op, rowsOf file = rows → op.Plain →
        rowsOf (registryMachine.step file op).1 =
          (rowsMachine.step rows op).1 := by
    rintro file rows op rfl hOp
    exact rowsOf_runOp file hOp
  have hHolds :
      ∀ file rows op, rowsOf file = rows →
        Op.KeepsNames rows op →
          Op.KeepsNames (rowsOf file) op := by
    rintro file rows op rfl hKeeps
    exact hKeeps
  exact StepMachine.simulates_trace
    (C := fun file op => Op.KeepsNames (rowsOf file) op)
    (D := fun rows op => Op.KeepsNames rows op)
    (fun file rows => rowsOf file = rows) Op.Plain
    hStep hHolds hPlain rowsOf_none hRows

/-
  From no file, a run whose registrations keep the names
  they find leaves no two sessions with one name.
-/
theorem names_run
    (ops : List Op)
    (hPlain : ∀ op ∈ ops, op.Plain)
    (hKeeps :
      ∀ t ∈ registryMachine.trace none ops,
        t.input.KeepsNames (rowsOf t.before)) :
    NamesApart
      (rowsOf (registryMachine.final none ops)) := by
  have hStep :
      ∀ file op, Sound (rowsOf file) →
        (op.Plain ∧ op.KeepsNames (rowsOf file)) →
          Sound (rowsOf (registryMachine.step file op).1) :=
    fun file op hInv hOk => sound_runOp hInv hOk.1 hOk.2
  have hOk :
      ∀ t ∈ registryMachine.trace none ops,
        t.input.Plain ∧ t.input.KeepsNames (rowsOf t.before) :=
    fun t hMem =>
      ⟨hPlain t.input (StepMachine.input_mem_of_mem_trace hMem),
        hKeeps t hMem⟩
  have hStart : Sound (rowsOf none) := by
    rw [rowsOf_none]
    exact sound_empty
  have hSound :
      Sound (rowsOf (registryMachine.final none ops)) :=
    StepMachine.invariant_final (fun file => Sound (rowsOf file))
      (fun file op => op.Plain ∧ op.KeepsNames (rowsOf file))
      hStep hOk hStart
  exact hSound.namesApart

/-
  Two sessions, one of which changes its id twice, and a
  third that comes once the first aliases have aged out.
-/
def changesIds : List Op :=
  [.register "a" 10 0, .register "b" 10 0,
    .rename "b" "s" 1, .touch "a" 9, .rename "s" "d" 9,
    .register "c" 10 11]

theorem plain_of_mem_letters
    {id : String}
    (hMem : id ∈ ["a", "b", "c", "d", "s"]) :
    HeadText id ∧ ValueSafe id := by
  simp only [List.mem_cons, List.not_mem_nil, or_false]
    at hMem
  rcases hMem with rfl | rfl | rfl | rfl | rfl <;>
    exact ⟨by constructor <;> decide, by constructor <;> decide⟩

theorem plain_changesIds :
    ∀ op ∈ changesIds, op.Plain := by
  simp [changesIds, Op.Plain, plain_of_mem_letters]

theorem names_run_changesIds :
    NamesApart
      (rowsOf (registryMachine.final none changesIds)) := by
  apply names_run changesIds plain_changesIds
  apply keepsNames_of_rows plain_changesIds
  decide

/-
  A slot that comes back: `s` took the name of `b`, both it
  and `a` were evicted, and it registers again.
-/
def comesBack : List Op :=
  [.register "a" 10 0, .register "b" 10 0,
    .rename "b" "s" 1, .evict "a", .evict "s",
    .register "s" 10 2]

/-
  A chain that is cut: `a` became `b`, `b` became `c`, and
  only `b` was last seen too long ago.
-/
def isCut : List Op :=
  [.register "b" 10 0, .register "a" 10 10,
    .rename "a" "b" 10, .rename "b" "c" 10,
    .register "d" 10 15]

/-
  `b` shows `beta` though its chain ends at `s`, which is
  `alpha` now; and `a` shows the name of `c`, to which its
  chain no longer leads.
-/
theorem names_run_unkept :
    ¬ NamesApart
        (rowsOf (registryMachine.final none comesBack)) ∧
      ¬ NamesApart
        (rowsOf (registryMachine.final none isCut)) := by
  have hBackPlain : ∀ op ∈ comesBack, op.Plain := by
    simp [comesBack, Op.Plain, plain_of_mem_letters]
  have hCutPlain : ∀ op ∈ isCut, op.Plain := by
    simp [isCut, Op.Plain, plain_of_mem_letters]
  rw [rowsOf_final hBackPlain, rowsOf_final hCutPlain]
  refine ⟨?_, ?_⟩
  · intro hApart
    have hShows := hApart.shows "b" "s" "alpha"
      (by decide) (by decide)
    revert hShows
    decide
  · intro hApart
    have hEnd := hApart.apart "a" "c" "alpha"
      (by decide) (by decide)
      (by decide)
    revert hEnd
    decide

end Instances
