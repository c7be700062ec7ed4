import Mathlib.Data.List.Induction
import Mathlib.Order.Lattice

/-
  A growing log that is read from a mark.

  A read takes the entries whose key is past the mark, and
  moves the mark to the last of them. An entry whose key is
  that of an entry read before it, which was not read with
  it, is overlooked; every other entry is taken, once.

  Key definitions include:
    * `Marked.Reader.read`
    * `Marked.overlooked`

  The rules are:
    * `Marked.reads`
    * `Marked.kept_eq_self`
-/

------------------------------------------------------------
-- Reads
------------------------------------------------------------

namespace Marked

variable {κ α : Type} [LinearOrder κ]

/- Whether an entry is past the mark. -/
def newer
    (mark : Option κ)
    (e : κ × α) : Bool :=
  mark.all (fun m => decide (m < e.1))

def lastKey
    (log : List (κ × α)) : Option κ :=
  log.getLast?.map Prod.fst

structure Reader (κ α : Type) where
  mark : Option κ
  taken : List (κ × α)

/- A reader before its first read. -/
def Reader.start : Reader κ α where
  mark := none
  taken := []

def Reader.read
    (r : Reader κ α)
    (log : List (κ × α)) : Reader κ α :=
  let fresh := log.filter (newer r.mark)
  { mark := (lastKey fresh).or r.mark
    taken := r.taken ++ fresh }

/- A log's keys never decrease. -/
def Sorted
    (log : List (κ × α)) : Prop :=
  log.Pairwise (fun a b => a.1 ≤ b.1)

/- An earlier read ended between entries of one key. -/
def overlooked
    (logs : List (List (κ × α)))
    (e : (κ × α) × Nat) : Bool :=
  logs.any (fun log =>
    decide (log.length ≤ e.2) &&
      decide (lastKey log = some e.1.1))

/- The entries of a log that the earlier reads leave. -/
def kept
    (logs : List (List (κ × α)))
    (log : List (κ × α)) : List (κ × α) :=
  (log.zipIdx.filter (fun e => !overlooked logs e)).map Prod.fst

end Marked

------------------------------------------------------------
-- Last Keys
------------------------------------------------------------

namespace Marked

variable {κ α : Type}
variable {log more : List (κ × α)} {e : κ × α} {last : κ}

@[simp] theorem lastKey_nil :
    lastKey ([] : List (κ × α)) = none := rfl

@[simp] theorem lastKey_append_singleton
    (log : List (κ × α))
    (e : κ × α) :
    lastKey (log ++ [e]) = some e.1 := by
  simp [lastKey]

theorem lastKey_append
    (log more : List (κ × α)) :
    lastKey (log ++ more) = (lastKey more).or (lastKey log) := by
  unfold lastKey
  rw [List.getLast?_append]
  cases more.getLast? <;> simp

theorem exists_of_lastKey
    (hLast : lastKey log = some last) :
    ∃ e ∈ log, e.1 = last := by
  unfold lastKey at hLast
  rcases Option.map_eq_some_iff.mp hLast with ⟨e, hGet, hKey⟩
  exact ⟨e, List.mem_of_getLast? hGet, hKey⟩

theorem map_fst_filter_zipIdx
    (p : κ × α → Bool)
    (xs : List (κ × α))
    (k : Nat) :
    ((xs.zipIdx k).filter (fun e => p e.1)).map Prod.fst =
      xs.filter p := by
  induction xs generalizing k with
  | nil => rfl
  | cons x xs ih =>
      rw [List.zipIdx_cons, List.filter_cons, List.filter_cons]
      split
      · rw [List.map_cons, ih]
      · exact ih (k + 1)

variable [LinearOrder κ]

/- The last key of a log is its greatest. -/
theorem le_of_lastKey
    (hSorted : Sorted log)
    (hLast : lastKey log = some last)
    (hMember : e ∈ log) :
    e.1 ≤ last := by
  rcases List.eq_nil_or_concat log with rfl | ⟨front, b, rfl⟩
  · cases hMember
  · rw [List.concat_eq_append] at hSorted hLast hMember
    rw [lastKey_append_singleton] at hLast
    cases hLast
    rcases List.mem_append.mp hMember with hFront | hEnd
    · exact
        (List.pairwise_append.mp hSorted).2.2 e hFront b
          (by simp)
    · rw [List.mem_singleton.mp hEnd]

/- What is past a log's last key is not of the log. -/
theorem filter_newer_lastKey
    (hSorted : Sorted log) :
    log.filter (newer (lastKey log)) = [] := by
  rw [List.filter_eq_nil_iff]
  intro e hMember
  cases hLast : lastKey log with
  | none =>
      have hEmpty : log = [] := by
        simpa [lastKey] using hLast
      rw [hEmpty] at hMember
      cases hMember
  | some last =>
      have hLe := le_of_lastKey hSorted hLast hMember
      simpa [newer] using hLe

/- The mark is moved to the end of the longer log. -/
theorem lastKey_filter_newer
    (hSorted : Sorted (log ++ more)) :
    (lastKey (more.filter (newer (lastKey log)))).or
        (lastKey log) =
      lastKey (log ++ more) := by
  rw [lastKey_append]
  rcases List.eq_nil_or_concat more with rfl | ⟨front, b, rfl⟩
  · rfl
  · rw [List.concat_eq_append] at hSorted ⊢
    rw [lastKey_append_singleton, List.filter_append]
    by_cases hNewer : newer (lastKey log) b = true
    · have hLast :
          [b].filter (newer (lastKey log)) = [b] := by
        simp [hNewer]
      rw [hLast, lastKey_append_singleton]
    · -- the last entry has the key that the log ends with
      cases hLast : lastKey log with
      | none => simp [newer, hLast] at hNewer
      | some last =>
          have hLe : b.1 ≤ last := by
            simpa [newer, hLast] using hNewer
          rcases exists_of_lastKey hLast with ⟨e, hMember, rfl⟩
          have hFrom : e.1 ≤ b.1 :=
            (List.pairwise_append.mp hSorted).2.2 e hMember b
              (by simp)
          have hSame : b.1 = e.1 := le_antisymm hLe hFrom
          have hMore := (List.pairwise_append.mp hSorted).2.1
          have hNone :
              (front ++ [b]).filter (newer (some e.1)) = [] := by
            rw [List.filter_eq_nil_iff]
            intro a hIn
            have hLast' :
                lastKey (front ++ [b]) = some e.1 := by
              rw [lastKey_append_singleton, hSame]
            have hLe := le_of_lastKey hMore hLast' hIn
            simpa [newer] using hLe
          rw [← List.filter_append, hNone, hSame]
          rfl

end Marked

------------------------------------------------------------
-- Runs Of Reads
------------------------------------------------------------

namespace Marked

variable {κ α : Type} [LinearOrder κ]
variable {logs : List (List (κ × α))}
variable {log more : List (κ × α)} {e : κ × α} {i : Nat}

/- Where no entry is overlooked, every entry is kept. -/
theorem kept_eq_self
    (hNone :
      ∀ e ∈ log.zipIdx, overlooked logs e = false) :
    kept logs log = log := by
  unfold kept
  rw [List.filter_eq_self.mpr (by
    intro e hMember
    rw [hNone e hMember]
    rfl)]
  exact List.zipIdx_map_fst 0 log

theorem overlooked_append
    (logs logs' : List (List (κ × α)))
    (e : (κ × α) × Nat) :
    overlooked (logs ++ logs') e =
      (overlooked logs e || overlooked logs' e) := by
  simp [overlooked]

/- A read overlooks no entry that it has. -/
theorem overlooked_of_lt
    (hBound : i < log.length) :
    overlooked [log] (e, i) = false := by
  have hNot : ¬log.length ≤ i := Nat.not_le.mpr hBound
  simp [overlooked, hNot]

/-
  What a longer log adds is overlooked by some of the reads
  so far exactly where the last of them ends with its key.
-/
theorem overlooked_concat
    (hPrefix : ∀ l ∈ logs, l <+: log)
    (hSorted : Sorted (log ++ more))
    (hMember : e ∈ more)
    (hBound : log.length ≤ i) :
    overlooked (logs ++ [log]) (e, i) =
      !newer (lastKey log) e := by
  have hBelow : ∀ a ∈ log, a.1 ≤ e.1 :=
    fun a hIn =>
      (List.pairwise_append.mp hSorted).2.2 a hIn e hMember
  have hLog : Sorted log :=
    (List.pairwise_append.mp hSorted).1
  rw [Bool.eq_iff_iff]
  constructor
  · intro hOver
    simp only [overlooked, List.any_eq_true, Bool.and_eq_true,
      decide_eq_true_eq] at hOver
    rcases hOver with ⟨l, hIn, -, hKey⟩
    rcases exists_of_lastKey hKey with ⟨a, hA, hSame⟩
    have hInLog : a ∈ log := by
      rcases List.mem_append.mp hIn with hEarlier | hLast
      · exact (hPrefix l hEarlier).subset hA
      · rw [← List.mem_singleton.mp hLast]
        exact hA
    cases hLast : lastKey log with
    | none =>
        have hEmpty : log = [] := by
          simpa [lastKey] using hLast
        rw [hEmpty] at hInLog
        cases hInLog
    | some last =>
        have hLe := le_of_lastKey hLog hLast hInLog
        rw [hSame] at hLe
        simpa [newer] using hLe
  · intro hOld
    cases hLast : lastKey log with
    | none => simp [newer, hLast] at hOld
    | some last =>
        have hLe : e.1 ≤ last := by
          simpa [newer, hLast] using hOld
        rcases exists_of_lastKey hLast with ⟨a, hA, rfl⟩
        have hSame : a.1 = e.1 := le_antisymm (hBelow a hA) hLe
        simp only [overlooked, List.any_eq_true,
          Bool.and_eq_true, decide_eq_true_eq]
        exact ⟨log, by simp, hBound, by rw [hLast, hSame]⟩

/- What one more read, of a longer log, adds to what is kept. -/
theorem kept_append
    (hPrefix : ∀ l ∈ logs, l <+: log)
    (hSorted : Sorted (log ++ more)) :
    kept (logs ++ [log]) (log ++ more) =
      kept logs log ++ more.filter (newer (lastKey log)) := by
  unfold kept
  rw [List.zipIdx_append, List.filter_append, List.map_append]
  congr 1
  · apply congrArg (List.map Prod.fst)
    apply List.filter_congr
    rintro ⟨e, i⟩ hMember
    have hBound := List.snd_lt_of_mem_zipIdx hMember
    rw [overlooked_append, overlooked_of_lt (by simpa using hBound),
      Bool.or_false]
  · rw [← map_fst_filter_zipIdx (newer (lastKey log)) more
      (0 + log.length)]
    apply congrArg (List.map Prod.fst)
    apply List.filter_congr
    rintro ⟨e, i⟩ hMember
    have hBound := List.le_snd_of_mem_zipIdx hMember
    have hIn := List.fst_mem_of_mem_zipIdx hMember
    rw [overlooked_concat hPrefix hSorted hIn
      (by simpa using hBound), Bool.not_not]

/-
  A growing log's reads take what no earlier read overlooks,
  each entry once, and leave the mark at its end.
-/
theorem reads
    (hGrows : (logs ++ [log]).Pairwise (· <+: ·))
    (hSorted : Sorted log) :
    (logs ++ [log]).foldl Reader.read Reader.start =
      { mark := lastKey log
        taken := kept logs log } := by
  induction logs using List.reverseRecOn generalizing log with
  | nil =>
      have hAll :
          log.filter (newer none) = log := by
        simp [newer]
      have hKept : kept [] log = log :=
        kept_eq_self (fun _ _ => rfl)
      simp [Reader.read, Reader.start, hAll, hKept]
  | append_singleton logs last ih =>
      have hParts := List.pairwise_append.mp hGrows
      have hLast : last <+: log :=
        hParts.2.2 last (by simp) log (by simp)
      have hPrefix : ∀ l ∈ logs, l <+: last := by
        intro l hMember
        exact
          (List.pairwise_append.mp hParts.1).2.2 l hMember last
            (by simp)
      rcases hLast with ⟨more, rfl⟩
      have hHere := ih hParts.1 (List.pairwise_append.mp hSorted).1
      rw [List.foldl_append, hHere, kept_append hPrefix hSorted]
      simp only [List.foldl_cons, List.foldl_nil, Reader.read,
        List.filter_append,
        filter_newer_lastKey (List.pairwise_append.mp hSorted).1,
        List.nil_append, lastKey_filter_newer hSorted]

end Marked
