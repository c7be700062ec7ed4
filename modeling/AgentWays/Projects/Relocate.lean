import AgentWays.Lib.Inclusive
import AgentWays.Lib.TextSpec
import AgentWays.Projects.MergeKeeps
import AgentWays.Projects.Swap

/-
  A relocated file changes where it should, and only there:
  the records whose path field is at or under the old path.

  The lines that are read at all are those with the old
  path's bytes in them. A record that spells the path
  another way, as JSON spells one with a quote in it, is
  left as it is. The condition is stated of the lines; how a
  number of a record is read back from its print is a
  parameter.

  Key definitions include:
    * `Projects.relocated`
    * `Projects.Holds`
    * `Projects.Relocates`
    * `Projects.Spelled`

  Main declarations:
    * `Projects.relocates_iff`
-/

------------------------------------------------------------
-- Records
------------------------------------------------------------

namespace Json

mutual

/- A document with each of its numbers mapped. -/
def Tree.mapNumbers
    (g : Number → Number) : Tree → Tree
| .null => .null
| .bool b => .bool b
| .num n => .num (g n)
| .str s => .str s
| .arr items => .arr (Tree.mapNumbersItems g items)
| .obj fields => .obj (Tree.mapNumbersFields g fields)

def Tree.mapNumbersItems
    (g : Number → Number) : List Tree → List Tree
| [] => []
| value :: rest =>
    Tree.mapNumbers g value :: Tree.mapNumbersItems g rest

def Tree.mapNumbersFields
    (g : Number → Number) :
    List (String × Tree) → List (String × Tree)
| [] => []
| (key, value) :: rest =>
    (key, Tree.mapNumbers g value) ::
      Tree.mapNumbersFields g rest

end

end Json

namespace Projects

open Json (Tree Number)

/- The way back. -/
def Field.back
    (f : Field) : Field where
  field := f.field
  old := f.new
  new := f.old

@[simp] theorem Field.back_old
    (f : Field) :
    f.back.old = f.new := rfl

/- What may follow a path in one that is at it or under it. -/
def follows
    (rest : String) : Bool :=
  rest = "" ∨ startsComponent rest = true

def parsed
    (j : JsonText)
    (line : Bytes) : Option Tree :=
  j.parse (splitTerm line).1

/- A line is a record with a field at or under the old path. -/
structure Holds
    (j : JsonText)
    (f : Field)
    (line : Bytes)
    (obj : Tree)
    (rest : String) : Prop where
  parses : parsed j line = some obj
  object : isObject obj = true
  field : get? obj f.field = some (.str (f.old ++ rest))
  follows : follows rest = true

/- The record with its path mapped. -/
def moved
    (f : Field)
    (obj : Tree)
    (rest : String) : Tree :=
  setField obj f.field (.str (f.new ++ rest))

/- A file after a rewrite of it that nothing comes between. -/
def relocated
    (j : JsonText)
    (f : Field)
    (bytes : Bytes) : Bytes :=
  ((List.replicate 5 Event.go).foldl (File.step j f)
    (initial { content := bytes, mtime := 0 }).shared).content

/-
  `serde_json` prints a record as text on one line, and what
  it reads back is the record, but for the numbers.
-/
structure Reads
    (j : JsonText)
    (reread : Number → Number)
    (f : Field) : Prop where
  text :
    ∀ tree, j.print tree ≠ [] ∧ ∀ b ∈ j.print tree, 32 ≤ b
  back :
    ∀ line obj rest, Holds j f line obj rest →
      j.parse (j.print (moved f obj rest)) =
        some ((moved f obj rest).mapNumbers reread)

end Projects

------------------------------------------------------------
-- The Claim And Its Condition
------------------------------------------------------------

namespace Projects

open Json (Tree Number)

variable (j : JsonText) (reread : Number → Number)
variable (f : Field)

/- What becomes of one line. -/
structure LineMoves
    (line line' : Bytes) : Prop where
  term : (splitTerm line').2 = (splitTerm line).2
  left : (¬∃ obj rest, Holds j f line obj rest) → line' = line
  moves :
    ∀ obj rest, Holds j f line obj rest →
      parsed j line' = some (moved f obj rest)

/- Where no record is at or under the new path alone. -/
def onlyOld
    (lines : List Bytes) : Prop :=
  ∀ line ∈ lines, ∀ obj rest,
    Holds j f.back line obj rest →
      ∃ rest, Holds j f line obj rest

/- A file is changed where it should be, and can be restored. -/
structure Relocates
    (bytes : Bytes) : Prop where
  lines :
    List.Forall₂ (LineMoves j f) (splitLines bytes)
      (splitLines (relocated j f bytes))
  gone :
    ∀ line ∈ splitLines (relocated j f bytes), ∀ obj rest,
      Holds j f line obj rest →
        ∃ rest, Holds j f.back line obj rest
  restores :
    onlyOld j f (splitLines bytes) →
      (splitLines
          (relocated j f.back (relocated j f bytes))).map
            (parsed j) =
        (splitLines bytes).map (parsed j)

/-
  A record to be moved spells the old path out in its line,
  its numbers are read back as they are printed, and the
  line it becomes spells the new one out, where that is
  needed on the way back.
-/
structure Spelled
    (bytes : Bytes) : Prop where
  old :
    ∀ line ∈ splitLines bytes, ∀ obj rest,
      Holds j f line obj rest →
        contains line (bytesOf f.old) = true
  numbers :
    ∀ line ∈ splitLines bytes, ∀ obj rest,
      Holds j f line obj rest → obj.mapNumbers reread = obj
  new :
    onlyOld j f (splitLines bytes) →
      ∀ line ∈ splitLines bytes, ∀ obj rest,
        Holds j f line obj rest →
          contains
              (j.print (moved f obj rest) ++ (splitTerm line).2)
              (bytesOf f.new) = true

end Projects

------------------------------------------------------------
-- Fields
------------------------------------------------------------

namespace Projects

open Json (Tree Number)

variable {fields : List (String × Tree)} {obj : Tree}
variable {key v : String} {value value' : Tree}

theorem putField_putField
    (key : String)
    (value value' : Tree)
    (fields : List (String × Tree)) :
    putField key value' (putField key value fields) =
      putField key value' fields := by
  induction fields with
  | nil => simp [putField]
  | cons head rest ih =>
      by_cases hHere : head.1 = key
      · simp [putField, hHere]
      · simp [putField, hHere, ih]

theorem putField_of_find?
    (hFind :
      (fields.find? (fun e => e.1 = key)).map Prod.snd =
        some value) :
    putField key value fields = fields := by
  induction fields with
  | nil => cases hFind
  | cons head rest ih =>
      by_cases hHere : head.1 = key
      · simp only [List.find?_cons, hHere, decide_true,
          Option.map_some, Option.some.injEq] at hFind
        rw [putField, if_pos hHere, ← hFind, ← hHere]
      · simp only [List.find?_cons, hHere, decide_false] at hFind
        rw [putField, if_neg hHere, ih hFind]

theorem setField_setField
    (obj : Tree)
    (key : String)
    (value value' : Tree) :
    setField (setField obj key value) key value' =
      setField obj key value' := by
  cases obj with
  | obj fields => simp [setField, putField_putField]
  | _ => rfl

theorem setField_of_get?
    (hGet : get? obj key = some value) :
    setField obj key value = obj := by
  cases obj with
  | obj fields =>
      rw [setField, putField_of_find? hGet]
  | _ => rfl

theorem isObject_setField
    (obj : Tree)
    (key : String)
    (value : Tree) :
    isObject (setField obj key value) = isObject obj := by
  cases obj <;> rfl

/- A text field is not a number. -/
theorem mapNumbersFields_putField
    (reread : Number → Number)
    (key s : String)
    (fields : List (String × Tree)) :
    Tree.mapNumbersFields reread
        (putField key (.str s) fields) =
      putField key (.str s)
        (Tree.mapNumbersFields reread fields) := by
  induction fields with
  | nil =>
      simp [putField, Tree.mapNumbersFields, Tree.mapNumbers]
  | cons head rest ih =>
      by_cases hHere : head.1 = key
      · simp [putField, hHere, Tree.mapNumbersFields,
          Tree.mapNumbers]
      · simp [putField, hHere, Tree.mapNumbersFields, ih]

theorem mapNumbers_setField
    (reread : Number → Number)
    (obj : Tree)
    (key s : String) :
    (setField obj key (.str s)).mapNumbers reread =
      setField (obj.mapNumbers reread) key (.str s) := by
  cases obj with
  | obj fields =>
      simp only [setField, Tree.mapNumbers,
        mapNumbersFields_putField]
  | _ => rfl

theorem find?_mapNumbersFields
    (reread : Number → Number)
    (key : String)
    (fields : List (String × Tree)) :
    ((Tree.mapNumbersFields reread fields).find?
        (fun e => e.1 = key)).map Prod.snd =
      ((fields.find? (fun e => e.1 = key)).map Prod.snd).map
        (Tree.mapNumbers reread) := by
  induction fields with
  | nil => rfl
  | cons head rest ih =>
      by_cases hHere : head.1 = key
      · simp [Tree.mapNumbersFields, hHere]
      · simpa [Tree.mapNumbersFields, hHere] using ih

theorem get?_mapNumbers
    (reread : Number → Number)
    (obj : Tree)
    (key : String) :
    get? (obj.mapNumbers reread) key =
      (get? obj key).map (Tree.mapNumbers reread) := by
  cases obj with
  | obj fields =>
      simp only [get?, Tree.mapNumbers]
      exact find?_mapNumbersFields reread key fields
  | _ => rfl

theorem get?_moved
    {f : Field}
    (hObject : isObject obj = true)
    (rest : String) :
    get? (moved f obj rest) f.field =
      some (.str (f.new ++ rest)) :=
  get?_setField hObject f.field _

/- A record is moved back to what it was. -/
theorem moved_back
    {f : Field}
    {rest : String}
    (hField : get? obj f.field = some (.str (f.old ++ rest))) :
    moved f.back (moved f obj rest) rest = obj := by
  simp only [moved, Field.back, setField_setField]
  exact setField_of_get? hField

/- A record's other numbers are as they are in the record. -/
theorem mapNumbers_moved
    {reread : Number → Number}
    {f : Field}
    {rest : String}
    (hField : get? obj f.field = some (.str (f.old ++ rest))) :
    (moved f obj rest).mapNumbers reread = moved f obj rest ↔
      obj.mapNumbers reread = obj := by
  unfold moved
  rw [mapNumbers_setField]
  constructor
  · intro hSame
    -- both sides get the old path back
    have hBack :=
      congrArg
        (fun t => setField t f.field (.str (f.old ++ rest))) hSame
    simp only [setField_setField] at hBack
    rw [setField_of_get? hField, setField_of_get?] at hBack
    · exact hBack
    · rw [get?_mapNumbers, hField]
      rfl
  · intro hSame
    rw [hSame]

end Projects

------------------------------------------------------------
-- One Line
------------------------------------------------------------

namespace Projects

open Json (Tree Number)

variable {j : JsonText} {reread : Number → Number}
variable {f : Field} {line body : Bytes}
variable {obj obj' : Tree} {rest rest' : String}

/- The ends a line can have. -/
theorem splitTerm_cases
    (line : Bytes) :
    line = (splitTerm line).1 ++ (splitTerm line).2 ∧
      ((splitTerm line).2 = [13, 10] ∨
        (splitTerm line).2 = [10] ∨
          (splitTerm line).2 = [] ∧ ¬[newline] <:+ line) := by
  have hCrLf : bytesOf "\r\n" = [13, 10] := by decide
  unfold splitTerm
  rw [hCrLf]
  split
  · rename_i hSuffix
    rcases hSuffix with ⟨body, rfl⟩
    simp
  · split
    · rename_i hSuffix
      rcases hSuffix with ⟨body, rfl⟩
      simp [newline]
    · rename_i hOpen
      simp [hOpen]

/- A body of text is split from the end of another line. -/
theorem splitTerm_append
    (hText : ∀ b ∈ body, (32 : UInt8) ≤ b)
    (line : Bytes) :
    splitTerm (body ++ (splitTerm line).2) =
      (body, (splitTerm line).2) := by
  have hCrLf : bytesOf "\r\n" = [13, 10] := by decide
  have hLast : ∀ b : UInt8, b < 32 → ¬[b] <:+ body := by
    intro b hSmall hSuffix
    have hLarge := hText b (hSuffix.subset (by simp))
    exact absurd hLarge (by simpa using hSmall)
  have hNotCrLf : ¬[13, 10] <:+ body := by
    intro hSuffix
    exact
      hLast 10 (by decide)
        ((List.suffix_append [13] [10]).trans hSuffix)
  rcases (splitTerm_cases line).2 with
    hTerm | hTerm | ⟨hTerm, -⟩
  · rw [hTerm]
    unfold splitTerm
    rw [hCrLf, if_pos (List.suffix_append _ _)]
    simp
  · rw [hTerm]
    unfold splitTerm
    have hNot : ¬[13, 10] <:+ body ++ [10] := by
      rintro ⟨head, hSame⟩
      have hCut : head ++ [13] ++ [10] = body ++ [10] := by
        simpa using hSame
      exact
        hLast 13 (by decide)
          ⟨head, List.append_cancel_right hCut⟩
    rw [hCrLf, if_neg hNot, newline,
      if_pos (List.suffix_append _ _)]
    simp
  · rw [hTerm, List.append_nil]
    unfold splitTerm
    rw [hCrLf, if_neg hNotCrLf, newline,
      if_neg (hLast 10 (by decide))]

theorem remap_eq_some
    {value : Option Tree}
    {old new path : String} :
    remap value old new = some path ↔
      ∃ rest, value = some (.str (old ++ rest)) ∧
        follows rest = true ∧ path = new ++ rest := by
  constructor
  · intro hMap
    unfold remap at hMap
    rcases Option.bind_eq_some_iff.mp hMap with
      ⟨v, hValue, hText⟩
    rcases Option.bind_eq_some_iff.mp hValue with
      ⟨tree, rfl, hStr⟩
    have hTree : tree = .str v := by
      cases tree <;> simp_all [asStr]
    subst hTree
    unfold remapText at hText
    split at hText
    · rename_i hSame
      cases hText
      exact ⟨"", by simp [hSame], rfl, by simp⟩
    · rcases Option.map_eq_some_iff.mp hText with
        ⟨rest, hRest, rfl⟩
      rcases Option.filter_eq_some_iff.mp hRest with
        ⟨hStrip, hStarts⟩
      have hSame := RustText.stripPrefix_eq_some hStrip
      refine ⟨rest, ?_, by simp [follows, hStarts], rfl⟩
      rw [← String.toList_append] at hSame
      rw [String.toList_injective hSame]
  · rintro ⟨rest, rfl, hFollows, rfl⟩
    have hStrip := RustText.stripPrefix_append old rest
    simp only [follows, decide_eq_true_eq] at hFollows
    by_cases hSame : old ++ rest = old
    · have hEmpty : rest = "" := by
        simpa using hSame
      simp [remap, asStr, remapText, hEmpty]
    · have hStarts : startsComponent rest = true := by
        rcases hFollows with rfl | hStarts
        · simp at hSame
        · exact hStarts
      simp only [remap, Option.bind_some, asStr, remapText,
        if_neg hSame, hStrip, Option.filter_some, hStarts,
        if_true, Option.map_some]

/- What a line holds is one record and one rest. -/
theorem Holds.unique
    (hHolds : Holds j f line obj rest)
    (hHolds' : Holds j f line obj' rest') :
    obj' = obj ∧ rest' = rest := by
  have hObj : obj' = obj := by
    have hParses := hHolds'.parses
    rw [hHolds.parses] at hParses
    exact (Option.some.inj hParses).symm
  subst hObj
  have hField := hHolds'.field
  rw [hHolds.field] at hField
  simp only [Option.some.injEq, Tree.str.injEq] at hField
  exact ⟨rfl, by simpa using hField.symm⟩

/- A line that is found, and holds a record to be moved. -/
theorem rewriteLine_of_holds
    (hHolds : Holds j f line obj rest)
    (hFound : contains line (bytesOf f.old) = true) :
    (rewriteLine j f line).1 =
        j.print (moved f obj rest) ++ (splitTerm line).2 ∧
      (rewriteLine j f line).2.changed = 1 := by
  have hParses : j.parse (splitTerm line).1 = some obj :=
    hHolds.parses
  have hMap :
      remap (get? obj f.field) f.old f.new =
        some (f.new ++ rest) :=
    remap_eq_some.mpr ⟨rest, hHolds.field, hHolds.follows, rfl⟩
  unfold rewriteLine
  simp only [hFound, Bool.not_true, Bool.false_eq_true,
    if_false, hParses, Option.filter_some, hHolds.object,
    if_true, Option.bind_some, hMap, moved, and_self]

theorem rewriteLine_of_not
    (hNot :
      ¬(contains line (bytesOf f.old) = true ∧
        ∃ obj rest, Holds j f line obj rest)) :
    (rewriteLine j f line).1 = line ∧
      (rewriteLine j f line).2.changed = 0 := by
  unfold rewriteLine
  split
  · exact ⟨rfl, rfl⟩
  · rename_i hFound
    simp only
    split
    · rename_i obj path hParses hMap
      rcases Option.bind_eq_some_iff.mp hMap with
        ⟨record, hRecord, hPath⟩
      rcases Option.filter_eq_some_iff.mp hRecord with
        ⟨hParsed, hObject⟩
      rcases remap_eq_some.mp hPath with
        ⟨rest, hField, hFollows, -⟩
      exact
        absurd
          ⟨by simpa using hFound, record, rest, hParsed,
            hObject, hField, hFollows⟩ hNot
    · exact ⟨rfl, rfl⟩

/- A moved line ends as it did, and is read as moved. -/
theorem Holds.reads
    (hReads : Reads j reread f)
    (hHolds : Holds j f line obj rest) :
    splitTerm
        (j.print (moved f obj rest) ++ (splitTerm line).2) =
      (j.print (moved f obj rest), (splitTerm line).2) ∧
    parsed j
        (j.print (moved f obj rest) ++ (splitTerm line).2) =
      some ((moved f obj rest).mapNumbers reread) := by
  have hSplit :=
    splitTerm_append
      (hReads.text (moved f obj rest)).2 line
  refine ⟨hSplit, ?_⟩
  unfold parsed
  rw [hSplit]
  exact hReads.back line obj rest hHolds

/- A record at the old path is not what it is moved to. -/
theorem Holds.ne_moved
    (hHolds : Holds j f line obj rest)
    (hDistinct : f.old ≠ f.new) :
    moved f obj rest ≠ obj := by
  intro hSame
  have hField := get?_moved (f := f) hHolds.object rest
  rw [hSame, hHolds.field] at hField
  simp only [Option.some.injEq, Tree.str.injEq] at hField
  exact hDistinct (by simpa using hField)

end Projects

------------------------------------------------------------
-- The Lines Of A File
------------------------------------------------------------

namespace Projects

open Json (Tree Number)

variable {j : JsonText} {reread : Number → Number}
variable {f : Field}

theorem splitLines_eq
    (bytes : Bytes) :
    splitLines bytes = Inclusive.split newline bytes := by
  induction bytes with
  | nil => rfl
  | cons b rest ih =>
      rw [splitLines, Inclusive.split, ih]
      split
      · rfl
      · cases Inclusive.split newline rest <;> rfl

/- A rewritten line ends where the line did. -/
theorem pieces_rewriteLine
    (hReads : Reads j reread f)
    {lines : List Bytes}
    (hPieces : Inclusive.Pieces newline lines) :
    Inclusive.Pieces newline
      (lines.map (fun line => (rewriteLine j f line).1)) := by
  have hPlain : ∀ tree, newline ∉ j.print tree := by
    intro tree hMember
    exact
      absurd ((hReads.text tree).2 newline hMember) (by decide)
  refine hPieces.map ?_ ?_
  · intro body hBody
    by_cases hMoves :
        contains (body ++ [newline]) (bytesOf f.old) = true ∧
          ∃ obj rest, Holds j f (body ++ [newline]) obj rest
    · rcases hMoves with ⟨hFound, obj, rest, hHolds⟩
      rw [(rewriteLine_of_holds hHolds hFound).1]
      rcases (splitTerm_cases (body ++ [newline])).2 with
        hTerm | hTerm | ⟨-, hOpen⟩
      · rw [hTerm]
        refine
          ⟨j.print (moved f obj rest) ++ [13], ?_, by
            simp [newline]⟩
        rw [List.mem_append, not_or]
        exact ⟨hPlain _, by decide⟩
      · rw [hTerm]
        exact ⟨j.print (moved f obj rest), hPlain _, rfl⟩
      · exact absurd (List.suffix_append _ _) hOpen
    · rw [(rewriteLine_of_not hMoves).1]
      exact ⟨body, hBody, rfl⟩
  · intro line hLine hOpen
    by_cases hMoves :
        contains line (bytesOf f.old) = true ∧
          ∃ obj rest, Holds j f line obj rest
    · rcases hMoves with ⟨hFound, obj, rest, hHolds⟩
      rw [(rewriteLine_of_holds hHolds hFound).1]
      have hTerm : (splitTerm line).2 = [] := by
        rcases splitTerm_cases line with ⟨hSame, hEnds⟩
        rcases hEnds with hTerm | hTerm | ⟨hTerm, -⟩
        · rw [hSame, hTerm] at hOpen
          simp [newline] at hOpen
        · rw [hSame, hTerm] at hOpen
          simp [newline] at hOpen
        · exact hTerm
      rw [hTerm, List.append_nil]
      exact ⟨(hReads.text _).1, hPlain _⟩
    · rw [(rewriteLine_of_not hMoves).1]
      exact ⟨hLine, hOpen⟩

/- The rewritten file's lines are the lines rewritten. -/
theorem splitLines_rewriteBytes
    (hReads : Reads j reread f)
    (bytes : Bytes) :
    splitLines (rewriteBytes j f bytes) =
      (splitLines bytes).map
        (fun line => (rewriteLine j f line).1) := by
  rw [rewriteBytes, splitLines_eq, splitLines_eq,
    List.flatMap_def]
  exact
    Inclusive.split_flatten
      (pieces_rewriteLine hReads
        (Inclusive.pieces_split bytes))

theorem changed_foldl
    (lines : List Bytes)
    (r : Rewrite) :
    (lines.foldl
        (fun r line => r.add (rewriteLine j f line).2)
          r).changed =
      r.changed +
        (lines.map
          (fun line => (rewriteLine j f line).2.changed)).sum := by
  induction lines generalizing r with
  | nil => simp
  | cons line lines ih =>
      rw [List.foldl_cons, ih, List.map_cons, List.sum_cons,
        ← Nat.add_assoc]
      rfl

theorem rewriteLine_of_changed
    {line : Bytes}
    (hNone : (rewriteLine j f line).2.changed = 0) :
    (rewriteLine j f line).1 = line := by
  by_cases hMoves :
      contains line (bytesOf f.old) = true ∧
        ∃ obj rest, Holds j f line obj rest
  · rcases hMoves with ⟨hFound, obj, rest, hHolds⟩
    rw [(rewriteLine_of_holds hHolds hFound).2] at hNone
    cases hNone
  · exact (rewriteLine_of_not hMoves).1

/- A file with no record to move is left, and as it was. -/
theorem rewriteBytes_of_changed
    {bytes : Bytes}
    (hNone : (rewriteTally j f bytes).changed = 0) :
    rewriteBytes j f bytes = bytes := by
  rw [rewriteTally, changed_foldl, Nat.zero_add,
    List.sum_eq_zero_iff_forall_eq_nat] at hNone
  have hEach :
      ∀ line ∈ splitLines bytes,
        (rewriteLine j f line).1 = line := by
    intro line hMember
    exact
      rewriteLine_of_changed
        (hNone _ (List.mem_map_of_mem hMember))
  rw [rewriteBytes, List.flatMap_def, List.map_congr_left hEach,
    List.map_id', splitLines_eq, Inclusive.flatten_split]

/- What the rewrite's steps make of a file left alone. -/
theorem relocated_eq
    (j : JsonText)
    (f : Field)
    (bytes : Bytes) :
    relocated j f bytes = rewriteBytes j f bytes := by
  by_cases hNone : (rewriteTally j f bytes).changed = 0
  · rw [rewriteBytes_of_changed hNone]
    simp [relocated, List.replicate, initial, File.step,
      File.to, File.content, File.inode, hNone]
  · simp [relocated, List.replicate, initial, File.step,
      File.to, File.content, File.inode, File.swap, stamp,
      hNone]

theorem splitLines_relocated
    (hReads : Reads j reread f)
    (bytes : Bytes) :
    splitLines (relocated j f bytes) =
      (splitLines bytes).map
        (fun line => (rewriteLine j f line).1) := by
  rw [relocated_eq, splitLines_rewriteBytes hReads]

end Projects

------------------------------------------------------------
-- There And Back
------------------------------------------------------------

namespace Projects

open Json (Tree Number)

variable {j : JsonText} {reread : Number → Number}
variable {f : Field} {line : Bytes} {bytes : Bytes}

/- What a rewritten line holds, it holds at the new path. -/
theorem Holds.moved
    {obj : Tree}
    {rest : String}
    (hReads : Reads j reread f)
    (hHolds : Holds j f line obj rest)
    (hFound : contains line (bytesOf f.old) = true)
    (hNumbers : obj.mapNumbers reread = obj) :
    Holds j f.back (rewriteLine j f line).1
      (Projects.moved f obj rest) rest := by
  rw [(rewriteLine_of_holds hHolds hFound).1]
  refine ⟨?_, ?_, ?_, hHolds.follows⟩
  · rw [(hHolds.reads hReads).2,
      (mapNumbers_moved hHolds.field).mpr hNumbers]
  · exact
      (isObject_setField obj f.field _).trans hHolds.object
  · exact get?_moved hHolds.object rest

theorem lineMoves
    (hReads : Reads j reread f)
    (hOld :
      ∀ obj rest, Holds j f line obj rest →
        contains line (bytesOf f.old) = true)
    (hNumbers :
      ∀ obj rest, Holds j f line obj rest →
        obj.mapNumbers reread = obj) :
    LineMoves j f line (rewriteLine j f line).1 where
  term := by
    by_cases hMoves : ∃ obj rest, Holds j f line obj rest
    · rcases hMoves with ⟨obj, rest, hHolds⟩
      rw [(rewriteLine_of_holds hHolds (hOld _ _ hHolds)).1,
        (hHolds.reads hReads).1]
    · rw [(rewriteLine_of_not (fun h => hMoves h.2)).1]
  left hNone :=
    (rewriteLine_of_not (fun h => hNone h.2)).1
  moves obj rest hHolds :=
    (hHolds.moved hReads (hOld _ _ hHolds)
      (hNumbers _ _ hHolds)).parses

/- A line that is moved is moved back, any other is left. -/
theorem parsed_back
    (hReads : Reads j reread f)
    (hBack : Reads j reread f.back)
    (hOnly :
      ∀ obj rest, Holds j f.back line obj rest →
        ∃ rest, Holds j f line obj rest)
    (hOld :
      ∀ obj rest, Holds j f line obj rest →
        contains line (bytesOf f.old) = true)
    (hNumbers :
      ∀ obj rest, Holds j f line obj rest →
        obj.mapNumbers reread = obj)
    (hNew :
      ∀ obj rest, Holds j f line obj rest →
        contains
            (j.print (moved f obj rest) ++ (splitTerm line).2)
            (bytesOf f.new) = true) :
    parsed j (rewriteLine j f.back (rewriteLine j f line).1).1 =
      parsed j line := by
  by_cases hMoves : ∃ obj rest, Holds j f line obj rest
  · rcases hMoves with ⟨obj, rest, hHolds⟩
    have hFound := hOld _ _ hHolds
    have hThere :=
      hHolds.moved hReads hFound (hNumbers _ _ hHolds)
    have hFoundBack :
        contains (rewriteLine j f line).1 (bytesOf f.new) =
          true := by
      rw [(rewriteLine_of_holds hHolds hFound).1]
      exact hNew _ _ hHolds
    rw [(rewriteLine_of_holds hThere hFoundBack).1,
      (hThere.reads hBack).2, moved_back hHolds.field,
      hNumbers _ _ hHolds, hHolds.parses]
  · have hNone : ¬∃ obj rest, Holds j f.back line obj rest := by
      rintro ⟨obj, rest, hHolds⟩
      rcases hOnly obj rest hHolds with ⟨rest', hHolds'⟩
      exact hMoves ⟨obj, rest', hHolds'⟩
    rw [(rewriteLine_of_not (fun h => hMoves h.2)).1,
      (rewriteLine_of_not (fun h => hNone h.2)).1]

theorem relocates_of_spelled
    (hReads : Reads j reread f)
    (hBack : Reads j reread f.back)
    (hSpelled : Spelled j reread f bytes) :
    Relocates j f bytes where
  lines := by
    rw [splitLines_relocated hReads, List.forall₂_map_right_iff,
      List.forall₂_same]
    intro line hMember
    exact
      lineMoves hReads (hSpelled.old line hMember)
        (hSpelled.numbers line hMember)
  gone := by
    rw [splitLines_relocated hReads]
    intro line' hMember' obj' rest' hHolds'
    rcases List.mem_map.mp hMember' with ⟨line, hMember, rfl⟩
    by_cases hMoves : ∃ obj rest, Holds j f line obj rest
    · rcases hMoves with ⟨obj, rest, hHolds⟩
      have hThere :=
        hHolds.moved hReads
          (hSpelled.old line hMember _ _ hHolds)
          (hSpelled.numbers line hMember _ _ hHolds)
      have hObj : obj' = moved f obj rest := by
        have hParses := hHolds'.parses
        rw [hThere.parses] at hParses
        exact (Option.some.inj hParses).symm
      exact ⟨rest, hObj ▸ hThere⟩
    · rw [(rewriteLine_of_not (fun h => hMoves h.2)).1]
        at hHolds'
      exact absurd ⟨obj', rest', hHolds'⟩ hMoves
  restores hOnly := by
    rw [splitLines_relocated hBack, splitLines_relocated hReads,
      List.map_map, List.map_map]
    apply List.map_congr_left
    intro line hMember
    exact
      parsed_back hReads hBack (hOnly line hMember)
        (hSpelled.old line hMember)
        (hSpelled.numbers line hMember)
        (hSpelled.new hOnly line hMember)

/- A line that changed as it should was found, and settled. -/
theorem LineMoves.spelled
    {obj : Tree}
    {rest : String}
    (hReads : Reads j reread f)
    (hDistinct : f.old ≠ f.new)
    (hLine : LineMoves j f line (rewriteLine j f line).1)
    (hHolds : Holds j f line obj rest) :
    contains line (bytesOf f.old) = true ∧
      obj.mapNumbers reread = obj := by
  have hMoved := hLine.moves obj rest hHolds
  have hFound : contains line (bytesOf f.old) = true := by
    by_contra hNot
    rw [(rewriteLine_of_not (fun h => hNot h.1)).1,
      hHolds.parses] at hMoved
    exact
      hHolds.ne_moved hDistinct (Option.some.inj hMoved).symm
  refine ⟨hFound, ?_⟩
  rw [(rewriteLine_of_holds hHolds hFound).1,
    (hHolds.reads hReads).2] at hMoved
  exact
    (mapNumbers_moved hHolds.field).mp (Option.some.inj hMoved)

/- A line that is restored names the path it has moved to. -/
theorem found_of_restored
    {obj : Tree}
    {rest : String}
    (hReads : Reads j reread f)
    (hDistinct : f.old ≠ f.new)
    (hHolds : Holds j f line obj rest)
    (hFound : contains line (bytesOf f.old) = true)
    (hNumbers : obj.mapNumbers reread = obj)
    (hSame :
      parsed j (rewriteLine j f.back (rewriteLine j f line).1).1 =
        parsed j line) :
    contains
        (j.print (moved f obj rest) ++ (splitTerm line).2)
        (bytesOf f.new) = true := by
  have hThere := hHolds.moved hReads hFound hNumbers
  rw [← (rewriteLine_of_holds hHolds hFound).1]
  -- where the new path is not found, the line stays moved
  by_contra hNot
  have hStays :
      (rewriteLine j f.back (rewriteLine j f line).1).1 =
        (rewriteLine j f line).1 := by
    refine (rewriteLine_of_not ?_).1
    rintro ⟨hThen, -⟩
    rw [Field.back_old] at hThen
    exact hNot hThen
  rw [hStays, hThere.parses, hHolds.parses] at hSame
  exact hHolds.ne_moved hDistinct (Option.some.inj hSame)

/-
  A relocated file is changed where it should be, and only
  there, exactly where the records to be moved spell their
  paths out.
-/
theorem relocates_iff
    (hReads : Reads j reread f)
    (hBack : Reads j reread f.back)
    (hDistinct : f.old ≠ f.new)
    (bytes : Bytes) :
    Relocates j f bytes ↔ Spelled j reread f bytes := by
  refine ⟨?_, relocates_of_spelled hReads hBack⟩
  intro hRelocates
  have hLines :
      ∀ line ∈ splitLines bytes,
        LineMoves j f line (rewriteLine j f line).1 := by
    have hAll := hRelocates.lines
    rw [splitLines_relocated hReads,
      List.forall₂_map_right_iff, List.forall₂_same] at hAll
    exact hAll
  have hSpelled :
      ∀ line ∈ splitLines bytes, ∀ obj rest,
        Holds j f line obj rest →
          contains line (bytesOf f.old) = true ∧
            obj.mapNumbers reread = obj :=
    fun line hMember _ _ hHolds =>
      (hLines line hMember).spelled hReads hDistinct hHolds
  refine
    ⟨fun line hMember obj rest hHolds =>
        (hSpelled line hMember obj rest hHolds).1,
      fun line hMember obj rest hHolds =>
        (hSpelled line hMember obj rest hHolds).2, ?_⟩
  intro hOnly line hMember obj rest hHolds
  have hRestores := hRelocates.restores hOnly
  rw [splitLines_relocated hBack, splitLines_relocated hReads,
    List.map_map, List.map_map] at hRestores
  have hSame := List.map_inj_left.mp hRestores line hMember
  have hLine := hSpelled line hMember obj rest hHolds
  exact
    found_of_restored hReads hDistinct hHolds hLine.1 hLine.2
      hSame

end Projects

------------------------------------------------------------
-- Two Files
------------------------------------------------------------

namespace Projects

open Json (Tree)

def cwdAt
    (path : String) : Tree :=
  .obj [("cwd", .str path)]

/- Some records with one path field, and their texts. -/
def records
    (texts : List (String × String)) : JsonText where
  parse body :=
    (texts.find? (fun t => bytesOf t.2 = body)).map
      (fun t => cwdAt t.1)
  print tree :=
    match texts.find? (fun t => tree = cwdAt t.1) with
    | some t => bytesOf t.2
    | none => bytesOf "null"

theorem reads_records
    {texts : List (String × String)}
    {f : Field}
    (hField : f.field = "cwd")
    (hText :
      texts.all (fun t =>
        (bytesOf t.2).length ≠ 0 ∧
          (bytesOf t.2).all (fun b => (32 : UInt8) ≤ b)) =
        true)
    (hMoves :
      ∀ t ∈ texts, ∀ rest, t.1 = f.old ++ rest →
        (records texts).parse
            ((records texts).print (cwdAt (f.new ++ rest))) =
          some (cwdAt (f.new ++ rest))) :
    Reads (records texts) id f where
  text tree := by
    simp only [records]
    split
    · rename_i t hFind
      have hEach :=
        List.all_eq_true.mp hText t
          (List.mem_of_find?_eq_some hFind)
      simpa using hEach
    · have hNull :
          (bytesOf "null").all (fun b => (32 : UInt8) ≤ b) =
            true := by
        decide
      exact ⟨by decide, by simpa using hNull⟩
  back line obj rest hHolds := by
    have hParses := hHolds.parses
    rcases Option.map_eq_some_iff.mp hParses with
      ⟨t, hFind, rfl⟩
    have hAt := hHolds.field
    simp only [cwdAt, get?, hField, List.find?_cons,
      decide_true, Option.map_some, Option.some.injEq,
      Tree.str.injEq] at hAt
    have hMoved :
        moved f (cwdAt t.1) rest = cwdAt (f.new ++ rest) := by
      simp [moved, setField, cwdAt, putField, hField]
    rw [hMoved]
    exact
      hMoves t (List.mem_of_find?_eq_some hFind) rest hAt

def plain : Field where
  field := "cwd"
  old := "/a"
  new := "/b"

def plainTexts : List (String × String) :=
  [("/a", "\x7b\"cwd\":\"/a\"\x7d"), ("/b", "\x7b\"cwd\":\"/b\"\x7d")]

theorem relocates_iff_plain :
    "/a" ≠ "/b" ∧
      (Relocates (records plainTexts) plain
          (bytesOf "\x7b\"cwd\":\"/a\"\x7d\r\nnot json") ↔
        Spelled (records plainTexts) id plain
          (bytesOf "\x7b\"cwd\":\"/a\"\x7d\r\nnot json")) := by
  refine
    ⟨by decide,
      relocates_iff
        (reads_records rfl (by decide) ?_)
        (reads_records rfl (by decide) ?_) (by decide) _⟩
  · intro t hMember rest hSame
    have hChars := congrArg String.toList hSame
    rcases (by simpa [plainTexts] using hMember) with
      rfl | rfl
    · have hRest : rest = "" := by
        simpa [plain] using hChars
      subst hRest
      decide
    · simp [plain] at hChars
  · intro t hMember rest hSame
    have hChars := congrArg String.toList hSame
    rcases (by simpa [plainTexts] using hMember) with
      rfl | rfl
    · simp [plain, Field.back] at hChars
    · have hRest : rest = "" := by
        simpa [plain, Field.back] using hChars
      subst hRest
      decide

/- A path with a quote in it, which its record escapes. -/
def quoted : Field where
  field := "cwd"
  old := "/home/a\"b"
  new := "/srv/a"

def quotedTexts : List (String × String) :=
  [("/home/a\"b", "\x7b\"cwd\":\"/home/a\\\"b\"\x7d"),
    ("/srv/a", "\x7b\"cwd\":\"/srv/a\"\x7d")]

theorem not_relocates :
    ¬ ∀ j reread f bytes,
      Reads j reread f → Reads j reread f.back →
        f.old ≠ f.new → Relocates j f bytes := by
  intro hClaim
  have hReads :
      Reads (records quotedTexts) id quoted := by
    refine reads_records rfl (by decide) ?_
    intro t hMember rest hSame
    have hChars := congrArg String.toList hSame
    rcases (by simpa [quotedTexts] using hMember) with
      rfl | rfl
    · have hRest : rest = "" := by
        simpa [quoted] using hChars
      subst hRest
      decide
    · simp [quoted] at hChars
  have hBack :
      Reads (records quotedTexts) id quoted.back := by
    refine reads_records rfl (by decide) ?_
    intro t hMember rest hSame
    have hChars := congrArg String.toList hSame
    rcases (by simpa [quotedTexts] using hMember) with
      rfl | rfl
    · simp [quoted, Field.back] at hChars
    · have hRest : rest = "" := by
        simpa [quoted, Field.back] using hChars
      subst hRest
      decide
  have hFile :=
    (hClaim (records quotedTexts) id quoted
      (bytesOf "\x7b\"cwd\":\"/home/a\\\"b\"\x7d\n") hReads hBack
      (by decide)).lines
  -- the line has no raw quote in its path, and is left
  have hHolds :
      Holds (records quotedTexts) quoted
        (bytesOf "\x7b\"cwd\":\"/home/a\\\"b\"\x7d\n")
        (cwdAt "/home/a\"b") "" :=
    ⟨by decide, rfl, by decide, rfl⟩
  have hLeft :
      splitLines
          (relocated (records quotedTexts) quoted
            (bytesOf "\x7b\"cwd\":\"/home/a\\\"b\"\x7d\n")) =
        [bytesOf "\x7b\"cwd\":\"/home/a\\\"b\"\x7d\n"] := by
    decide
  have hOne :
      splitLines (bytesOf "\x7b\"cwd\":\"/home/a\\\"b\"\x7d\n") =
        [bytesOf "\x7b\"cwd\":\"/home/a\\\"b\"\x7d\n"] := by
    decide
  rw [hLeft, hOne] at hFile
  cases hFile with
  | cons hLine _ =>
      have hMoved := hLine.moves _ _ hHolds
      rw [hHolds.parses] at hMoved
      exact absurd hMoved (by decide)

end Projects
