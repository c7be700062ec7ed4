import AgentWays.YamlEdit.Doc
import Mathlib.Data.List.TakeWhile
import Mathlib.Logic.Relation

/-
  What a settings edit does to the lines of the document.

  An edit finds its entry through the block mappings above
  it. A set replaces the entry's range or adds a run of lines
  below the deepest entry there is; a removal keeps the
  comment lines of the range it takes out.

  Key definitions include:
    * `YamlEdit.locate`
    * `YamlEdit.Missing`
    * `YamlEdit.Drops`

  Main declarations:
    * `YamlEdit.replaceEntry_eq`
    * `YamlEdit.textSet_of_missing`
    * `YamlEdit.textRemove_cases`
    * `YamlEdit.edits_keep`
-/

------------------------------------------------------------
-- Entries And Their Ranges
------------------------------------------------------------

namespace YamlEdit

/- The entry of a path written in block style. -/
def locateFrom
    (y : Yaml)
    (lines : List Line) :
    Block → List String → Option Entry
| _, [] => none
| block, seg :: rest =>
    match findIn y lines block seg with
    | none => none
    | some e =>
        if rest.isEmpty then some e
        else
          match style lines e with
          | .blockMap indent =>
              locateFrom y lines (e.block indent) rest
          | _ => none

def locate
    (y : Yaml)
    (lines : List Line)
    (path : List String) : Option Entry :=
  locateFrom y lines (rootBlock lines) path

/- The lines of an entry. -/
def range
    (lines : List Line)
    (e : Entry) : List Line :=
  (lines.take e.endAt).drop e.line

variable {y : Yaml} {lines : List Line} {e : Entry}
variable {path p q : List String} {seg : String} {b : Block}

theorem lastContent_bounds
    (indent : Nat)
    (inline : Line)
    (rest : List Line)
    {j last : Nat}
    (hLast : last < j) :
    last ≤ lastContent indent inline rest j last ∧
      lastContent indent inline rest j last <
        j + rest.length := by
  induction rest generalizing j last with
  | nil => simpa [lastContent] using hLast
  | cons l rest ih =>
      rw [lastContent, List.length_cons]
      split
      · have hNext : last < j + 1 := by omega
        have hRest := ih hNext
        omega
      · split
        · have hNext : j < j + 1 := by omega
          have hRest := ih hNext
          omega
        · omega

/- The key of a line is looked for where there is content. -/
theorem lt_length_of_keyAt
    {indent i : Nat}
    {key : String}
    (hKey : keyAt y lines indent i = some key) :
    i < lines.length := by
  by_contra hNot
  have hBlank : lines.getD i [] = [] := by
    rw [List.getD_eq_getElem?_getD,
      List.getElem?_eq_none (Nat.le_of_not_lt hNot)]
    rfl
  unfold keyAt at hKey
  rw [hBlank] at hKey
  cases hKey

/- What is found is the entry of a line in the block. -/
theorem exists_of_findIn
    (hFind : findIn y lines b seg = some e) :
    ∃ i,
      b.start ≤ i ∧ i < b.endAt ∧
        keyAt y lines b.indent i = some seg ∧
        e = entryAt lines i b.indent b.endAt := by
  unfold findIn at hFind
  rcases Option.map_eq_some_iff.mp hFind with ⟨i, hAt, hEntry⟩
  have hMem := List.mem_of_find?_eq_some hAt
  have hKey := List.find?_some hAt
  rw [List.mem_range'_1] at hMem
  exact
    ⟨i, by omega, by omega, by simpa using hKey,
      hEntry.symm⟩

theorem entryAt_bounds
    {i : Nat}
    (hLine : i < lines.length)
    (indent blockEnd : Nat) :
    i < (entryAt lines i indent blockEnd).endAt ∧
      (entryAt lines i indent blockEnd).endAt ≤
        lines.length := by
  unfold entryAt
  dsimp only
  have hBounds :=
    lastContent_bounds indent
      (splitComment
        ((splitKey ((lines.getD i []).drop indent)).getD
          ([], [])).2).1
      ((lines.take blockEnd).drop (i + 1))
      (show i < i + 1 by omega)
  have hLength :
      ((lines.take blockEnd).drop (i + 1)).length =
        min blockEnd lines.length - (i + 1) := by
    rw [List.length_drop, List.length_take]
  rw [hLength] at hBounds
  omega

theorem bounds_of_findIn
    (hFind : findIn y lines b seg = some e) :
    b.start ≤ e.line ∧ e.line < e.endAt ∧
      e.endAt ≤ lines.length := by
  rcases exists_of_findIn hFind with
    ⟨i, hStart, hEnd, hKey, rfl⟩
  have hBounds :=
    entryAt_bounds (lt_length_of_keyAt hKey) b.indent b.endAt
  exact ⟨hStart, hBounds⟩

/- A located entry is found in some block. -/
theorem exists_of_locateFrom
    (hLocate : locateFrom y lines b path = some e) :
    ∃ b' seg', findIn y lines b' seg' = some e := by
  induction path generalizing b with
  | nil => cases hLocate
  | cons seg rest ih =>
      rw [locateFrom] at hLocate
      cases hFind : findIn y lines b seg with
      | none =>
          rw [hFind] at hLocate
          cases hLocate
      | some e' =>
          rw [hFind] at hLocate
          dsimp only at hLocate
          split at hLocate
          · injection hLocate with hSame
            exact ⟨b, seg, hSame ▸ hFind⟩
          · split at hLocate
            · exact ih hLocate
            · cases hLocate

theorem bounds_of_locate
    (hLocate : locate y lines path = some e) :
    e.line < e.endAt ∧ e.endAt ≤ lines.length := by
  rcases exists_of_locateFrom hLocate with ⟨b, seg, hFind⟩
  exact (bounds_of_findIn hFind).2

end YamlEdit

------------------------------------------------------------
-- Trailing Comments
------------------------------------------------------------

namespace YamlEdit

variable {y : Yaml} {lines : List Line} {e : Entry}
variable {t rest raw before : Line}

theorem eq_of_closeQuote
    {q : Char}
    {esc : Bool}
    (hClose : closeQuote q esc t = some (before, rest)) :
    t = before ++ rest := by
  induction t generalizing esc before with
  | nil => cases hClose
  | cons c t ih =>
      rw [closeQuote] at hClose
      split at hClose
      · rcases Option.map_eq_some_iff.mp hClose with
          ⟨pair, hRest, hPair⟩
        cases hPair
        rw [ih hRest]
        rfl
      · split at hClose
        · cases hClose
          rfl
        · rcases Option.map_eq_some_iff.mp hClose with
            ⟨pair, hRest, hPair⟩
          cases hPair
          rw [ih hRest]
          rfl

theorem eq_of_splitColon
    (hSplit : splitColon t = some (before, rest)) :
    t = before ++ ':' :: rest := by
  induction t generalizing before with
  | nil => cases hSplit
  | cons c t ih =>
      rw [splitColon] at hSplit
      split at hSplit
      · rename_i hColon
        cases hSplit
        rw [hColon.1]
        rfl
      · rcases Option.map_eq_some_iff.mp hSplit with
          ⟨pair, hRest, hPair⟩
        cases hPair
        rw [ih hRest]
        rfl

theorem suffix_of_quotedKey
    {q : Char}
    (hKey : quotedKey q t = some (raw, rest)) :
    rest <:+ t := by
  unfold quotedKey at hKey
  split at hKey
  · cases hKey
  · rename_i inside after hClose
    rw [eq_of_closeQuote hClose]
    have hDrop :=
      List.dropWhile_suffix (l := after)
        (fun c => c = ' ' || c = '\t')
    split at hKey
    · rename_i tail hAfter
      rw [hAfter] at hDrop
      split at hKey
      · cases hKey
        exact
          ((List.suffix_cons ':' rest).trans hDrop).trans
            (List.suffix_append inside after)
      · cases hKey
    · cases hKey

theorem suffix_of_splitKey
    (hKey : splitKey t = some (raw, rest)) :
    rest <:+ t := by
  unfold splitKey at hKey
  split at hKey
  · cases hKey
  · rename_i c tail
    split at hKey
    · cases hKey
    · split at hKey
      · exact
          (suffix_of_quotedKey hKey).trans
            (List.suffix_cons c tail)
      · unfold plainKey at hKey
        split at hKey
        · cases hKey
        · rename_i before after hColon
          dsimp only at hKey
          split at hKey
          · cases hKey
          · cases hKey
            rw [eq_of_splitColon hColon]
            exact
              (List.suffix_cons ':' rest).trans
                (List.suffix_append before (':' :: rest))

theorem suffix_of_splitComment
    (rest : Line) :
    (splitComment rest).2 <:+ rest := by
  have hBody : trimStart rest <:+ rest :=
    List.dropWhile_suffix _
  unfold splitComment
  dsimp only
  split
  · exact (List.drop_suffix _ _).trans hBody
  · exact List.nil_suffix

/- A line ends with the trailing comment read from it. -/
theorem comment_suffix
    {indent i blockEnd : Nat}
    (hIs : e = entryAt lines i indent blockEnd) :
    e.comment <:+ lines.getD i [] := by
  rw [hIs]
  unfold entryAt
  dsimp only
  cases hKey : splitKey ((lines.getD i []).drop indent) with
  | none => exact List.nil_suffix
  | some p =>
      exact
        ((suffix_of_splitComment _).trans
          (suffix_of_splitKey hKey)).trans
          (List.drop_suffix _ _)

/- What stands before the `#` that starts a comment. -/
theorem hashAt_spec
    {prev : Option Char}
    {h : Nat}
    (hHash : hashAt prev t = some h) :
    (h = 0 ∧
        (prev = none ∨ prev = some ' ' ∨ prev = some '\t')) ∨
      ∃ c, t[h - 1]? = some c ∧ 0 < h ∧
        (c = ' ' ∨ c = '\t') := by
  induction t generalizing prev h with
  | nil => cases hHash
  | cons c t ih =>
      rw [hashAt] at hHash
      split at hHash
      · rename_i hHere
        cases hHash
        exact Or.inl ⟨rfl, hHere.2⟩
      · right
        rcases Option.map_eq_some_iff.mp hHash with
          ⟨h', hRest, hSucc⟩
        subst hSucc
        rcases ih hRest with
          ⟨rfl, hPrev⟩ | ⟨c', hAt, hPos, hSpace⟩
        · refine ⟨c, rfl, Nat.succ_pos 0, ?_⟩
          rcases hPrev with hNone | hSpace | hTab
          · cases hNone
          · exact Or.inl (Option.some.inj hSpace)
          · exact Or.inr (Option.some.inj hTab)
        · refine ⟨c', ?_, Nat.succ_pos h', hSpace⟩
          rcases Nat.exists_eq_succ_of_ne_zero
            (Nat.pos_iff_ne_zero.mp hPos) with ⟨n, rfl⟩
          simpa using hAt

/- A text trimmed at its end stops short of whitespace alone. -/
theorem trimEnd_spec
    (l : Line) :
    ∃ ws, l = trimEnd l ++ ws ∧
      ws.all RustText.isWhitespace = true := by
  refine
    ⟨(l.reverse.takeWhile RustText.isWhitespace).reverse, ?_,
      ?_⟩
  · unfold trimEnd
    rw [← List.reverse_append, List.takeWhile_append_dropWhile,
      List.reverse_reverse]
  · rw [List.all_reverse, List.all_eq_true]
    intro c hMem
    exact List.mem_takeWhile_imp hMem

theorem getLast?_trimEnd
    {l : Line}
    {c : Char}
    (hLast : (trimEnd l).getLast? = some c) :
    RustText.isWhitespace c = false := by
  unfold trimEnd at hLast
  rw [List.getLast?_reverse] at hLast
  have hHead :=
    List.head?_dropWhile_not RustText.isWhitespace l.reverse
  rw [hLast] at hHead
  exact hHead

/- Beside a value the comment begins with whitespace. -/
theorem whitespace_of_splitComment
    (hInline : (splitComment rest).1 ≠ [])
    {c : Char}
    (hHead : (splitComment rest).2.head? = some c) :
    RustText.isWhitespace c = true := by
  unfold splitComment at hInline hHead
  dsimp only at hInline hHead
  split at hHead
  · rename_i h hHash
    rw [hHash] at hInline
    dsimp only at hInline hHead
    generalize hB : trimStart rest = body
      at hHash hInline hHead
    generalize hS : scanFrom body = start
      at hHash hInline hHead
    have hPlain :
        ∀ c', (body.take (start + h)).getLast? = some c' →
          c' = ' ' ∨ c' = '\t' →
            trimEnd (body.take (start + h)) ≠
              body.take (start + h) := by
      intro c' hLast hSpace hWhole
      rw [← hWhole] at hLast
      have hNot := getLast?_trimEnd hLast
      rcases hSpace with rfl | rfl
      · exact absurd hNot (by decide)
      · exact absurd hNot (by decide)
    rcases trimEnd_spec (body.take (start + h)) with
      ⟨ws, hTake, hWs⟩
    have hComment :
        body.drop (trimEnd (body.take (start + h))).length =
          ws ++ body.drop (start + h) := by
      have hBody :
          body =
            trimEnd (body.take (start + h)) ++
              (ws ++ body.drop (start + h)) := by
        rw [← List.append_assoc, ← hTake,
          List.take_append_drop]
      exact
        (congrArg (List.drop _) hBody).trans List.drop_left
    rw [hComment] at hHead
    cases ws with
    | cons c' ws =>
        cases hHead
        rw [List.all_cons, Bool.and_eq_true] at hWs
        exact hWs.1
    | nil =>
        rw [List.append_nil] at hTake
        exfalso
        rcases hashAt_spec hHash with
          ⟨rfl, hPrev⟩ | ⟨c', hAt, hPos, hSpace⟩
        · rw [Nat.add_zero] at hTake hInline hPlain
          rcases hPrev with hNone | hSpace | hTab
          · rw [List.getLast?_eq_none_iff] at hNone
            rw [← hTake, hNone] at hInline
            exact hInline rfl
          · exact hPlain _ hSpace (Or.inl rfl) hTake.symm
          · exact hPlain _ hTab (Or.inr rfl) hTake.symm
        · have hLast :
              (body.take (start + h)).getLast? = some c' := by
            rw [List.getElem?_drop] at hAt
            rw [List.getLast?_take, if_neg (by omega),
              show start + h - 1 = start + (h - 1) by omega,
              hAt]
            rfl
          exact hPlain _ hLast hSpace hTake.symm
  · cases hHead

end YamlEdit

------------------------------------------------------------
-- Edits Of The Text
------------------------------------------------------------

namespace YamlEdit

variable {y : Yaml} {lines : List Line} {e : Entry}
variable {path p q : List String} {seg : String} {b : Block}
variable {d next : Value}

/- Where a path that is not there is written. -/
inductive Missing
    (y : Yaml)
    (lines : List Line) : List String → Nat → Prop
| root
    {seg : String}
    {rest : List String}
    (hNone : findIn y lines (rootBlock lines) seg = none) :
    Missing y lines (seg :: rest) lines.length
| block
    {p : List String}
    {seg : String}
    {rest : List String}
    {e : Entry}
    {indent : Nat}
    (hLocate : locate y lines p = some e)
    (hStyle : style lines e = .blockMap indent)
    (hNone : findIn y lines (e.block indent) seg = none) :
    Missing y lines (p ++ seg :: rest) e.endAt
| empty
    {p : List String}
    {seg : String}
    {rest : List String}
    {e : Entry}
    (hLocate : locate y lines p = some e)
    (hStyle : style lines e = .null) :
    Missing y lines (p ++ seg :: rest) e.endAt

theorem suffix_keyLine
    (indent : Nat)
    (key tail : Line) :
    tail <:+ keyLine indent key tail :=
  (List.suffix_cons ':' tail).trans
    (List.suffix_append (spaces indent ++ key) (':' :: tail))

/- An entry is written with its comment on the key's line. -/
theorem exists_renderEntry
    (y : Yaml)
    (key : Line)
    (v : Value)
    (indent : Nat)
    (comment : Line) :
    ∃ l rest,
      renderEntry y key v indent comment = l :: rest ∧
        comment <:+ l := by
  cases hScalar : inlineScalar y v with
  | some s =>
      refine
        ⟨keyLine indent key (' ' :: s ++ comment), [], ?_,
          (List.suffix_append (' ' :: s) comment).trans
            (suffix_keyLine indent key _)⟩
      cases v <;> simp only [renderEntry, hScalar]
  | none =>
      refine
        ⟨keyLine indent key comment,
          (renderEntry y key v indent comment).tail, ?_,
          suffix_keyLine indent key comment⟩
      cases v <;> simp only [renderEntry, hScalar, List.tail_cons]

/- An entry replaced is its range replaced. -/
theorem replaceEntry_eq
    (hEnd : e.endAt ≤ lines.length)
    (d : Value) :
    ∃ l rest,
      replaceEntry y lines e d =
          splice lines e.line e.endAt (l :: rest) ∧
        e.comment <:+ l := by
  unfold replaceEntry
  split
  · rename_i s hScalar
    have hSimple : e.simple = true := by
      by_contra hNot
      rw [if_neg hNot] at hScalar
      cases hScalar
    unfold Entry.simple at hSimple
    rw [Bool.and_eq_true, decide_eq_true_eq] at hSimple
    refine
      ⟨keyLine e.indent e.keyRaw (' ' :: s ++ e.comment), [],
        ?_,
        (List.suffix_append (' ' :: s) e.comment).trans
          (suffix_keyLine _ _ _)⟩
    unfold splice
    rw [hSimple.1, List.set_eq_take_append_cons_drop,
      if_pos (by omega), List.append_assoc]
    rfl
  · rcases exists_renderEntry y e.keyRaw d e.indent e.comment
      with ⟨l, rest, hRender, hSuffix⟩
    unfold entryLines
    rw [hRender]
    exact ⟨l, rest, rfl, hSuffix⟩

/- The value of an entry that is there is replaced. -/
theorem textSetFrom_of_locate
    (hLocate : locateFrom y lines b path = some e)
    (d next : Value)
    (before : List String) :
    textSetFrom y lines d next b before path =
      replaceEntry y lines e d := by
  induction path generalizing b before with
  | nil => cases hLocate
  | cons seg rest ih =>
      rw [locateFrom] at hLocate
      rw [textSetFrom]
      cases hFind : findIn y lines b seg with
      | none =>
          rw [hFind] at hLocate
          cases hLocate
      | some e' =>
          rw [hFind] at hLocate
          dsimp only at hLocate ⊢
          split at hLocate
          · rename_i hLast
            injection hLocate with hSame
            rw [if_pos hLast, hSame]
          · rename_i hMore
            rw [if_neg hMore]
            split at hLocate
            · rename_i indent hStyle
              rw [hStyle]
              exact ih hLocate _
            · cases hLocate

/- The rest of a path is looked for below its entry. -/
theorem textSetFrom_append
    {indent : Nat}
    (hLocate : locateFrom y lines b p = some e)
    (hStyle : style lines e = .blockMap indent)
    (hRest : q ≠ [])
    (before : List String) :
    textSetFrom y lines d next b before (p ++ q) =
      textSetFrom y lines d next (e.block indent)
        (before ++ p) q := by
  induction p generalizing b before with
  | nil => cases hLocate
  | cons seg rest ih =>
      have hMore : (rest ++ q).isEmpty = false := by
        simp [hRest]
      rw [locateFrom] at hLocate
      rw [List.cons_append, textSetFrom]
      cases hFind : findIn y lines b seg with
      | none =>
          rw [hFind] at hLocate
          cases hLocate
      | some e' =>
          rw [hFind] at hLocate
          dsimp only at hLocate ⊢
          rw [hMore]
          split at hLocate
          · rename_i hLast
            injection hLocate with hSame
            subst hSame
            rw [List.isEmpty_iff] at hLast
            subst hLast
            rw [hStyle]
            rfl
          · split at hLocate
            · rename_i indent' hStyle'
              rw [hStyle']
              simp only [Bool.false_eq_true, if_false]
              rw [ih hLocate, List.append_assoc]
              rfl
            · cases hLocate

/- Below an empty value the rest is written after its entry. -/
theorem textSetFrom_null
    (hLocate : locateFrom y lines b p = some e)
    (hStyle : style lines e = .null)
    (hRest : q ≠ [])
    (before : List String) :
    textSetFrom y lines d next b before (p ++ q) =
      splice lines e.endAt e.endAt
        (renderPath y d q (e.indent + 2)) := by
  induction p generalizing b before with
  | nil => cases hLocate
  | cons seg rest ih =>
      have hMore : (rest ++ q).isEmpty = false := by
        simp [hRest]
      rw [locateFrom] at hLocate
      rw [List.cons_append, textSetFrom]
      cases hFind : findIn y lines b seg with
      | none =>
          rw [hFind] at hLocate
          cases hLocate
      | some e' =>
          rw [hFind] at hLocate
          dsimp only at hLocate ⊢
          rw [hMore]
          split at hLocate
          · rename_i hLast
            injection hLocate with hSame
            subst hSame
            rw [List.isEmpty_iff] at hLast
            subst hLast
            rw [hStyle]
            rfl
          · split at hLocate
            · rename_i indent' hStyle'
              rw [hStyle']
              simp only [Bool.false_eq_true, if_false]
              exact ih hLocate _
            · cases hLocate

/- A path that is not there is one run of lines added. -/
theorem textSet_of_missing
    {at' : Nat}
    (hMissing : Missing y lines path at')
    (d next : Value) :
    ∃ new,
      textSet y lines path d next =
        splice lines at' at' new := by
  unfold textSet
  cases hMissing with
  | root hNone =>
      rw [textSetFrom, hNone]
      exact ⟨_, rfl⟩
  | block hLocate hStyle hNone =>
      rename_i p seg rest e indent
      rw [textSetFrom_append hLocate hStyle (by simp),
        textSetFrom, hNone]
      have hNonempty : p ≠ [] := by
        rintro rfl
        cases hLocate
      have hSome : ([] ++ p : List String).isEmpty = false := by
        simp [hNonempty]
      dsimp only
      rw [hSome]
      exact ⟨_, rfl⟩
  | empty hLocate hStyle =>
      rw [textSetFrom_null hLocate hStyle (by simp)]
      exact ⟨_, rfl⟩

/-
  A removal drops the content of one entry on the path, or
  writes one anew that is no block mapping.
-/
theorem textRemoveFrom_cases
    (before : List String) :
    textRemoveFrom y lines next b before path = lines ∨
      ∃ p q e,
        path = p ++ q ∧ locateFrom y lines b p = some e ∧
          (textRemoveFrom y lines next b before path =
              removeContent lines e.line e.endAt ∨
            (∀ indent, style lines e ≠ .blockMap indent) ∧
              ∃ d,
                textRemoveFrom y lines next b before path =
                  replaceEntry y lines e d) := by
  induction path generalizing b before with
  | nil => exact Or.inl rfl
  | cons seg rest ih =>
      rw [textRemoveFrom]
      cases hFind : findIn y lines b seg with
      | none => exact Or.inl rfl
      | some e =>
          have hHere : locateFrom y lines b [seg] = some e := by
            rw [locateFrom, hFind]
            rfl
          dsimp only
          cases hSub : valueAt next (before ++ [seg]) with
          | none =>
              exact
                Or.inr
                  ⟨[seg], rest, e, rfl, hHere, Or.inl rfl⟩
          | some sub =>
              dsimp only
              split
              · rename_i indent hStyle
                rcases ih (before ++ [seg]) with
                  hSame | ⟨p, q, e', hSplit, hLocate, hEdit⟩
                · exact Or.inl hSame
                · refine
                    Or.inr
                      ⟨seg :: p, q, e', by rw [hSplit]; rfl,
                        ?_, hEdit⟩
                  have hNonempty : p.isEmpty = false := by
                    cases p with
                    | nil => cases hLocate
                    | cons _ _ => rfl
                  rw [locateFrom, hFind]
                  simp only [hNonempty, Bool.false_eq_true,
                    if_false, hStyle]
                  exact hLocate
              · rename_i hStyle
                exact
                  Or.inr
                    ⟨[seg], rest, e, rfl, hHere,
                      Or.inr ⟨hStyle, sub, rfl⟩⟩

end YamlEdit

------------------------------------------------------------
-- Edits Of A Document
------------------------------------------------------------

namespace YamlEdit

/- Whether a set of `v` is no merge into a mapping. -/
def Doc.Whole
    (y : Yaml)
    (doc : Doc)
    (path : List String)
    (v : Value) : Prop :=
  ∀ dm, v = .mapping dm → doc.merged y path dm = none

/-
  An entry's range became `new`, whose first line ends with
  the comment of the old one where that stood after a value.
-/
structure Replaced
    (lines lines' : List Line)
    (e : Entry)
    (new : List Line) : Prop where
  spliced : lines' = splice lines e.line e.endAt new
  old : e.comment <:+ lines.getD e.line []
  spaced :
    e.inline ≠ [] → ∀ c, e.comment.head? = some c →
      RustText.isWhitespace c = true
  kept : e.inline ≠ [] → ∃ l, new.head? = some l ∧ e.comment <:+ l

/-
  One entry on the path lost its content but for comments, or
  was written anew, being no block mapping.
-/
def Drops
    (y : Yaml)
    (lines lines' : List Line)
    (path : List String) : Prop :=
  lines' = lines ∨
    ∃ p q e,
      path = p ++ q ∧ locate y lines p = some e ∧
        (lines' =
            splice lines e.line e.endAt
              ((range lines e).filter isComment) ∨
          (∀ indent, style lines e ≠ .blockMap indent) ∧
            ∃ new, lines' = splice lines e.line e.endAt new)

/- One set or removal made at `path` or below it. -/
def Doc.Edit
    (y : Yaml)
    (path : List String)
    (doc doc' : Doc) : Prop :=
  ∃ p, path <+: p ∧
    ((∃ v, doc.Whole y p v ∧ doc.set y p v = .ok doc') ∨
      ∃ had, doc.unset y p = .ok (had, doc'))

variable {y : Yaml} {doc doc' : Doc} {path : List String}
variable {e : Entry} {v : Value}

/- A set that is no merge leaves all as it is, or is one edit. -/
theorem set_whole_cases
    (hWhole : doc.Whole y path v)
    (hPath : path ≠ [])
    (hSet : doc.set y path v = .ok doc') :
    doc' = doc ∨
      (doc.holds path v = false ∧
        doc' = doc.setWhole y path v) := by
  have hEmpty : path.isEmpty = false := by
    simpa using hPath
  unfold Doc.set at hSet
  cases hHolds : doc.holds path v with
  | true =>
      left
      cases v <;>
        simp only [Doc.sync, hHolds, if_true] at hSet <;>
        injection hSet with hSame <;>
        exact hSame.symm
  | false =>
      right
      refine ⟨rfl, ?_⟩
      cases v with
      | mapping dm =>
          simp only [Doc.sync, hHolds, Bool.false_eq_true,
            if_false, hWhole dm rfl] at hSet
          injection hSet with hSame
          exact hSame.symm
      | _ =>
          simp only [Doc.sync, hHolds, hEmpty,
            Bool.false_eq_true, if_false] at hSet
          injection hSet with hSame
          exact hSame.symm

theorem splice_range
    (lines : List Line)
    {a b : Nat}
    (hLe : a ≤ b) :
    splice lines a b ((lines.take b).drop a) = lines := by
  unfold splice
  have hTake : lines.take a = (lines.take b).take a := by
    rw [List.take_take, Nat.min_eq_left hLe]
  rw [hTake, List.take_append_drop, List.take_append_drop]

theorem getD_eq_head_range
    (lines : List Line)
    (hLine : e.line < e.endAt)
    (hEnd : e.endAt ≤ lines.length) :
    (range lines e).head? =
      some (lines.getD e.line []) := by
  unfold range
  rw [List.head?_drop, List.getElem?_take,
    if_pos hLine, List.getD_eq_getElem?_getD,
    List.getElem?_eq_getElem (by omega), Option.getD_some]

/- An entry that is there is changed in its range alone. -/
theorem set_replaces
    (hRoot : flowRoot doc.lines = false)
    (hLocate : locate y doc.lines path = some e)
    (hWhole : doc.Whole y path v)
    (hSet : doc.set y path v = .ok doc') :
    ∃ new, Replaced doc.lines doc'.lines e new := by
  have hPath : path ≠ [] := by
    rintro rfl
    cases hLocate
  have hBounds := bounds_of_locate hLocate
  rcases exists_of_locateFrom hLocate with ⟨b, seg, hFind⟩
  rcases exists_of_findIn hFind with ⟨i, -, -, -, hIs⟩
  have hOld : e.comment <:+ doc.lines.getD e.line [] := by
    have hSuffix := comment_suffix hIs
    rwa [show e.line = i by rw [hIs]; rfl]
  have hSpaced :
      e.inline ≠ [] → ∀ c, e.comment.head? = some c →
        RustText.isWhitespace c = true := by
    rw [hIs]
    intro hInline c hHead
    exact whitespace_of_splitComment hInline hHead
  rcases set_whole_cases hWhole hPath hSet with
    rfl | ⟨-, rfl⟩
  · refine
      ⟨range doc'.lines e,
        (splice_range doc'.lines
          (Nat.le_of_lt hBounds.1)).symm, hOld, hSpaced, ?_⟩
    intro _
    exact
      ⟨_, getD_eq_head_range doc'.lines hBounds.1 hBounds.2,
        hOld⟩
  · rcases replaceEntry_eq (y := y) hBounds.2 v with
      ⟨l, rest, hReplace, hSuffix⟩
    refine ⟨l :: rest, ?_, hOld, hSpaced, ?_⟩
    · unfold Doc.setWhole
      dsimp only
      rw [hRoot, if_neg (by simp), textSet,
        textSetFrom_of_locate hLocate, hReplace]
    · intro _
      exact ⟨l, rfl, hSuffix⟩

/- A path that is not there is one run of lines added. -/
theorem set_adds
    {at' : Nat}
    (hRoot : flowRoot doc.lines = false)
    (hMissing : Missing y doc.lines path at')
    (hWhole : doc.Whole y path v)
    (hSet : doc.set y path v = .ok doc') :
    ∃ new, doc'.lines = splice doc.lines at' at' new := by
  have hPath : path ≠ [] := by
    cases hMissing <;> simp
  rcases set_whole_cases hWhole hPath hSet with
    rfl | ⟨-, rfl⟩
  · refine ⟨[], ?_⟩
    unfold splice
    rw [List.append_nil, List.take_append_drop]
  · rcases textSet_of_missing hMissing v
        (vSet doc.value path v) with
      ⟨new, hSplice⟩
    refine ⟨new, ?_⟩
    unfold Doc.setWhole
    dsimp only
    rw [hRoot, if_neg (by simp), hSplice]

/- A removal drops lines of one entry on its path. -/
theorem unset_drops
    {had : Bool}
    (hRoot : flowRoot doc.lines = false)
    (hUnset : doc.unset y path = .ok (had, doc')) :
    Drops y doc.lines doc'.lines path := by
  have hSync : doc.syncNone y path = .ok doc' := by
    unfold Doc.unset at hUnset
    split at hUnset
    · rename_i doc₁ hStep
      injection hUnset with hPair
      rw [hStep, (Prod.mk.inj hPair).2]
    · cases hUnset
  unfold Doc.syncNone at hSync
  split at hSync
  · injection hSync with hSame
    exact Or.inl (hSame ▸ rfl)
  · split at hSync
    · cases hSync
    · injection hSync with hSame
      subst hSame
      dsimp only
      rw [hRoot, if_neg (by simp)]
      unfold textRemove
      rcases
          @textRemoveFrom_cases y doc.lines path
            (rootBlock doc.lines) (vRemove doc.value path) []
        with
        hSame | ⟨p, q, e, hSplit, hLocate, hEdit⟩
      · exact Or.inl hSame
      · refine Or.inr ⟨p, q, e, hSplit, hLocate, ?_⟩
        rcases hEdit with hContent | ⟨hStyle, d, hWhole⟩
        · left
          rw [hContent]
          rfl
        · right
          refine ⟨hStyle, ?_⟩
          rcases replaceEntry_eq (y := y)
              (bounds_of_locate hLocate).2 d with
            ⟨l, rest, hReplace, -⟩
          exact ⟨l :: rest, hWhole.trans hReplace⟩

/- The removals of a merge are edits below its path. -/
theorem syncAbsent_edits
    {dm : Mapping}
    {ks : List Key}
    (hSync : doc.syncAbsent y path dm ks = .ok doc') :
    Relation.ReflTransGen (Doc.Edit y path) doc doc' := by
  induction ks generalizing doc with
  | nil =>
      injection hSync with hSame
      rw [hSame]
  | cons k ks ih =>
      rw [Doc.syncAbsent] at hSync
      split at hSync
      · exact ih hSync
      · split at hSync
        · rename_i doc₁ hStep
          refine Relation.ReflTransGen.head ?_ (ih hSync)
          refine
            ⟨path ++ [k.text], List.prefix_append _ _,
              Or.inr
                ⟨(doc.get (path ++ [k.text])).isSome, ?_⟩⟩
          unfold Doc.unset
          rw [hStep]
        · cases hSync

/- Edits below a longer path are edits below a shorter one. -/
theorem edits_below
    {p : List String}
    (hPrefix : path <+: p)
    (hEdits : Relation.ReflTransGen (Doc.Edit y p) doc doc') :
    Relation.ReflTransGen (Doc.Edit y path) doc doc' := by
  refine Relation.ReflTransGen.mono ?_ _ _ hEdits
  rintro a b ⟨p', hBelow, hEdit⟩
  exact ⟨p', hPrefix.trans hBelow, hEdit⟩

theorem edit_of_sync
    (hNot : ∀ m, v ≠ .mapping m)
    (hSync : doc.sync y v path = .ok doc') :
    Doc.Edit y path doc doc' :=
  ⟨path, List.prefix_refl _,
    Or.inl ⟨v, fun m hSame => absurd hSame (hNot m), hSync⟩⟩

mutual

/- A set is a run of edits at its path and below it. -/
theorem sync_edits
    {y : Yaml}
    {doc doc' : Doc}
    {path : List String}
    (v : Value)
    (hSync : doc.sync y v path = .ok doc') :
    Relation.ReflTransGen (Doc.Edit y path) doc doc' := by
  cases v with
  | mapping dm =>
      cases hMerged : doc.merged y path dm with
      | none =>
          refine Relation.ReflTransGen.single ?_
          refine
            ⟨path, List.prefix_refl _,
              Or.inl ⟨.mapping dm, ?_, hSync⟩⟩
          intro dm' hSame
          cases hSame
          exact hMerged
      | some cm =>
          rw [Doc.sync, hMerged] at hSync
          split at hSync
          · injection hSync with hSame
            rw [hSame]
          · dsimp only at hSync
            split at hSync
            · rename_i doc₁ hEntries
              exact
                (syncEntries_edits dm hEntries).trans
                  (syncAbsent_edits hSync)
            · cases hSync
  | null => exact .single (edit_of_sync (by simp) hSync)
  | bool b => exact .single (edit_of_sync (by simp) hSync)
  | number n => exact .single (edit_of_sync (by simp) hSync)
  | string s => exact .single (edit_of_sync (by simp) hSync)
  | sequence items =>
      exact .single (edit_of_sync (by simp) hSync)
  | tagged tag v =>
      exact .single (edit_of_sync (by simp) hSync)

theorem syncEntries_edits
    {y : Yaml}
    {doc doc' : Doc}
    {path : List String}
    (entries : List (Key × Value))
    (hSync : doc.syncEntries y entries path = .ok doc') :
    Relation.ReflTransGen (Doc.Edit y path) doc doc' := by
  cases entries with
  | nil =>
      rw [Doc.syncEntries] at hSync
      injection hSync with hSame
      rw [hSame]
  | cons e rest =>
      rcases e with ⟨k, v⟩
      rw [Doc.syncEntries] at hSync
      split at hSync
      · rename_i doc₁ hStep
        exact
          (edits_below (List.prefix_append path [k.text])
            (sync_edits v hStep)).trans
            (syncEntries_edits rest hSync)
      · cases hSync

end

/-
  A set of a path that is there is within the entry's range, a
  set of one that is not adds a run of lines, and a removal
  drops content of one entry; a merge is a run of these.
-/
theorem edits_keep
    (y : Yaml)
    (doc : Doc)
    (path : List String) :
    (flowRoot doc.lines = false →
      (∀ v doc' e,
        locate y doc.lines path = some e →
          doc.Whole y path v → doc.set y path v = .ok doc' →
            ∃ new, Replaced doc.lines doc'.lines e new) ∧
        (∀ v doc' at',
          Missing y doc.lines path at' →
            doc.Whole y path v →
              doc.set y path v = .ok doc' →
                ∃ new,
                  doc'.lines =
                    splice doc.lines at' at' new) ∧
        ∀ had doc',
          doc.unset y path = .ok (had, doc') →
            Drops y doc.lines doc'.lines path) ∧
      ∀ v doc',
        doc.set y path v = .ok doc' →
          Relation.ReflTransGen (Doc.Edit y path) doc doc' :=
  ⟨fun hRoot =>
      ⟨fun _ _ _ hLocate hWhole hSet =>
          set_replaces hRoot hLocate hWhole hSet,
        fun _ _ _ hMissing hWhole hSet =>
          set_adds hRoot hMissing hWhole hSet,
        fun _ _ hUnset => unset_drops hRoot hUnset⟩,
    fun v _ hSet => sync_edits v hSet⟩

/- Ways switched off, in block style with comments. -/
def commentedWays : Doc where
  lines :=
    ["# overlay".toList, "language: en   # tuned".toList,
      "ways:".toList, "  # keep".toList, "  a/b: false".toList]
  crlf := false
  value :=
    .mapping
      [(.string "language", .string "en"),
        (.string "ways",
          .mapping [(.string "a/b", .bool false)])]

theorem commentedWays_edits_keep :
    (∃ doc' e new,
      commentedWays.set bareYaml ["language"] (.string "es") =
          .ok doc' ∧
        Replaced commentedWays.lines doc'.lines e new) ∧
      (∃ doc' new,
        commentedWays.set bareYaml ["ways", "c"]
            (.bool false) = .ok doc' ∧
          doc'.lines =
            splice commentedWays.lines 5 5 new) ∧
        ∃ had doc',
          commentedWays.unset bareYaml ["ways", "a/b"] =
              .ok (had, doc') ∧
            Drops bareYaml commentedWays.lines doc'.lines
              ["ways", "a/b"] := by
  have hKeep := fun path =>
    (edits_keep bareYaml commentedWays path).1 (by decide)
  refine ⟨?_, ?_, ?_⟩
  · have hSome :
        (locate bareYaml commentedWays.lines
          ["language"]).isSome = true := by
      decide
    rcases Option.isSome_iff_exists.mp hSome with
      ⟨e, hLocate⟩
    cases hSet :
      commentedWays.set bareYaml ["language"]
        (.string "es") with
    | error err =>
        have hOk :
            (commentedWays.set bareYaml ["language"]
              (.string "es")).isOk = true := by
          decide
        rw [hSet] at hOk
        cases hOk
    | ok doc' =>
        rcases (hKeep ["language"]).1 _ _ _ hLocate
            (fun _ hSame => by cases hSame) hSet with
          ⟨new, hReplaced⟩
        exact ⟨doc', e, new, rfl, hReplaced⟩
  · cases hSet :
      commentedWays.set bareYaml ["ways", "c"]
        (.bool false) with
    | error err =>
        have hOk :
            (commentedWays.set bareYaml ["ways", "c"]
              (.bool false)).isOk = true := by
          decide
        rw [hSet] at hOk
        cases hOk
    | ok doc' =>
        have hMissing :
            Missing bareYaml commentedWays.lines
              ["ways", "c"] 5 := by
          have hFound :
              locate bareYaml commentedWays.lines ["ways"] =
                some
                  { line := 2
                    endAt := 5
                    indent := 0
                    keyRaw := "ways".toList
                    inline := []
                    comment := [] } := by
            decide
          exact
            @Missing.block bareYaml commentedWays.lines
              ["ways"] "c" [] _ 2 hFound (by decide)
              (by decide)
        rcases (hKeep ["ways", "c"]).2.1 _ _ _ hMissing
            (fun _ hSame => by cases hSame) hSet with
          ⟨new, hSplice⟩
        exact ⟨doc', new, rfl, hSplice⟩
  · cases hUnset :
      commentedWays.unset bareYaml ["ways", "a/b"] with
    | error err =>
        have hOk :
            (commentedWays.unset bareYaml
              ["ways", "a/b"]).isOk = true := by
          decide
        rw [hUnset] at hOk
        cases hOk
    | ok out =>
        exact
          ⟨out.1, out.2, rfl,
            (hKeep ["ways", "a/b"]).2.2 out.1 out.2 hUnset⟩

/- Ways switched off in one flow mapping. -/
def flowWays : Doc where
  lines := ["ways: \x7ba: false, b: false\x7d".toList]
  crlf := false
  value :=
    .mapping
      [(.string "ways",
        .mapping
          [(.string "a", .bool false),
            (.string "b", .bool false)])]

theorem sublist_of_splice
    {lines kept : List Line}
    {a b : Nat}
    (hLe : a ≤ b)
    (hKept : kept.Sublist ((lines.take b).drop a)) :
    (splice lines a b kept).Sublist lines := by
  have hWhole := splice_range lines hLe
  unfold splice at hWhole ⊢
  have hSub :
      (lines.take a ++ kept ++ lines.drop b).Sublist
        (lines.take a ++ (lines.take b).drop a ++
          lines.drop b) :=
    ((List.Sublist.refl _).append hKept).append
      (List.Sublist.refl _)
  rwa [hWhole] at hSub

/- A removal inside a flow mapping writes the mapping anew. -/
theorem not_unset_removes :
    ¬ ∀ (y : Yaml) (doc doc' : Doc) (path : List String)
        (had : Bool),
      flowRoot doc.lines = false → path ≠ [] →
        doc.unset y path = .ok (had, doc') →
          ∃ e kept,
            e.line ≤ e.endAt ∧
              kept.Sublist (range doc.lines e) ∧
              doc'.lines =
                splice doc.lines e.line e.endAt kept := by
  intro hAll
  have hAnew :
      (match flowWays.unset bareYaml ["ways", "a"] with
      | .ok (_, doc') =>
          decide (doc'.lines.Sublist flowWays.lines)
      | .error _ => true) = false := by
    decide
  cases hUnset : flowWays.unset bareYaml ["ways", "a"] with
  | error err =>
      rw [hUnset] at hAnew
      cases hAnew
  | ok out =>
      rw [hUnset] at hAnew
      dsimp only at hAnew
      rcases hAll bareYaml flowWays out.2 ["ways", "a"] out.1
          (by decide) (by simp) hUnset with
        ⟨e, kept, hLe, hKept, hSplice⟩
      have hSub := sublist_of_splice hLe hKept
      rw [← hSplice] at hSub
      rw [decide_eq_true hSub] at hAnew
      cases hAnew

end YamlEdit
