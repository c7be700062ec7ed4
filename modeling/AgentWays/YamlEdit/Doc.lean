import AgentWays.YamlEdit.Lines

/-
  An editable settings document: its lines, and the parsed
  value they must equal.

  An edit changes the lines of the entry it names and mirrors
  the change on the value. A mapping set over a mapping is
  set key by key, and the keys it lacks are removed.

  Key definitions include:
    * `YamlEdit.Doc`
    * `YamlEdit.Doc.parse`
    * `YamlEdit.textSet`
    * `YamlEdit.textRemove`
    * `YamlEdit.Doc.sync`
    * `YamlEdit.Doc.set`
    * `YamlEdit.Doc.unset`
    * `YamlEdit.Doc.Parsed`
-/

------------------------------------------------------------
-- Text Operations
------------------------------------------------------------

namespace YamlEdit

inductive EditError where
| parse (line : Option Nat) (message : String)
| notMapping
deriving DecidableEq

/- Lines `[a, b)` replaced. -/
def splice
    (lines : List Line)
    (a b : Nat)
    (new : List Line) : List Line :=
  lines.take a ++ new ++ lines.drop b

/- Drop what is in `[a, b)`, keeping comment lines. -/
def removeContent
    (lines : List Line)
    (a b : Nat) : List Line :=
  splice lines a b
    (((lines.take b).drop a).filter isComment)

/- Whether an entry is one line, and no block scalar's. -/
def Entry.simple
    (e : Entry) : Bool :=
  decide (e.endAt = e.line + 1) &&
    !(e.inline.head?.any (fun c => c = '|' || c = '>'))

/- The lines an entry is written as with the value `d`. -/
def entryLines
    (y : Yaml)
    (e : Entry)
    (d : Value) : List Line :=
  renderEntry y e.keyRaw d e.indent e.comment

def replaceEntry
    (y : Yaml)
    (lines : List Line)
    (e : Entry)
    (d : Value) : List Line :=
  match (if e.simple then inlineScalar y d else none) with
  | some s =>
      lines.set e.line
        (keyLine e.indent e.keyRaw (' ' :: s ++ e.comment))
  | none => splice lines e.line e.endAt (entryLines y e d)

/- `text_set` from the segment after `done` on. -/
def textSetFrom
    (y : Yaml)
    (lines : List Line)
    (d next : Value) :
    Block → List String → List String → List Line
| _, _, [] => lines
| block, done, seg :: rest =>
    match findIn y lines block seg with
    | some e =>
        if rest.isEmpty then replaceEntry y lines e d
        else
          match style lines e with
          | .blockMap indent =>
              textSetFrom y lines d next (e.block indent)
                (done ++ [seg]) rest
          | .null =>
              splice lines e.endAt e.endAt
                (renderPath y d rest (e.indent + 2))
          | .inline | .blockSeq =>
              replaceEntry y lines e
                ((valueAt next (done ++ [seg])).getD .null)
    | none =>
        let at' :=
          if done.isEmpty then lines.length else block.endAt
        splice lines at' at'
          (renderPath y d (seg :: rest) block.indent)

def textSet
    (y : Yaml)
    (lines : List Line)
    (path : List String)
    (d next : Value) : List Line :=
  textSetFrom y lines d next (rootBlock lines) [] path

/- `text_remove` from the segment after `done` on. -/
def textRemoveFrom
    (y : Yaml)
    (lines : List Line)
    (next : Value) :
    Block → List String → List String → List Line
| _, _, [] => lines
| block, done, seg :: rest =>
    match findIn y lines block seg with
    | none => lines
    | some e =>
        match valueAt next (done ++ [seg]) with
        | none => removeContent lines e.line e.endAt
        | some sub =>
            match style lines e with
            | .blockMap indent =>
                textRemoveFrom y lines next (e.block indent)
                  (done ++ [seg]) rest
            | _ => replaceEntry y lines e sub

def textRemove
    (y : Yaml)
    (lines : List Line)
    (path : List String)
    (next : Value) : List Line :=
  textRemoveFrom y lines next (rootBlock lines) [] path

/- The root written anew from its value. -/
def rerenderRoot
    (y : Yaml)
    (value : Value) : List Line :=
  match value with
  | .mapping m => renderEntries y m 0
  | _ => []

/- A segment with no block below it is looked past. -/
def isBlockMapFrom
    (y : Yaml)
    (lines : List Line) :
    Block → Option Style → List String → Bool
| _, some (.blockMap _), [] => true
| _, _, [] => false
| block, _, seg :: rest =>
    match findIn y lines block seg with
    | none => false
    | some e =>
        match style lines e with
        | .blockMap indent =>
            isBlockMapFrom y lines (e.block indent)
              (some (.blockMap indent)) rest
        | s => isBlockMapFrom y lines block (some s) rest

def isBlockMap
    (y : Yaml)
    (lines : List Line)
    (path : List String) : Bool :=
  isBlockMapFrom y lines (rootBlock lines) none path

end YamlEdit

------------------------------------------------------------
-- Documents
------------------------------------------------------------

namespace YamlEdit

structure Doc where
  lines : List Line
  crlf : Bool
  value : Value

/- `parse`: no document at all is an empty mapping. -/
def parse
    (y : Yaml)
    (text : String) : Except EditError Value :=
  if (RustText.trim text).toList.isEmpty then
    .ok (.mapping [])
  else
    match y.value text with
    | .ok .null => .ok (.mapping [])
    | .ok (.mapping m) => .ok (.mapping m)
    | .ok _ => .error .notMapping
    | .error e => .error (.parse e.line e.message)

def Doc.parse
    (y : Yaml)
    (text : String) : Except EditError Doc :=
  let crlf := RustText.contains text "\r\n"
  let t :=
    if crlf then RustText.replace text "\r\n" "\n" else text
  match YamlEdit.parse y t with
  | .ok value =>
      .ok
        { lines := (RustText.lines t).map String.toList
          crlf := crlf
          value := value }
  | .error e => .error e

def Doc.get
    (doc : Doc)
    (path : List String) : Option Value :=
  valueAt doc.value path

/- The value set whole, on the text and on its copy. -/
def Doc.setWhole
    (y : Yaml)
    (doc : Doc)
    (path : List String)
    (d : Value) : Doc :=
  let next := vSet doc.value path d
  { doc with
    lines :=
      if flowRoot doc.lines then rerenderRoot y next
      else textSet y doc.lines path d next
    value := next }

/- `sync` with no value wanted. -/
def Doc.syncNone
    (y : Yaml)
    (doc : Doc)
    (path : List String) : Except EditError Doc :=
  if (doc.get path).isNone then .ok doc
  else if path.isEmpty then .error .notMapping
  else
    let next := vRemove doc.value path
    .ok
      { doc with
        lines :=
          if flowRoot doc.lines then rerenderRoot y next
          else textRemove y doc.lines path next
        value := next }

/- Whether `path` holds `d` already. -/
def Doc.holds
    (doc : Doc)
    (path : List String)
    (d : Value) : Bool :=
  match doc.get path with
  | some cur => cur.eq d
  | none => false

/- The mapping that a mapping set at `path` is merged into. -/
def Doc.merged
    (y : Yaml)
    (doc : Doc)
    (path : List String)
    (dm : Mapping) : Option Mapping :=
  match doc.get path with
  | some (.mapping cm) =>
      if path.isEmpty ||
          (!flowRoot doc.lines && !dm.isEmpty &&
            isBlockMap y doc.lines path)
      then some cm
      else none
  | _ => if path.isEmpty then some [] else none

/- Remove the keys of `cm` whose text `dm` has not as a key. -/
def Doc.syncAbsent
    (y : Yaml)
    (path : List String)
    (dm : Mapping) :
    Doc → List Key → Except EditError Doc
| doc, [] => .ok doc
| doc, k :: rest =>
    if Key.string k.text ∈ IndexMap.keys dm then
      syncAbsent y path dm doc rest
    else
      match doc.syncNone y (path ++ [k.text]) with
      | .ok doc' => syncAbsent y path dm doc' rest
      | .error e => .error e

mutual

/- `sync` with the value `d` wanted. -/
def Doc.sync
    (y : Yaml) :
    Value → Doc → List String → Except EditError Doc
| .mapping dm, doc, path =>
    if doc.holds path (.mapping dm) then .ok doc
    else
      match doc.merged y path dm with
      | some cm =>
          match Doc.syncEntries y dm doc path with
          | .ok doc' =>
              doc'.syncAbsent y path dm (IndexMap.keys cm)
          | .error e => .error e
      | none => .ok (doc.setWhole y path (.mapping dm))
| d, doc, path =>
    if doc.holds path d then .ok doc
    else if path.isEmpty then .error .notMapping
    else .ok (doc.setWhole y path d)

def Doc.syncEntries
    (y : Yaml) :
    List (Key × Value) → Doc → List String →
      Except EditError Doc
| [], doc, _ => .ok doc
| (k, v) :: rest, doc, path =>
    match Doc.sync y v doc (path ++ [k.text]) with
    | .ok doc' => Doc.syncEntries y rest doc' path
    | .error e => .error e

end

/- Set `path` to `v`. -/
def Doc.set
    (y : Yaml)
    (doc : Doc)
    (path : List String)
    (v : Value) : Except EditError Doc :=
  doc.sync y v path

/- Remove `path`, and say whether it was there. -/
def Doc.unset
    (y : Yaml)
    (doc : Doc)
    (path : List String) : Except EditError (Bool × Doc) :=
  match doc.syncNone y path with
  | .ok doc' => .ok ((doc.get path).isSome, doc')
  | .error e => .error e

/- What `Doc.parse` gives: a root mapping with distinct keys. -/
structure Doc.Parsed (doc : Doc) : Prop where
  root : ∃ m, doc.value = .mapping m
  distinct : doc.value.Distinct

theorem root_of_parse
    {y : Yaml}
    (hYaml : ∀ t v, y.value t = .ok v → v.Distinct)
    {text : String}
    {v : Value}
    (hParse : YamlEdit.parse y text = .ok v) :
    (∃ m, v = .mapping m) ∧ v.Distinct := by
  have hEmpty :
      (∃ m, Value.mapping [] = .mapping m) ∧
        (Value.mapping []).Distinct :=
    ⟨⟨[], rfl⟩, .mapping List.nodup_nil (by simp)⟩
  unfold YamlEdit.parse at hParse
  split at hParse
  · injection hParse with hValue
    exact hValue ▸ hEmpty
  · split at hParse
    · injection hParse with hValue
      exact hValue ▸ hEmpty
    · rename_i m hMapping
      injection hParse with hValue
      subst hValue
      exact ⟨⟨m, rfl⟩, hYaml _ _ hMapping⟩
    · cases hParse
    · cases hParse

/- Every document read is parsed. -/
theorem parsed_of_parse
    {y : Yaml}
    (hYaml : ∀ t v, y.value t = .ok v → v.Distinct)
    {text : String}
    {doc : Doc}
    (hParse : Doc.parse y text = .ok doc) :
    doc.Parsed := by
  unfold Doc.parse at hParse
  dsimp only at hParse
  split at hParse
  · rename_i v hValue
    have hRoot := root_of_parse hYaml hValue
    injection hParse with hDoc
    subst hDoc
    exact ⟨hRoot.1, hRoot.2⟩
  · cases hParse

end YamlEdit
