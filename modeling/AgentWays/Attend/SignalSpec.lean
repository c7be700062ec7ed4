import AgentWays.Attend.Signal
import AgentWays.Lib.TextSpec

/-
  The signal wire format round-trips.

  The reader takes the header apart at its separators, then
  tag after tag, and stops at the first segment that is not
  a tag it still looks for. The writer's tags are taken in
  its own order, and what follows them is the thread field
  or a message that does not start with a tag.

  Main declarations:
    * `Attend.parseTags_formatTag`
    * `Attend.parseTags_formatThread`
    * `Attend.parseSignal_formatTagged`
-/

------------------------------------------------------------
-- The Header
------------------------------------------------------------

namespace Attend

open RustText

theorem mem_headerField
    {s : String}
    {noSpace : Bool}
    {c : Char}
    (hMem : c ∈ (headerField s noSpace).toList) :
    c ≠ '|' ∧ isControl c = false ∧
      (noSpace = true → isWhitespace c = false) := by
  simp only [headerField, String.toList_ofList,
    List.mem_map] at hMem
  rcases hMem with ⟨x, -, hChar⟩
  split at hChar
  · subst hChar
    exact ⟨by decide, by decide, fun _ => by decide⟩
  · rename_i hKept
    subst hChar
    simp only [Bool.or_eq_true, Bool.and_eq_true,
      decide_eq_true_eq, not_or, not_and,
      Bool.not_eq_true] at hKept
    exact ⟨hKept.1.1, hKept.1.2, hKept.2⟩

theorem sep_not_mem_headerField
    (s : String)
    (noSpace : Bool) :
    '|' ∉ (headerField s noSpace).toList := by
  intro hMem
  exact (mem_headerField hMem).1 rfl

theorem headerField_not_control
    (s : String)
    (noSpace : Bool) :
    (headerField s noSpace).toList.any isControl =
      false := by
  rw [List.any_eq_false]
  intro c hMem
  rw [(mem_headerField hMem).2.1]
  simp

/- A sender the writer made needs no mending. -/
theorem mendFrom_headerField
    (s : String) :
    mendFrom (headerField s true) = headerField s true := by
  unfold mendFrom
  rw [← String.toList_inj, String.toList_ofList]
  conv_rhs => rw [← List.map_id (headerField s true).toList]
  apply List.map_congr_left
  intro c hMem
  rw [(mem_headerField hMem).2.2 rfl]
  rfl

/- A signal whose tags are still to be read. -/
def untagged
    (fromField project cwd message : String) :
    ParsedSignal :=
  { fromField := fromField
    project := project
    cwd := cwd
    replyTo := none
    fromKind := none
    fromId := none
    onBehalfOf := none
    toField := none
    message := message }

theorem untagged_slot
    (fromField project cwd message : String)
    (tag : Tag) :
    (untagged fromField project cwd message).slot tag =
      none := by
  cases tag <;> rfl

theorem parseSignal_header
    (sender project cwd message : String) :
    parseSignal
        (headerField sender true ++ "|" ++
          (headerField project false ++ "|" ++
            (headerField cwd false ++ "|" ++ message))) =
      some
        (parseTags 5
          (untagged (headerField sender true)
            (headerField project false)
            (headerField cwd false) message)) := by
  unfold parseSignal
  rw [splitOnce_append rfl (sep_not_mem_headerField _ _)]
  dsimp only [Option.bind_eq_bind, Option.bind_some]
  rw [splitOnce_append rfl (sep_not_mem_headerField _ _)]
  dsimp only [Option.bind_some]
  rw [splitOnce_append rfl (sep_not_mem_headerField _ _)]
  simp only [Option.bind_some, List.any_cons, List.any_nil,
    headerField_not_control, Bool.or_false,
    Bool.false_eq_true, if_false, mendFrom_headerField,
    untagged]

end Attend

------------------------------------------------------------
-- The Tags
------------------------------------------------------------

namespace Attend

open RustText

/- A tag's value holds no separator. -/
theorem sep_not_mem_of_isTagValue
    {v : String}
    (hValue : isTagValue v = true) :
    '|' ∉ v.toList := by
  intro hMem
  simp only [isTagValue, Bool.and_eq_true,
    List.all_eq_true] at hValue
  have hClass := hValue.2 '|' hMem
  revert hClass
  decide

theorem sep_not_mem_of_isValidSignalId
    {id : String}
    (hId : isValidSignalId id = true) :
    '|' ∉ id.toList := by
  intro hMem
  simp only [isValidSignalId, Bool.and_eq_true,
    List.all_eq_true] at hId
  have hClass := hId.2 '|' hMem
  revert hClass
  decide

theorem ne_empty_of_isValidSignalId
    {id : String}
    (hId : isValidSignalId id = true) :
    id ≠ "" := by
  rintro rfl
  revert hId
  decide

/- The key of each tag. -/
def Tag.key : Tag → String
| .fromKind => "from_kind"
| .fromId => "from_id"
| .onBehalfOf => "on_behalf_of"
| .toField => "to"

@[simp] theorem ofKey_key
    (tag : Tag) :
    Tag.ofKey tag.key = some tag := by
  cases tag <;> rfl

theorem key_ne_re
    (tag : Tag) :
    tag.key ≠ "re" := by
  cases tag <;> decide

theorem sep_not_mem_key
    (tag : Tag) :
    '|' ∉ tag.key.toList ∧ ':' ∉ tag.key.toList := by
  cases tag <;> decide

/- A segment is read off up to its separator. -/
theorem splitOnce_segment
    {key value : String}
    (rest : String)
    (hKey : '|' ∉ key.toList)
    (hValue : '|' ∉ value.toList) :
    splitOnce (key ++ ":" ++ value ++ "|" ++ rest) '|' =
      some (key ++ ":" ++ value, rest) := by
  apply splitOnce_append rfl
  simp only [String.toList_append, List.mem_append, not_or]
  exact ⟨⟨hKey, by decide⟩, hValue⟩

/- The reader takes a tag it does not have yet. -/
theorem parseTags_tag
    {sig : ParsedSignal}
    {tag : Tag}
    {value rest : String}
    (rounds : Nat)
    (hMessage :
      sig.message = tag.key ++ ":" ++ value ++ "|" ++ rest)
    (hSlot : sig.slot tag = none)
    (hValue : isTagValue value = true) :
    parseTags (rounds + 1) sig =
      parseTags rounds
        { sig.fill tag value with message := rest } := by
  have hNoRe :
      ¬ (tag.key = "re" ∧
        (value = "" ∨ isValidSignalId value = true)) := by
    rintro ⟨hRe, -⟩
    exact key_ne_re tag hRe
  rw [parseTags, hMessage,
    splitOnce_segment rest (sep_not_mem_key tag).1
      (sep_not_mem_of_isTagValue hValue)]
  dsimp only
  rw [splitOnce_append rfl (sep_not_mem_key tag).2]
  simp only [if_neg hNoRe, ofKey_key, hSlot, hValue,
    Option.isSome_none, Bool.not_true, Bool.or_self,
    Bool.false_eq_true, if_false]

/- The signal with one slot as given. -/
def ParsedSignal.setTag
    (sig : ParsedSignal)
    (tag : Tag)
    (value : Option String) : ParsedSignal :=
  match tag with
  | .fromKind => { sig with fromKind := value }
  | .fromId => { sig with fromId := value }
  | .onBehalfOf => { sig with onBehalfOf := value }
  | .toField => { sig with toField := value }

theorem setTag_none
    {sig : ParsedSignal}
    {tag : Tag}
    (hSlot : sig.slot tag = none) :
    sig.setTag tag none = sig := by
  cases sig
  cases tag <;> simp_all [ParsedSignal.setTag,
    ParsedSignal.slot]

theorem setTag_some
    (sig : ParsedSignal)
    (tag : Tag)
    (value : String) :
    sig.setTag tag (some value) = sig.fill tag value := by
  cases tag <;> rfl

/-
  The reader takes one formatted tag, or finds none. With
  one more round than there are tags left it never runs out.
-/
theorem parseTags_formatTag
    (sig : ParsedSignal)
    {left rounds : Nat}
    (tag : Tag)
    (value : Option String)
    (rest : String)
    (hRounds : left < rounds)
    (hMessage :
      sig.message = formatTag tag.key value ++ rest)
    (hSlot : sig.slot tag = none) :
    ∃ more, left ≤ more ∧
      parseTags rounds sig =
        parseTags more
          { sig.setTag tag (value.filter isTagValue) with
            message := rest } := by
  unfold formatTag at hMessage
  cases hFilter : value.filter isTagValue with
  | none =>
      simp only [hFilter, String.empty_append] at hMessage
      refine ⟨rounds, Nat.le_of_lt hRounds, ?_⟩
      rw [setTag_none hSlot, ← hMessage]
  | some v =>
      simp only [hFilter] at hMessage
      have hValue : isTagValue v = true := by
        rw [Option.filter_eq_some_iff] at hFilter
        exact hFilter.2
      rcases rounds with - | rounds
      · exact absurd hRounds (Nat.not_lt_zero _)
      · refine ⟨rounds, Nat.le_of_lt_succ hRounds, ?_⟩
        rw [setTag_some,
          parseTags_tag rounds hMessage hSlot hValue]

/- The reader takes the tags of an envelope. -/
theorem parseTags_formatTags
    {sig : ParsedSignal}
    {rest : String}
    (env : Envelope)
    (hMessage :
      sig.message =
        formatTag "from_kind" env.fromKind ++
          (formatTag "from_id" env.fromId ++
            (formatTag "on_behalf_of" env.onBehalfOf ++
              (formatTag "to" env.toField ++ rest))))
    (hSlots : ∀ tag, sig.slot tag = none) :
    ∃ more, 1 ≤ more ∧
      parseTags 5 sig =
        parseTags more
          { sig with
            fromKind := env.fromKind.filter isTagValue
            fromId := env.fromId.filter isTagValue
            onBehalfOf := env.onBehalfOf.filter isTagValue
            toField := env.toField.filter isTagValue
            message := rest } := by
  rcases parseTags_formatTag sig .fromKind env.fromKind _
    (show 4 < 5 by decide) hMessage (hSlots .fromKind)
    with ⟨rounds, hKind, hFirst⟩
  rcases parseTags_formatTag
    { sig with
      fromKind := env.fromKind.filter isTagValue
      message := _ }
    .fromId env.fromId _ (Nat.lt_of_succ_le hKind) rfl
    (hSlots .fromId)
    with ⟨rounds, hId, hSecond⟩
  rcases parseTags_formatTag
    { sig with
      fromKind := env.fromKind.filter isTagValue
      fromId := env.fromId.filter isTagValue
      message := _ }
    .onBehalfOf env.onBehalfOf _ hId rfl
    (hSlots .onBehalfOf)
    with ⟨rounds, hBehalf, hThird⟩
  rcases parseTags_formatTag
    { sig with
      fromKind := env.fromKind.filter isTagValue
      fromId := env.fromId.filter isTagValue
      onBehalfOf := env.onBehalfOf.filter isTagValue
      message := _ }
    .toField env.toField _ hBehalf rfl (hSlots .toField)
    with ⟨rounds, hTo, hFourth⟩
  refine ⟨rounds, hTo, ?_⟩
  rw [hFirst]
  refine hSecond.trans ?_
  refine hThird.trans ?_
  exact hFourth

end Attend

------------------------------------------------------------
-- The Thread And The Message
------------------------------------------------------------

namespace Attend

open RustText

/- The reader takes the thread field and stops. -/
theorem parseTags_re
    {sig : ParsedSignal}
    {value rest : String}
    {left rounds : Nat}
    (hRounds : left < rounds)
    (hMessage :
      sig.message = "re" ++ ":" ++ value ++ "|" ++ rest)
    (hValue : value = "" ∨ isValidSignalId value = true) :
    parseTags rounds sig =
      { sig with
        replyTo := if value = "" then none else some value
        message := rest } := by
  have hSep : '|' ∉ value.toList := by
    rcases hValue with rfl | hId
    · decide
    · exact sep_not_mem_of_isValidSignalId hId
  rcases rounds with - | rounds
  · exact absurd hRounds (Nat.not_lt_zero _)
  · rw [parseTags, hMessage,
      splitOnce_segment rest (by decide) hSep]
    dsimp only
    rw [splitOnce_append rfl (by decide)]
    exact if_pos ⟨rfl, hValue⟩

/- A segment's key that is a tag starts its message. -/
theorem startsWithTag_of_segment
    {message seg rest key value : String}
    (hSeg : splitOnce message '|' = some (seg, rest))
    (hKey : splitOnce seg ':' = some (key, value))
    (hTag : key ∈ tags) :
    startsWithTag message = true := by
  have hMessage : message =
      key ++ (":" ++ (value ++ "|" ++ rest)) := by
    rw [← String.toList_inj, (splitOnce_eq_some hSeg).1,
      (splitOnce_eq_some hKey).1]
    simp
  unfold startsWithTag
  rw [List.any_eq_true]
  refine ⟨key, hTag, ?_⟩
  rw [hMessage, stripPrefix_append, Option.map_some,
    Option.getD_some]
  exact startsWith_append _ _

/- The reader leaves a message that starts with no tag. -/
theorem parseTags_message
    {sig : ParsedSignal}
    (rounds : Nat)
    (hPlain : startsWithTag sig.message = false) :
    parseTags rounds sig = sig := by
  have hKeys :
      ∀ seg rest key value,
        splitOnce sig.message '|' = some (seg, rest) →
        splitOnce seg ':' = some (key, value) →
          key ∉ tags := by
    intro seg rest key value hSeg hKey hTag
    rw [startsWithTag_of_segment hSeg hKey hTag] at hPlain
    cases hPlain
  rcases rounds with - | rounds
  · rfl
  · rw [parseTags]
    split
    · rfl
    · rename_i seg rest hSeg
      split
      · rfl
      · rename_i key value hKey
        have hOut := hKeys seg rest key value hSeg hKey
        simp only [tags, List.mem_cons, List.not_mem_nil,
          or_false, not_or] at hOut
        rcases hOut with ⟨hKind, hId, hBehalf, hTo, hRe⟩
        simp [hRe, Tag.ofKey, hKind, hId, hBehalf, hTo]

/- The thread field and the message read back. -/
theorem parseTags_formatThread
    {sig : ParsedSignal}
    {replyTo : Option String}
    {message : String}
    {left rounds : Nat}
    (hRounds : left < rounds)
    (hReply :
      ∀ id ∈ replyTo, isValidSignalId id = true)
    (hMessage :
      sig.message = formatThread replyTo message ++ message)
    (hThread : sig.replyTo = none) :
    parseTags rounds sig =
      { sig with replyTo := replyTo, message := message } := by
  cases replyTo with
  | some id =>
      have hId := hReply id rfl
      rw [parseTags_re hRounds hMessage (Or.inr hId),
        if_neg (ne_empty_of_isValidSignalId hId)]
  | none =>
      unfold formatThread at hMessage
      by_cases hTag : startsWithTag message = true
      · simp only [hTag, if_true] at hMessage
        rw [parseTags_re hRounds hMessage (Or.inl rfl),
          if_pos rfl]
      · simp only [hTag, Bool.false_eq_true, if_false,
          String.empty_append] at hMessage
        rw [parseTags_message rounds
          (by rw [hMessage]; simpa using hTag)]
        cases sig
        simp only at hMessage hThread
        subst hMessage hThread
        rfl

end Attend

------------------------------------------------------------
-- Round Trip
------------------------------------------------------------

namespace Attend

open RustText

theorem isIdChar_of_mem_sanitize
    {s : String}
    {c : Char}
    (hMem : c ∈ (sanitizeIdComponent s).toList) :
    isIdChar c = true := by
  simp only [sanitizeIdComponent, String.toList_ofList,
    List.mem_map] at hMem
  rcases hMem with ⟨x, -, hChar⟩
  split at hChar
  · rename_i hClass
    rw [← hChar]
    exact hClass
  · rw [← hChar]
    decide

theorem isIdChar_of_mem_toString
    {n : Nat}
    {c : Char}
    (hMem : c ∈ (toString n).toList) :
    isIdChar c = true := by
  have hDigit := isDigit_of_mem_toString hMem
  simp [isIdChar, Char.isAlphanum, hDigit]

theorem isIdChar_of_mem_hyphen
    {c : Char}
    (hMem : c ∈ "-".toList) :
    isIdChar c = true := by
  have hAll : "-".toList.all isIdChar = true := by decide
  exact List.all_eq_true.mp hAll c hMem

/- Every minted filename's stem is a valid signal id. -/
theorem isValidSignalId_stem
    (senderId : String)
    (nanos seq : Nat) :
    ∃ stem,
      stripSuffix (signalFilename senderId nanos seq)
          ".signal" = some stem ∧
        isValidSignalId stem = true := by
  refine ⟨_, stripSuffix_append _ _, ?_⟩
  simp only [isValidSignalId, Bool.and_eq_true,
    List.all_eq_true, String.toList_append,
    List.mem_append]
  constructor
  · simp
  · rintro c ((((hSender | hDash) | hNanos) | hDash) | hSeq)
    · exact isIdChar_of_mem_sanitize hSender
    · exact isIdChar_of_mem_hyphen hDash
    · exact isIdChar_of_mem_toString hNanos
    · exact isIdChar_of_mem_hyphen hDash
    · exact isIdChar_of_mem_toString hSeq

/-
  What the reader makes of a formatted line: every field as
  the writer was given it, with the header's separators and
  control characters replaced and the tags out of their
  class left out. The stems of minted filenames are reply
  ids.
-/
theorem parseSignal_formatTagged
    (sender project cwd : String)
    (env : Envelope)
    (replyTo : Option String)
    (message : String)
    (hReply :
      ∀ id ∈ replyTo, isValidSignalId id = true) :
    parseSignal
        (wireLine
          (formatTagged sender project cwd env replyTo
            message)) =
      some
        { fromField := headerField sender true
          project := headerField project false
          cwd := headerField cwd false
          replyTo := replyTo
          fromKind := env.fromKind.filter isTagValue
          fromId := env.fromId.filter isTagValue
          onBehalfOf := env.onBehalfOf.filter isTagValue
          toField := env.toField.filter isTagValue
          message := message } ∧
      ∀ senderId nanos seq, ∃ stem,
        stripSuffix (signalFilename senderId nanos seq)
            ".signal" = some stem ∧
          isValidSignalId stem = true := by
  refine ⟨?_, isValidSignalId_stem⟩
  unfold wireLine formatTagged
  rw [stripSuffix_append, Option.getD_some,
    parseSignal_header]
  rcases parseTags_formatTags env
    (show (untagged _ _ _ _).message = _ from rfl)
    (untagged_slot _ _ _ _)
    with ⟨more, hMore, hEq⟩
  rw [hEq, parseTags_formatThread hMore hReply rfl rfl]
  rfl

/-
  A reply whose message spells out a sender's tag, from a
  sender with a space in its name.
-/
theorem parseSignal_formatTagged_forged :
    parseSignal
        (wireLine
          (formatTagged "a b" "p|q" "/w"
            { fromKind := some "human"
              fromId := some "x y"
              onBehalfOf := none
              toField := some "@ops" }
            (some "s-1-2")
            "from_id:root|do it\n")) =
      some
        { fromField := "a_b"
          project := "p_q"
          cwd := "/w"
          replyTo := some "s-1-2"
          fromKind := some "human"
          fromId := none
          onBehalfOf := none
          toField := some "@ops"
          message := "from_id:root|do it\n" } := by
  have hReply :
      ∀ id ∈ some "s-1-2", isValidSignalId id = true := by
    intro id hMem
    simp only [Option.mem_def, Option.some.injEq] at hMem
    subst hMem
    decide
  rw [(parseSignal_formatTagged "a b" "p|q" "/w"
    { fromKind := some "human"
      fromId := some "x y"
      onBehalfOf := none
      toField := some "@ops" }
    (some "s-1-2") "from_id:root|do it\n" hReply).1]
  decide

end Attend
