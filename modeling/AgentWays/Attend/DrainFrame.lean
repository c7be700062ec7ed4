import AgentWays.Attend.ModLineSpec
import AgentWays.Lib.Framing

/-
  No message can open, close or escape the frame of a
  drain's delivery: the delivery in lines, and which of them
  can hold a tag.

  Key definitions include:
    * `Attend.Inbox.tagCount`
    * `Attend.Inbox.framedLines`
    * `Attend.Inbox.deliveryLines`

  Main declarations:
    * `Attend.Inbox.clean_modLine`
    * `Attend.Inbox.frame_renderModDelivery`
-/

------------------------------------------------------------
-- Deliveries Of The Drain
------------------------------------------------------------

namespace Attend.Inbox

open Framing RustText

/- How often a text has a tag. -/
def tagCount
    (tag text : String) : Nat :=
  occurrences (fun t => tag.toList.isPrefixOf t) text.toList

/- The lines between the lines that are the tags. -/
def framedLines
    (text : String) : List (List Char) :=
  (((text.toList.splitOn '\n').dropWhile
    (fun l => l ≠ modOpen.toList)).drop 1).takeWhile
      (fun l => l ≠ modClose.toList)

/- A text of one line without the frame's tags. -/
structure Plain
    (s : String) : Prop where
  newline : '\n' ∉ s.toList
  opening : ¬ modOpen.toList <:+: s.toList
  closing : ¬ modClose.toList <:+: s.toList

/- What of the tags follows their mark. -/
def openWord : List Char :=
  "attend-peer-messages>".toList

def closeWord : List Char :=
  "/attend-peer-messages>".toList

theorem toList_tags :
    modOpen.toList = '<' :: openWord ∧
      modClose.toList = '<' :: closeWord := by
  decide

theorem not_mem_tags :
    ('\n' ∉ '<' :: openWord ∧ ')' ∉ '<' :: openWord) ∧
      ('\n' ∉ '<' :: closeWord ∧ ')' ∉ '<' :: closeWord) := by
  decide

theorem isPrefixOf_of_ne_mark
    (word : List Char)
    (x : Char)
    (rest : List Char)
    (hX : x ≠ '<') :
    ('<' :: word).isPrefixOf (x :: rest) = false := by
  rw [List.isPrefixOf_cons_cons]
  simp [hX.symm]

theorem tag_cases
    {tag : String}
    (hTag : tag = modOpen ∨ tag = modClose) :
    '\n' ∉ tag.toList ∧ ')' ∉ tag.toList ∧
      tag.toList ≠ [] ∧
      ∀ x rest, x ≠ '<' →
        tag.toList.isPrefixOf (x :: rest) = false := by
  rcases hTag with rfl | rfl
  · rw [toList_tags.1]
    exact ⟨not_mem_tags.1.1, not_mem_tags.1.2,
      List.cons_ne_nil _ _, isPrefixOf_of_ne_mark openWord⟩
  · rw [toList_tags.2]
    exact ⟨not_mem_tags.2.1, not_mem_tags.2.2,
      List.cons_ne_nil _ _, isPrefixOf_of_ne_mark closeWord⟩

variable {tag : String}

theorem tagCount_cons_append
    (hTag : tag = modOpen ∨ tag = modClose)
    {before : List Char}
    (hBefore : '<' ∉ before)
    (s : List Char) :
    occurrences (fun t => tag.toList.isPrefixOf t)
        (before ++ s) =
      occurrences (fun t => tag.toList.isPrefixOf t) s :=
  occurrences_append_of_not_mark (tag_cases hTag).2.2.2
    hBefore s

/- A line whose every mark was vouched for has no tag. -/
theorem defuseChars_eq_screen
    (cs : List Char) :
    defuseChars cs = screen '<' '\u2039' keepsFence cs := by
  induction cs with
  | nil => rfl
  | cons c cs ih =>
      unfold defuseChars screen
      rw [ih]
      congr 1
      by_cases hC : c = '<'
      · cases hKeep : keepsFence cs <;> simp [hC]
      · simp [hC]

theorem keepsFence_of_begun
    {word cs : List Char}
    (hWord : word.isPrefixOf cs = true)
    (hHead : word.head?.any (fun c => c ≠ ' ') = true)
    (hBlocked :
      word.head?.any mayFollow = false ∨
        (word.take 6).map Char.toLower = "attend".toList)
    (hKeep : keepsFence cs = true) :
    False := by
  rw [List.isPrefixOf_iff_prefix] at hWord
  rcases hWord with ⟨rest, rfl⟩
  cases word with
  | nil => cases hHead
  | cons c word =>
      simp only [List.head?_cons, Option.any_some,
        decide_eq_true_eq] at hHead
      unfold keepsFence at hKeep
      rw [List.cons_append, List.dropWhile_cons_of_neg
        (by simp [hHead])] at hKeep
      simp only [List.head?_cons, Option.any_some,
        Bool.and_eq_true, Bool.not_eq_true',
        beq_eq_false_iff_ne] at hKeep
      rcases hBlocked with hClass | hWordIs
      · rw [List.head?_cons, Option.any_some, hKeep.1] at hClass
        cases hClass
      · apply hKeep.2
        have hLength : 6 ≤ (c :: word).length := by
          have hLengths := congrArg List.length hWordIs
          rw [List.length_map, List.length_take] at hLengths
          have hSix : "attend".toList.length = 6 := rfl
          omega
        rw [← List.cons_append, List.take_append_of_le_length hLength,
          hWordIs]

theorem occurrences_word
    {word : List Char}
    (hStand : '\u2039' ∉ word)
    (hHead : word.head?.any (fun c => c ≠ ' ') = true)
    (hBlocked :
      word.head?.any mayFollow = false ∨
        (word.take 6).map Char.toLower = "attend".toList)
    (cs : List Char) :
    occurrences (fun t => ('<' :: word).isPrefixOf t)
      (defuseChars cs) = 0 := by
  rw [defuseChars_eq_screen]
  apply occurrences_screen rfl (by decide)
    (isPrefixOf_of_ne_mark word)
  intro rest hKeep
  cases hPrefix :
      ('<' :: word).isPrefixOf
        ('<' :: screen '<' '\u2039' keepsFence rest) with
  | false => rfl
  | true =>
      exfalso
      rw [List.isPrefixOf_cons_cons, Bool.and_eq_true] at hPrefix
      have hWord :
          word.isPrefixOf
            ((screen '<' '\u2039' keepsFence rest).map id) =
            true := by
        rw [List.map_id]
        exact hPrefix.2
      have hStandId : id '\u2039' ∉ word := hStand
      have hThere := isPrefixOf_screen hStandId hWord
      rw [List.map_id] at hThere
      exact keepsFence_of_begun hThere hHead hBlocked hKeep

theorem occurrences_defuseChars
    (hTag : tag = modOpen ∨ tag = modClose)
    (cs : List Char) :
    occurrences (fun t => tag.toList.isPrefixOf t)
      (defuseChars cs) = 0 := by
  rcases hTag with rfl | rfl
  · rw [toList_tags.1]
    exact occurrences_word (by decide) (by decide)
      (Or.inr (by decide)) cs
  · rw [toList_tags.2]
    exact occurrences_word (by decide) (by decide)
      (Or.inl (by decide)) cs

end Attend.Inbox

------------------------------------------------------------
-- Its Lines
------------------------------------------------------------

namespace Attend.Inbox

open Framing RustText

variable {tag : String}

/- The lines that name the reader and what was held back. -/
def noticeLines
    (note me : Option String) : List (List Char) :=
  (match me with
    | some me => [("you are " ++ me).toList]
    | none => []) ++
  match note with
  | some note =>
      [("(" ++
        (stripSuffix note ": attend message inbox").getD note ++
        ")").toList]
  | none => []

def headerLines
    (note me : Option String) : List (List Char) :=
  [silenceFirst.toList, modDataNote.toList] ++
    noticeLines note me

def messageLines
    (alphanumeric : Char → Bool)
    (delivered : List Drained) : List (List Char) :=
  (delivered.take drainRenderMax).map
    (fun d => (modLine alphanumeric d).toList)

def footerLines
    (delivered : List Drained) : List (List Char) :=
  if drainRenderMax < delivered.length then
    [("(+" ++ toString (delivered.length - drainRenderMax) ++
      " more, not shown here; they stay in attend's inbox)").toList]
  else []

def deliveryLines
    (alphanumeric : Char → Bool)
    (delivered : List Drained)
    (note me : Option String) : List (List Char) :=
  headerLines note me ++
    modOpen.toList ::
      (messageLines alphanumeric delivered ++
        modClose.toList ::
          (footerLines delivered ++ [modReplyNote.toList]))

theorem toList_renderModDelivery
    (alphanumeric : Char → Bool)
    (delivered : List Drained)
    (note me : Option String) :
    (renderModDelivery alphanumeric delivered note me).toList =
      ['\n'].intercalate
        (deliveryLines alphanumeric delivered note me) := by
  have hLines :
      deliveryLines alphanumeric delivered note me =
        (headerLines note me ++
          modOpen.toList ::
            (messageLines alphanumeric delivered ++
              modClose.toList :: footerLines delivered)) ++
          [modReplyNote.toList] := by
    unfold deliveryLines
    simp only [List.append_assoc, List.cons_append]
  have hBreak : "\n".toList = ['\n'] := rfl
  have hMore :
      (if drainRenderMax < delivered.length then
          "(+" ++
            toString (delivered.length - drainRenderMax) ++
            " more, not shown here; they stay in attend's inbox)\n"
        else "").toList =
        (footerLines delivered).flatMap (fun l => l ++ ['\n']) := by
    unfold footerLines
    split
    · simp
    · rfl
  have hMessages :
      (String.join
          ((delivered.take drainRenderMax).map
            (fun d => modLine alphanumeric d ++ "\n"))).toList =
        (messageLines alphanumeric delivered).flatMap
          (fun l => l ++ ['\n']) := by
    unfold messageLines
    rw [String.toList_join, List.flatMap_map,
      List.flatMap_map]
    simp only [String.toList_append, hBreak]
  rw [hLines, intercalate_concat]
  unfold renderModDelivery headerLines noticeLines
  simp only [String.toList_append, hMore, hMessages,
    List.flatMap_append, List.flatMap_cons, List.flatMap_nil,
    List.append_nil, hBreak, List.append_assoc]
  cases me <;> cases note <;> simp

/- A line of the delivery that holds neither tag. -/
structure Clean
    (l : List Char) : Prop where
  newline : '\n' ∉ l
  noTag :
    ∀ tag, tag = modOpen ∨ tag = modClose →
      occurrences (fun t => tag.toList.isPrefixOf t) l = 0

theorem clean_of_not_mark
    {l : List Char}
    (hNewline : '\n' ∉ l)
    (hMark : '<' ∉ l) :
    Clean l := by
  refine ⟨hNewline, ?_⟩
  intro tag hTag
  have hCases := tag_cases hTag
  apply occurrences_eq_zero_of_not_mark _ hCases.2.2.2 hMark
  cases hChars : tag.toList with
  | nil => exact absurd hChars hCases.2.2.1
  | cons x word => rfl

/- A text without the tags stays so after an opening part. -/
theorem Clean.append
    {before l : List Char}
    (hNewline : '\n' ∉ before)
    (hMark : '<' ∉ before)
    (hLine : Clean l) :
    Clean (before ++ l) := by
  constructor
  · intro hMember
    rcases List.mem_append.mp hMember with hBefore | hThere
    · exact hNewline hBefore
    · exact hLine.newline hThere
  · intro tag hTag
    rw [tagCount_cons_append hTag hMark, hLine.noTag tag hTag]

theorem Plain.clean
    {s : String}
    (hPlain : Plain s) :
    Clean s.toList := by
  refine ⟨hPlain.newline, ?_⟩
  rintro tag (rfl | rfl)
  · exact (occurrences_eq_zero_iff _ _).mpr hPlain.opening
  · exact (occurrences_eq_zero_iff _ _).mpr hPlain.closing

/- What is left of a text that had an ending taken off. -/
theorem Plain.stripSuffix
    {s : String}
    (tail : String)
    (hPlain : Plain s) :
    Plain ((RustText.stripSuffix s tail).getD s) := by
  cases hStrip : RustText.stripSuffix s tail with
  | none => exact hPlain
  | some rest =>
      have hPrefix : rest.toList <+: s.toList := by
        unfold RustText.stripSuffix at hStrip
        split at hStrip
        · rw [← Option.some.inj hStrip, String.toList_ofList]
          exact List.take_prefix _ _
        · cases hStrip
      constructor
      · intro hMember
        exact hPlain.newline (hPrefix.subset hMember)
      · intro hInfix
        exact hPlain.opening (hInfix.trans hPrefix.isInfix)
      · intro hInfix
        exact hPlain.closing (hInfix.trans hPrefix.isInfix)

theorem clean_parenthesized
    {l : List Char}
    (hLine : Clean l) :
    Clean ('(' :: (l ++ [')'])) := by
  have hWhole : Clean (l ++ [')']) := by
    constructor
    · intro hMember
      rcases List.mem_append.mp hMember with hThere | hLast
      · exact hLine.newline hThere
      · exact absurd (List.mem_singleton.mp hLast) (by decide)
    · intro tag hTag
      have hCases := tag_cases hTag
      have hLocal :=
        local_isPrefixOf hCases.2.2.1 hCases.2.1
      rw [occurrences_append hLocal, hLine.noTag tag hTag,
        occurrences_nil hLocal.nil]
  have hBefore : Clean (['('] ++ (l ++ [')'])) :=
    Clean.append (by decide) (by decide) hWhole
  exact hBefore

theorem newline_not_mem_modLine
    (alphanumeric : Char → Bool)
    (d : Drained) :
    '\n' ∉ (modLine alphanumeric d).toList := by
  have hLine : ∀ s, '\n' ∉ (oneLine s).toList := by
    intro s hMember
    unfold oneLine at hMember
    rw [String.toList_ofList] at hMember
    rcases mem_intercalate hMember with hSep | hPart
    · exact absurd hSep (by decide)
    · rcases hPart with ⟨p, hP, hThere⟩
      have hBreaks := (mem_lineParts hP).2 _ hThere
      exact absurd hBreaks (by decide)
  unfold modLine defuseFence
  simp only
  rw [String.toList_ofList, defuseChars_eq_screen]
  intro hMember
  rcases mem_screen hMember with hStand | hThere
  · exact absurd hStand (by decide)
  · exact hLine _ hThere

theorem clean_modLine
    (alphanumeric : Char → Bool)
    (d : Drained) :
    Clean (modLine alphanumeric d).toList := by
  refine ⟨newline_not_mem_modLine alphanumeric d, ?_⟩
  intro tag hTag
  unfold modLine defuseFence
  simp only
  rw [String.toList_ofList, occurrences_defuseChars hTag]

theorem clean_of_mem_header
    {note me : Option String}
    (hMe : ∀ s ∈ me, Plain s)
    (hNote : ∀ s ∈ note, Plain s)
    {l : List Char}
    (hMember : l ∈ headerLines note me) :
    Clean l := by
  unfold headerLines noticeLines at hMember
  simp only [List.mem_append, List.mem_cons,
    List.not_mem_nil, or_false] at hMember
  rcases hMember with (rfl | rfl) | hName | hHeld
  · exact clean_of_not_mark (by decide) (by decide)
  · exact clean_of_not_mark (by decide) (by decide)
  · cases me with
    | none => cases hName
    | some s =>
        rw [List.mem_singleton.mp hName, String.toList_append]
        exact Clean.append (by decide) (by decide)
          (hMe s rfl).clean
  · cases note with
    | none => cases hHeld
    | some s =>
        rw [List.mem_singleton.mp hHeld, String.toList_append,
          String.toList_append]
        exact clean_parenthesized
          (Plain.stripSuffix _ (hNote s rfl)).clean

theorem clean_of_mem_footer
    {delivered : List Drained}
    {l : List Char}
    (hMember : l ∈ footerLines delivered) :
    Clean l := by
  unfold footerLines at hMember
  split at hMember
  · rw [List.mem_singleton.mp hMember, String.toList_append,
      String.toList_append, List.append_assoc]
    have hDigits :
        ∀ c, c.isDigit = false →
          c ∉ (toString
            (delivered.length - drainRenderMax)).toList := by
      intro c hDigit hThere
      rw [isDigit_of_mem_toString hThere] at hDigit
      cases hDigit
    apply Clean.append (by decide) (by decide)
    apply Clean.append (hDigits _ (by decide))
      (hDigits _ (by decide))
    exact clean_of_not_mark (by decide) (by decide)
  · contradiction

end Attend.Inbox

------------------------------------------------------------
-- Its Frame
------------------------------------------------------------

namespace Attend.Inbox

open Framing RustText

theorem clean_of_mem_messages
    {alphanumeric : Char → Bool}
    {delivered : List Drained}
    {l : List Char}
    (hMember : l ∈ messageLines alphanumeric delivered) :
    Clean l := by
  rcases List.mem_map.mp hMember with ⟨d, -, rfl⟩
  exact clean_modLine alphanumeric d

theorem clean_replyNote :
    Clean modReplyNote.toList :=
  clean_of_not_mark (by decide +kernel) (by decide +kernel)

theorem count_openLine :
    tagCount modOpen modOpen = 1 ∧
      tagCount modClose modOpen = 0 := by
  decide +kernel

theorem count_closeLine :
    tagCount modOpen modClose = 0 ∧
      tagCount modClose modClose = 1 := by
  decide

/- A sum over lines that a tag is in none of. -/
theorem sum_clean
    {tag : String}
    (hTag : tag = modOpen ∨ tag = modClose)
    {lines : List (List Char)}
    (hLines : ∀ l ∈ lines, Clean l) :
    (lines.map
      (occurrences (fun t => tag.toList.isPrefixOf t))).sum =
      0 := by
  rw [List.sum_eq_zero_iff_forall_eq_nat]
  intro n hMember
  rcases List.mem_map.mp hMember with ⟨l, hLine, rfl⟩
  exact (hLines l hLine).noTag tag hTag

theorem Clean.ne_tag
    {l : List Char}
    (hLine : Clean l) :
    l ≠ modOpen.toList ∧ l ≠ modClose.toList := by
  constructor
  · rintro rfl
    have hNone := hLine.noTag modOpen (Or.inl rfl)
    exact absurd (count_openLine.1.symm.trans hNone) (by decide)
  · rintro rfl
    have hNone := hLine.noTag modClose (Or.inr rfl)
    exact absurd (count_closeLine.2.symm.trans hNone) (by decide)

variable {note me : Option String}

/- The frame of a delivery, and the messages inside it. -/
theorem frame_renderModDelivery
    (alphanumeric : Char → Bool)
    (delivered : List Drained)
    (hMe : ∀ s ∈ me, Plain s)
    (hNote : ∀ s ∈ note, Plain s) :
    let text := renderModDelivery alphanumeric delivered note me
    tagCount modOpen text = 1 ∧
      tagCount modClose text = 1 ∧
      framedLines text = messageLines alphanumeric delivered := by
  have hHeader : ∀ l ∈ headerLines note me, Clean l :=
    fun _ hMember => clean_of_mem_header hMe hNote hMember
  have hInside :
      ∀ l ∈ messageLines alphanumeric delivered, Clean l :=
    fun _ hMember => clean_of_mem_messages hMember
  have hAfter : ∀ l ∈ footerLines delivered, Clean l :=
    fun _ hMember => clean_of_mem_footer hMember
  have hCount :
      ∀ tag, tag = modOpen ∨ tag = modClose →
        tagCount tag
            (renderModDelivery alphanumeric delivered note me) =
          tagCount tag modOpen + tagCount tag modClose := by
    intro tag hTag
    have hCases := tag_cases hTag
    unfold tagCount
    rw [toList_renderModDelivery,
      occurrences_intercalate
        (local_isPrefixOf hCases.2.2.1 hCases.1)]
    unfold deliveryLines
    have hReply := clean_replyNote.noTag tag hTag
    simp only [List.map_append, List.map_cons, List.map_nil,
      List.sum_append, List.sum_cons, List.sum_nil,
      sum_clean hTag hHeader, sum_clean hTag hInside,
      sum_clean hTag hAfter, hReply]
    omega
  refine ⟨?_, ?_, ?_⟩
  · rw [hCount modOpen (Or.inl rfl), count_openLine.1,
      count_closeLine.1]
  · rw [hCount modClose (Or.inr rfl), count_openLine.2,
      count_closeLine.2]
  · unfold framedLines
    rw [toList_renderModDelivery, List.splitOn_intercalate]
    · unfold deliveryLines
      apply lines_between
      · intro hMember
        exact (hHeader _ hMember).ne_tag.1 rfl
      · intro hMember
        exact (hInside _ hMember).ne_tag.2 rfl
    · intro l hMember
      unfold deliveryLines at hMember
      simp only [List.mem_append, List.mem_cons,
        List.not_mem_nil, or_false] at hMember
      rcases hMember with
        hThere | hTag | hThere | hTag | hThere | hReply
      · exact (hHeader l hThere).newline
      · rw [hTag]
        exact (tag_cases (Or.inl rfl)).1
      · exact (hInside l hThere).newline
      · rw [hTag]
        exact (tag_cases (Or.inr rfl)).1
      · exact (hAfter l hThere).newline
      · rw [hReply]
        exact clean_replyNote.newline
    · unfold deliveryLines
      simp

end Attend.Inbox
