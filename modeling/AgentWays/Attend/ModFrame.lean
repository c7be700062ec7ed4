import AgentWays.Attend.DrainFrame

/-
  No line can open, close or escape the frame of a batch the
  mod submits, and the lines are read back from it.

  Key definitions include:
    * `Attend.Mod.tagAt`
    * `Attend.Mod.framedLine`

  Main declarations:
    * `Attend.Mod.occurrences_frameInbound`
    * `Attend.Mod.peerLines_frameInbound`
    * `Attend.frame_stands`
-/

------------------------------------------------------------
-- Deliveries Of The Mod
------------------------------------------------------------

namespace Attend.Mod

open Framing JsText

/-
  Whether a tag is at a place: a `<`, any spaces, and the
  word of the tag in any letter case.
-/
def tagAt
    (word : JsString) : JsString → Bool
| [] => false
| u :: rest =>
    u == 0x3C &&
      startsWithFolded word (rest.dropWhile (· == 0x20))

def openWord : JsString :=
  js "attend-peer-messages>"

def closeWord : JsString :=
  js "/attend-peer-messages>"

theorem tagAt_cons
    (word : JsString)
    (u : UInt16)
    (rest : JsString) :
    tagAt word (u :: rest) =
      (u == 0x3C &&
        startsWithFolded word
          (rest.dropWhile (· == 0x20))) :=
  rfl

theorem tagAt_of_ne_mark
    (word : JsString)
    (u : UInt16)
    (rest : JsString)
    (hU : u ≠ 0x3C) :
    tagAt word (u :: rest) = false := by
  rw [tagAt_cons, beq_eq_false_iff_ne.mpr hU,
    Bool.false_and]

/- A word without a newline is read within its line. -/
theorem local_tagAt
    {word : JsString}
    (hWord : word.map fold ≠ [])
    (hBreak : fold 0x0A ∉ word.map fold) :
    Local 0x0A (tagAt word) := by
  refine ⟨rfl, ?_⟩
  intro tail rest
  cases tail with
  | nil => rfl
  | cons u tail =>
      have hDrop :
          (tail ++ 0x0A :: rest).dropWhile (· == 0x20) =
            tail.dropWhile (· == 0x20) ++ 0x0A :: rest := by
        rw [List.dropWhile_append]
        split
        · rename_i hEmpty
          rw [List.isEmpty_iff.mp hEmpty]
          rfl
        · rfl
      have hLine :=
        (local_isPrefixOf hWord hBreak).line
          ((tail.dropWhile (· == 0x20)).map fold)
          (rest.map fold)
      rw [List.cons_append, tagAt_cons, tagAt_cons, hDrop]
      unfold startsWithFolded
      rw [List.map_append, List.map_cons, hLine]

theorem defuseFence_eq_screen
    (s : JsString) :
    defuseFence s = screen 0x3C 0x2039 ahead s := by
  induction s with
  | nil => rfl
  | cons u rest ih =>
      unfold defuseFence screen
      rw [ih]
      congr 1
      simp only [Bool.and_eq_true, beq_iff_eq,
        Bool.not_eq_true']

/- A class that folds its letters is one of folded units. -/
theorem mayFollow_of_fold_eq
    {u v : UInt16}
    (hFold : fold u = fold v) :
    mayFollow u = mayFollow v := by
  unfold mayFollow
  rw [hFold]

/-
  After a `<` that is kept, and its spaces, neither a word
  that starts with `attend` nor one whose first unit may not
  follow is there.
-/
theorem not_startsWithFolded_of_ahead
    {word rest : JsString}
    (hBlocked :
      (js "attend").map fold <+: word.map fold ∨
        word.head?.any (fun v => !mayFollow v) = true)
    (hAhead : ahead rest = true) :
    startsWithFolded word
      (rest.dropWhile (· == 0x20)) = false := by
  rw [Bool.eq_false_iff]
  intro hWord
  rw [ahead_eq, Bool.and_eq_true, Bool.not_eq_true'] at hAhead
  rcases hAhead with ⟨hFollow, hOther⟩
  unfold startsWithFolded at hWord hOther
  rw [List.isPrefixOf_iff_prefix] at hWord
  rcases hBlocked with hPrefix | hHead
  · have hThere :=
      List.isPrefixOf_iff_prefix.mpr (hPrefix.trans hWord)
    rw [hThere] at hOther
    cases hOther
  · cases word with
    | nil => cases hHead
    | cons v word =>
        cases hRest : rest.dropWhile (· == 0x20) with
        | nil =>
            rw [hRest] at hFollow
            cases hFollow
        | cons u more =>
            rw [hRest, List.map_cons, List.map_cons,
              List.cons_prefix_cons] at hWord
            rw [hRest, List.head?_cons, Option.any_some,
              mayFollow_of_fold_eq hWord.1.symm] at hFollow
            rw [List.head?_cons, Option.any_some,
              hFollow] at hHead
            cases hHead

theorem occurrences_tagAt_defuse
    {word : JsString}
    (hStand : fold 0x2039 ∉ word.map fold)
    (hBlocked :
      (js "attend").map fold <+: word.map fold ∨
        word.head?.any (fun v => !mayFollow v) = true)
    (s : JsString) :
    occurrences (tagAt word) (defuseFence s) = 0 := by
  rw [defuseFence_eq_screen]
  apply occurrences_screen rfl (by decide)
    (tagAt_of_ne_mark word)
  intro rest hKeep
  cases hTag :
      tagAt word (0x3C :: screen 0x3C 0x2039 ahead rest) with
  | false => rfl
  | true =>
      rw [tagAt_cons, Bool.and_eq_true,
        dropWhile_screen (by decide) (by decide)] at hTag
      have hThere := isPrefixOf_screen hStand hTag.2
      have hNot := not_startsWithFolded_of_ahead hBlocked hKeep
      unfold startsWithFolded at hNot
      rw [hThere] at hNot
      cases hNot

theorem openWord_facts :
    openWord.map fold ≠ [] ∧ fold 0x0A ∉ openWord.map fold ∧
      fold 0x2039 ∉ openWord.map fold ∧
      (js "attend").map fold <+: openWord.map fold := by
  decide

theorem closeWord_facts :
    closeWord.map fold ≠ [] ∧ fold 0x0A ∉ closeWord.map fold ∧
      fold 0x2039 ∉ closeWord.map fold ∧
      closeWord.head?.any (fun v => !mayFollow v) = true := by
  decide

theorem tagAt_fixedLines :
    (∀ l ∈ [silenceFirst, header, preamble],
      occurrences (tagAt openWord) l = 0 ∧
        occurrences (tagAt closeWord) l = 0) ∧
      (occurrences (tagAt openWord) openTag = 1 ∧
        occurrences (tagAt closeWord) openTag = 0) ∧
      occurrences (tagAt openWord) closeTag = 0 ∧
        occurrences (tagAt closeWord) closeTag = 1 := by
  decide

variable (classes : Classes)

/- A line of a batch, as the frame holds it. -/
def framedLine
    (line : JsString) : JsString :=
  defuseFence (oneLine classes line)

theorem occurrences_lines
    {word : JsString}
    (hLocal : Local 0x0A (tagAt word))
    (hLine :
      ∀ s, occurrences (tagAt word) (defuseFence s) = 0)
    (lines : List JsString) :
    occurrences (tagAt word)
      ([0x0A].intercalate (lines.map (framedLine classes))) =
      0 := by
  rw [occurrences_intercalate hLocal,
    List.sum_eq_zero_iff_forall_eq_nat]
  intro n hMember
  rcases List.mem_map.mp hMember with ⟨l, hThere, rfl⟩
  rcases List.mem_map.mp hThere with ⟨line, -, rfl⟩
  exact hLine _

theorem frameInbound_eq
    (lines : List JsString)
    (full : Bool) :
    frameInbound classes lines full =
      [0x0A].intercalate
        (silenceFirst :: header :: openTag ::
          [0x0A].intercalate
            (lines.map (framedLine classes)) ::
          closeTag :: if full then [preamble] else []) :=
  rfl

/- Each tag is in a framed batch once. -/
theorem occurrences_frameInbound
    (lines : List JsString)
    (full : Bool) :
    occurrences (tagAt openWord)
        (frameInbound classes lines full) = 1 ∧
      occurrences (tagAt closeWord)
        (frameInbound classes lines full) = 1 := by
  have hOpen := openWord_facts
  have hClose := closeWord_facts
  have hFixed := tagAt_fixedLines
  have hLocalOpen := local_tagAt hOpen.1 hOpen.2.1
  have hLocalClose := local_tagAt hClose.1 hClose.2.1
  have hInnerOpen :=
    occurrences_lines classes hLocalOpen
      (occurrences_tagAt_defuse hOpen.2.2.1
        (Or.inl hOpen.2.2.2)) lines
  have hInnerClose :=
    occurrences_lines classes hLocalClose
      (occurrences_tagAt_defuse hClose.2.2.1
        (Or.inr hClose.2.2.2)) lines
  have hSilence := hFixed.1 silenceFirst (by simp)
  have hHeader := hFixed.1 header (by simp)
  have hPreamble := hFixed.1 preamble (by simp)
  rw [frameInbound_eq, occurrences_intercalate hLocalOpen,
    occurrences_intercalate hLocalClose]
  cases full
  · simp only [List.map_cons, List.map_nil, List.sum_cons,
      List.sum_nil, hSilence, hHeader, hFixed.2, hInnerOpen,
      hInnerClose, Bool.false_eq_true, if_false]
    exact ⟨rfl, rfl⟩
  · simp only [List.map_cons, List.map_nil, List.sum_cons,
      List.sum_nil, hSilence, hHeader, hPreamble, hFixed.2,
      hInnerOpen, hInnerClose, if_true]
    exact ⟨rfl, rfl⟩

end Attend.Mod

------------------------------------------------------------
-- The Lines Of A Batch
------------------------------------------------------------

namespace Attend.Mod

open Framing JsText

theorem tags_eq :
    openTag = 0x3C :: openWord ∧
      closeTag = 0x3C :: closeWord ∧
      openWord.head? = some 0x61 ∧
      closeWord.head? = some 0x2F := by
  decide

/- The tag as it is written is a tag in some case. -/
theorem tagAt_of_isPrefixOf
    {word : JsString}
    {v : UInt16}
    (hHead : word.head? = some v)
    (hBlank : v ≠ 0x20)
    (t : JsString)
    (hPrefix : (0x3C :: word).isPrefixOf t = true) :
    tagAt word t = true := by
  rw [List.isPrefixOf_iff_prefix] at hPrefix
  rcases hPrefix with ⟨rest, rfl⟩
  cases word with
  | nil => cases hHead
  | cons w word =>
      have hW : w ≠ 0x20 := by
        rw [Option.some.inj hHead]
        exact hBlank
      rw [List.cons_append, tagAt_cons, List.cons_append,
        List.dropWhile_cons_of_neg (by simp [hW])]
      unfold startsWithFolded
      rw [BEq.rfl, Bool.true_and,
        List.isPrefixOf_iff_prefix, ← List.cons_append,
        List.map_append]
      exact List.prefix_append _ _

theorem once_in_frameInbound
    (classes : Classes)
    (lines : List JsString)
    (full : Bool) :
    occurrences (fun t => openTag.isPrefixOf t)
        (frameInbound classes lines full) ≤ 1 ∧
      occurrences (fun t => closeTag.isPrefixOf t)
        (frameInbound classes lines full) ≤ 1 := by
  have hOnce := occurrences_frameInbound classes lines full
  have hTags := tags_eq
  constructor
  · rw [hTags.1, ← hOnce.1]
    apply occurrences_le_of_imp
    exact tagAt_of_isPrefixOf hTags.2.2.1 (by decide)
  · rw [hTags.2.1, ← hOnce.2]
    apply occurrences_le_of_imp
    exact tagAt_of_isPrefixOf hTags.2.2.2 (by decide)

/- A trimmed line is trimmed after its marks are replaced. -/
theorem trim_defuseFence
    {s : JsString}
    (hStart : s.dropWhile (fun u => isSpace u.toNat) = s)
    (hEnd : s.rdropWhile (fun u => isSpace u.toNat) = s) :
    trim (defuseFence s) = defuseFence s := by
  rw [defuseFence_eq_screen]
  apply trim_eq_self
  · rw [dropWhile_screen (by decide) (by decide), hStart]
  · exact rdropWhile_screen (by decide) (by decide) hEnd

theorem trim_framedLine
    (classes : Classes)
    (line : JsString) :
    trim (framedLine classes line) =
      framedLine classes line := by
  have hFixed :=
    trim_fixed
      (replaceRuns (fun n => isSpace n || classes.breaks n)
        line)
  exact trim_defuseFence hFixed.1 hFixed.2

theorem newline_not_mem_framedLine
    (classes : Classes)
    (line : JsString) :
    (0x0A : UInt16) ∉ framedLine classes line := by
  unfold framedLine
  rw [defuseFence_eq_screen]
  intro hMember
  rcases mem_screen hMember with hStand | hThere
  · exact absurd hStand (by decide)
  · have hRuns :
        (0x0A : UInt16) ∉
          replaceRuns (fun n => isSpace n || classes.breaks n)
            line :=
      not_mem_replaceRuns rfl (by decide) (by decide) line
    exact hRuns (mem_of_mem_trim hThere)

/- The text of a batch around its two tags. -/
theorem frameInbound_split
    (classes : Classes)
    (lines : List JsString)
    (full : Bool) :
    ∃ after,
      frameInbound classes lines full =
        (silenceFirst ++ 0x0A :: header ++ [0x0A]) ++
          (openTag ++
            ((0x0A ::
              [0x0A].intercalate
                (lines.map (framedLine classes)) ++ [0x0A]) ++
              (closeTag ++ after))) := by
  rw [frameInbound_eq]
  cases full
  · refine ⟨[], ?_⟩
    simp [List.intercalate_cons_cons,
      List.intercalate_singleton]
  · refine ⟨0x0A :: preamble, ?_⟩
    simp [List.intercalate_cons_cons,
      List.intercalate_singleton]

/- The lines read back from between the tags. -/
theorem splitLines
    (classes : Classes)
    (lines : List JsString) :
    ((split
        (0x0A ::
          [0x0A].intercalate
            (lines.map (framedLine classes)) ++ [0x0A])
        0x0A).map trim).filter (fun l => !l.isEmpty) =
      (lines.map (framedLine classes)).filter
        (fun l => !l.isEmpty) := by
  have hTrim :
      (lines.map (framedLine classes)).map trim =
        lines.map (framedLine classes) := by
    rw [List.map_map]
    apply List.map_congr_left
    intro line _
    exact trim_framedLine classes line
  have hLines :
      ((([0x0A].intercalate
          (lines.map (framedLine classes))).splitOn
          0x0A).map trim).filter (fun l => !l.isEmpty) =
        (lines.map (framedLine classes)).filter
          (fun l => !l.isEmpty) := by
    cases lines with
    | nil => rfl
    | cons line lines =>
        rw [List.splitOn_intercalate, hTrim]
        · intro l hMember
          rcases List.mem_map.mp hMember with ⟨b, -, rfl⟩
          exact newline_not_mem_framedLine classes b
        · simp
  have hNone :
      ([[]].map trim).filter (fun l => !l.isEmpty) = [] := rfl
  have hStart :
      ∀ s : JsString,
        (0x0A :: s).splitOn 0x0A = [[]] ++ s.splitOn 0x0A :=
    fun s => List.splitOn_append_cons_self [] s
  unfold split
  rw [List.splitOn_append_cons_self, hStart, List.splitOn_nil,
    List.map_append, List.map_append, List.filter_append,
    List.filter_append, hLines, hNone, List.nil_append,
    List.append_nil]

theorem peerLines_of_once
    {before inside after : JsString}
    (hOpen :
      occurrences (fun t => openTag.isPrefixOf t)
        (before ++
          (openTag ++ (inside ++ (closeTag ++ after)))) ≤ 1)
    (hClose :
      occurrences (fun t => closeTag.isPrefixOf t)
        (before ++
          (openTag ++ (inside ++ (closeTag ++ after)))) ≤ 1) :
    peerLines
        (before ++
          (openTag ++ (inside ++ (closeTag ++ after)))) =
      some
        (((split inside 0x0A).map trim).filter
          (fun l => !l.isEmpty)) := by
  have hFirst :
      indexOf openTag
          (before ++
            (openTag ++ (inside ++ (closeTag ++ after)))) =
        some before.length := by
    apply indexOf_of_once _ hOpen
    rw [tags_eq.1]
    exact List.cons_ne_nil _ _
  have hAssoc :
      before ++ (openTag ++ (inside ++ (closeTag ++ after))) =
        (before ++ openTag ++ inside) ++ (closeTag ++ after) := by
    simp only [List.append_assoc]
  have hLast :
      lastIndexOf closeTag
          (before ++
            (openTag ++ (inside ++ (closeTag ++ after)))) =
        some (before ++ openTag ++ inside).length := by
    rw [hAssoc] at hClose ⊢
    apply lastIndexOf_of_once _ hClose
    rw [tags_eq.2.1]
    exact List.cons_ne_nil _ _
  have hInside :
      ((before ++
          (openTag ++ (inside ++ (closeTag ++ after)))).take
            (before ++ openTag ++ inside).length).drop
              (before.length + openTag.length) = inside := by
    rw [hAssoc, List.take_left, ← List.length_append,
      List.drop_left]
  unfold peerLines
  rw [hFirst, hLast]
  simp only
  rw [hInside, if_neg]
  simp only [List.length_append]
  omega

/- What is read back from a framed batch. -/
theorem peerLines_frameInbound
    (classes : Classes)
    (lines : List JsString)
    (full : Bool) :
    peerLines (frameInbound classes lines full) =
      some
        ((lines.map
          (fun l => defuseFence (oneLine classes l))).filter
          (fun l => !l.isEmpty)) := by
  have hOnce := once_in_frameInbound classes lines full
  rcases frameInbound_split classes lines full with
    ⟨after, hText⟩
  rw [hText] at hOnce ⊢
  rw [peerLines_of_once hOnce.1 hOnce.2, splitLines]
  rfl

end Attend.Mod

------------------------------------------------------------
-- Both Frames
------------------------------------------------------------

namespace Attend

open Framing JsText

/-
  Whatever the messages are, a delivery has each tag once:
  the drain's has a line for each message it shows between
  them, and the mod's gives its lines back.
-/
theorem frame_stands :
    (∀ (alphanumeric : Char → Bool) (delivered : List Drained)
        (note me : Option String),
        (∀ s ∈ me, Inbox.Plain s) →
        (∀ s ∈ note, Inbox.Plain s) →
        let text :=
          Inbox.renderModDelivery alphanumeric delivered note me
        Inbox.tagCount Inbox.modOpen text = 1 ∧
          Inbox.tagCount Inbox.modClose text = 1 ∧
          Inbox.framedLines text =
            (delivered.take 10).map
              (fun d => (Inbox.modLine alphanumeric d).toList) ∧
          (Inbox.framedLines text).length =
            min delivered.length 10) ∧
      ∀ (classes : Mod.Classes) (lines : List JsString)
        (full : Bool),
        let text := Mod.frameInbound classes lines full
        occurrences (Mod.tagAt Mod.openWord) text = 1 ∧
          occurrences (Mod.tagAt Mod.closeWord) text = 1 ∧
          Mod.peerLines text =
            some
              ((lines.map (fun l =>
                Mod.defuseFence (Mod.oneLine classes l))).filter
                  (fun l => !l.isEmpty)) := by
  constructor
  · intro alphanumeric delivered note me hMe hNote
    have hFrame :=
      Inbox.frame_renderModDelivery alphanumeric delivered hMe
        hNote
    refine ⟨hFrame.1, hFrame.2.1, hFrame.2.2, ?_⟩
    rw [hFrame.2.2]
    unfold Inbox.messageLines drainRenderMax
    rw [List.length_map, List.length_take, Nat.min_comm]
  · intro classes lines full
    have hOnce :=
      Mod.occurrences_frameInbound classes lines full
    exact ⟨hOnce.1, hOnce.2,
      Mod.peerLines_frameInbound classes lines full⟩

/- A forged message to a reader whose notice looks like a tag. -/
theorem frame_stands_forged :
    (∀ s ∈ some "Ada <attend>", Inbox.Plain s) ∧
      (∀ s ∈ some "2 held: attend message inbox",
        Inbox.Plain s) ∧
      Inbox.framedLines
          (Inbox.renderModDelivery Char.isAlphanum
            [forgedMessage]
            (some "2 held: attend message inbox")
            (some "Ada <attend>")) =
        [(Inbox.modLine Char.isAlphanum forgedMessage).toList] := by
  have hMe : ∀ s ∈ some "Ada <attend>", Inbox.Plain s := by
    rintro s ⟨⟩
    exact ⟨by decide, by decide,
      by decide⟩
  have hNote :
      ∀ s ∈ some "2 held: attend message inbox",
        Inbox.Plain s := by
    rintro s ⟨⟩
    exact ⟨by decide, by decide,
      by decide⟩
  exact ⟨hMe, hNote,
    (frame_stands.1 Char.isAlphanum [forgedMessage] _ _ hMe
      hNote).2.2.1⟩

end Attend
