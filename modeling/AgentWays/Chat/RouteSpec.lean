import AgentWays.Chat.Route
import AgentWays.Lib.TextSpec
import Mathlib.Data.List.DropRight

/-
  A line joined to another that goes the same way goes that
  way too: what a run of mentions reads of two lines, what a
  command reads of them, and the key of their recipients
  together.

  Main declarations:
    * `Chat.parseAddressed_join`
    * `Chat.isMessage_join`
    * `Chat.routeKey_append`
    * `Chat.destination_join`
-/

------------------------------------------------------------
-- Mentions Of Two Lines
------------------------------------------------------------

namespace Chat

open RustText

/- The run of mentions of a text trimmed at its start. -/
def addressed
    (rest : Text) : List Addressed :=
  addressedFrom rest.length rest

/- What stands after a text's own lines is read after them. -/
theorem dropWhile_append_ne
    {rest : Text}
    (more : Text)
    (hNe : rest.dropWhile isWhitespace ≠ []) :
    (rest ++ more).dropWhile isWhitespace =
      rest.dropWhile isWhitespace ++ more := by
  rw [List.dropWhile_append]
  simp [hNe]

theorem dropWhile_append_blank
    {rest : Text}
    (more : Text)
    (hBlank : rest.dropWhile isWhitespace = []) :
    (rest ++ more).dropWhile isWhitespace =
      more.dropWhile isWhitespace := by
  rw [List.dropWhile_append]
  simp [hBlank]

theorem dropWhile_newline
    (line : Text) :
    ('\n' :: line).dropWhile isWhitespace =
      line.dropWhile isWhitespace :=
  List.dropWhile_cons_of_pos (by decide)

theorem length_nameAfter
    {kind : Text → Addressed}
    {rest tail : Text}
    {recipient : Addressed}
    (hName : nameAfter kind rest = some (recipient, tail)) :
    tail.length < rest.length := by
  unfold nameAfter at hName
  simp only at hName
  split at hName
  · cases hName
  · rename_i hNe
    have hSplit :=
      congrArg List.length
        (List.takeWhile_append_dropWhile
          (p := isNameChar) (l := rest))
    rw [List.length_append] at hSplit
    have hPos :
        0 < (rest.takeWhile isNameChar).length := by
      rw [List.length_pos_iff]
      simpa using hNe
    split at hName
    · cases hName
      simp only [List.length_nil]
      omega
    · rename_i c after hDrop
      split at hName
      · cases hName
        have hLe :=
          (List.dropWhile_sublist (p := isWhitespace)
            (l := c :: after)).length_le
        rw [hDrop] at hSplit
        omega
      · cases hName

/- A mention takes its sigil and a name at least. -/
theorem length_mention
    {rest tail : Text}
    {recipient : Addressed}
    (hMention : mention rest = some (recipient, tail)) :
    tail.length < rest.length := by
  unfold mention at hMention
  split at hMention
  · exact (length_nameAfter hMention).trans
      (Nat.lt_succ_self _)
  · exact (length_nameAfter hMention).trans
      (Nat.lt_succ_self _)
  · cases hMention

/- More fuel than characters changes nothing. -/
theorem addressedFrom_eq
    {fuel : Nat}
    {rest : Text}
    (hFuel : rest.length ≤ fuel) :
    addressedFrom fuel rest = addressed rest := by
  unfold addressed
  induction hLength : rest.length using Nat.strong_induction_on
    generalizing rest fuel with
  | h n ih =>
    subst hLength
    cases fuel with
    | zero => rw [Nat.le_zero.mp hFuel]
    | succ fuel =>
      cases hMention : mention rest with
      | none =>
          cases rest with
          | nil => rfl
          | cons c rest =>
              simp [addressedFrom, hMention]
      | some found =>
          obtain ⟨recipient, tail⟩ := found
          have hLt := length_mention hMention
          cases rest with
          | nil => cases hLt
          | cons c rest =>
              simp only [List.length_cons] at hLt hFuel
              simp only [List.length_cons, addressedFrom,
                hMention]
              rw [ih tail.length (by simp; omega)
                  (by omega : tail.length ≤ fuel) rfl,
                ih tail.length (by simp; omega)
                  (by omega : tail.length ≤ rest.length) rfl]

theorem addressed_of_none
    {rest : Text}
    (hMention : mention rest = none) :
    addressed rest = [] := by
  cases rest with
  | nil => rfl
  | cons c rest => simp [addressed, addressedFrom, hMention]

theorem addressed_of_some
    {rest tail : Text}
    {recipient : Addressed}
    (hMention : mention rest = some (recipient, tail)) :
    addressed rest = recipient :: addressed tail := by
  have hLt := length_mention hMention
  cases rest with
  | nil => cases hLt
  | cons c rest =>
      simp only [List.length_cons] at hLt
      simp only [addressed, List.length_cons, addressedFrom,
        hMention]
      rw [addressedFrom_eq (by omega)]
      rfl

theorem parseAddressed_eq
    (msg : Text) :
    parseAddressed msg =
      addressed (msg.dropWhile isWhitespace) :=
  addressedFrom_eq
    (List.dropWhile_sublist (p := isWhitespace)
      (l := msg)).length_le

/- A name ends at the line's end as at the text's. -/
theorem nameAfter_append
    (kind : Text → Addressed)
    (rest line : Text) :
    nameAfter kind (rest ++ '\n' :: line) =
      (nameAfter kind rest).map
        (fun found =>
          (found.1,
            (found.2 ++ '\n' :: line).dropWhile
              isWhitespace)) := by
  have hStop : isNameChar '\n' = false := by decide
  have hTake :
      (rest ++ '\n' :: line).takeWhile isNameChar =
        rest.takeWhile isNameChar := by
    rw [List.takeWhile_append]
    split
    · rename_i hAll
      rw [List.takeWhile_cons_of_neg (by simp [hStop]),
        List.append_nil]
      exact ((List.takeWhile_sublist _).eq_of_length hAll).symm
    · rfl
  have hDrop :
      (rest ++ '\n' :: line).dropWhile isNameChar =
        rest.dropWhile isNameChar ++ '\n' :: line := by
    rw [List.dropWhile_append]
    split
    · rename_i hNil
      rw [List.dropWhile_cons_of_neg (by simp [hStop])]
      simp only [List.isEmpty_iff] at hNil
      rw [hNil, List.nil_append]
    · rfl
  unfold nameAfter
  simp only [hTake, hDrop]
  split
  · rfl
  · cases hRest : rest.dropWhile isNameChar with
    | nil =>
        simp [show isWhitespace '\n' = true by decide]
    | cons c tail =>
        simp only [List.cons_append]
        by_cases hBlank : isWhitespace c = true
        · simp only [hBlank, if_true, Option.map_some,
            Option.some.injEq, Prod.mk.injEq, true_and]
          by_cases hNe :
              (c :: tail).dropWhile isWhitespace = []
          · rw [hNe, ← List.cons_append,
              dropWhile_append_blank _ hNe,
              List.nil_append]
          · rw [← List.cons_append,
              dropWhile_append_ne _ hNe,
              dropWhile_append_ne _ (by
                rwa [List.dropWhile_idempotent]),
              List.dropWhile_idempotent]
        · simp [hBlank]

/- A line that starts with no mention still starts with none. -/
theorem mention_append
    {rest : Text}
    (hNe : rest ≠ [])
    (line : Text) :
    mention (rest ++ '\n' :: line) =
      (mention rest).map
        (fun found =>
          (found.1,
            (found.2 ++ '\n' :: line).dropWhile
              isWhitespace)) := by
  cases rest with
  | nil => exact absurd rfl hNe
  | cons c rest =>
      simp only [List.cons_append]
      by_cases hAt : c = '@'
      · subst hAt
        exact nameAfter_append _ rest line
      · by_cases hHash : c = '#'
        · subst hHash
          exact nameAfter_append _ rest line
        · have hNone :
              ∀ t : Text, mention (c :: t) = none := by
            intro t
            unfold mention
            split
            · rename_i hEq
              exact absurd (List.cons.inj hEq).1 hAt
            · rename_i hEq
              exact absurd (List.cons.inj hEq).1 hHash
            · rfl
          rw [hNone, hNone]
          rfl

/- Trimmed at its start already. -/
def Trimmed
    (rest : Text) : Prop :=
  rest.dropWhile isWhitespace = rest

theorem trimmed_dropWhile
    (rest : Text) :
    Trimmed (rest.dropWhile isWhitespace) :=
  List.dropWhile_idempotent _ _

theorem trimmed_nameAfter
    {kind : Text → Addressed}
    {rest tail : Text}
    {recipient : Addressed}
    (hName : nameAfter kind rest = some (recipient, tail)) :
    Trimmed tail := by
  unfold nameAfter at hName
  simp only at hName
  split at hName
  · cases hName
  · split at hName
    · cases hName
      rfl
    · split at hName
      · cases hName
        exact trimmed_dropWhile _
      · cases hName

theorem trimmed_mention
    {rest tail : Text}
    {recipient : Addressed}
    (hMention : mention rest = some (recipient, tail)) :
    Trimmed tail := by
  unfold mention at hMention
  split at hMention
  · exact trimmed_nameAfter hMention
  · exact trimmed_nameAfter hMention
  · cases hMention

/-
  The run over a line and the next: the line's own mentions,
  then the next line's when the run reached its end. A line
  that mentions nobody hides what follows it.
-/
theorem addressed_append
    {rest : Text}
    (hTrim : Trimmed rest)
    (hNe : rest ≠ [])
    (line : Text) :
    ∃ more,
      addressed (rest ++ '\n' :: line) =
          addressed rest ++ more ∧
        (more = [] ∨ more = parseAddressed line) ∧
        (addressed rest = [] → more = []) := by
  induction hLength : rest.length using Nat.strong_induction_on
    generalizing rest with
  | h n ih =>
    subst hLength
    have hAppend := mention_append hNe line
    cases hMention : mention rest with
    | none =>
        rw [hMention, Option.map_none] at hAppend
        refine ⟨[], ?_, .inl rfl, fun _ => rfl⟩
        rw [addressed_of_none hAppend,
          addressed_of_none hMention]
        rfl
    | some found =>
        obtain ⟨recipient, tail⟩ := found
        rw [hMention, Option.map_some] at hAppend
        have hSplit := addressed_of_some hMention
        have hJoin := addressed_of_some hAppend
        simp only at hJoin
        have hTail := trimmed_mention hMention
        by_cases hNil : tail = []
        · subst hNil
          refine ⟨parseAddressed line, ?_, .inr rfl, ?_⟩
          · rw [hJoin, hSplit, List.nil_append,
              dropWhile_newline, parseAddressed_eq]
            rfl
          · rw [hSplit]
            exact fun h => absurd h (List.cons_ne_nil _ _)
        · have hKeep :
              (tail ++ '\n' :: line).dropWhile isWhitespace =
                tail ++ '\n' :: line := by
            rw [dropWhile_append_ne _ (by rwa [hTail]), hTail]
          obtain ⟨more, hMore, hEither, -⟩ :=
            ih tail.length (length_mention hMention) hTail
              hNil rfl
          refine ⟨more, ?_, hEither, ?_⟩
          · rw [hJoin, hKeep, hMore, hSplit]
            rfl
          · rw [hSplit]
            exact fun h => absurd h (List.cons_ne_nil _ _)

/- Holding something other than whitespace. -/
def Says
    (text : Text) : Prop :=
  text.dropWhile isWhitespace ≠ []

theorem parseAddressed_join
    {text : Text}
    (hSays : Says text)
    (line : Text) :
    ∃ more,
      parseAddressed (text ++ '\n' :: line) =
          parseAddressed text ++ more ∧
        (more = [] ∨ more = parseAddressed line) ∧
        (parseAddressed text = [] → more = []) := by
  rw [parseAddressed_eq, parseAddressed_eq text,
    dropWhile_append_ne _ hSays]
  exact addressed_append (trimmed_dropWhile text) hSays line

------------------------------------------------------------
-- Commands Of Two Lines
------------------------------------------------------------

/- A message is what starts with no `/`, or with a bare one. -/
theorem isMessage_iff
    (text : Text) :
    isMessage text = true ↔
      ∀ rest, afterSlash text = some rest →
        ∃ c more, rest = c :: more ∧
          isWhitespace c = true := by
  unfold isMessage slashParse slashPartial
  cases hSlash : afterSlash text with
  | none => simp
  | some rest =>
      cases rest with
      | nil =>
          refine ⟨fun h => (nomatch h), fun h => ?_⟩
          obtain ⟨_, _, hEq, _⟩ := h [] rfl
          cases hEq
      | cons c more =>
          have hFirst :
              (∀ rest, some (c :: more) = some rest →
                ∃ d tail, rest = d :: tail ∧
                  isWhitespace d = true) ↔
                isWhitespace c = true := by
            constructor
            · intro h
              obtain ⟨_, _, hEq, hBlank⟩ := h _ rfl
              cases hEq
              exact hBlank
            · intro hBlank _ hEq
              exact
                ⟨c, more, (Option.some.inj hEq).symm, hBlank⟩
          rw [hFirst, Option.bind_some, Option.bind_some,
            List.any_cons, List.takeWhile_cons]
          by_cases hBlank : isWhitespace c = true
          · simp [hBlank]
          · simp [hBlank]

theorem afterSlash_append
    {text : Text}
    (hSays : Says text)
    (line : Text) :
    afterSlash (text ++ '\n' :: line) =
      (afterSlash text).map (· ++ '\n' :: line) := by
  unfold afterSlash
  rw [dropWhile_append_ne _ hSays]
  cases hRest : text.dropWhile isWhitespace with
  | nil => exact absurd hRest hSays
  | cons c rest =>
      simp only [List.cons_append]
      by_cases hSlash : c = '/'
      · subst hSlash
        rfl
      · split
        · rename_i hEq
          exact absurd (List.cons.inj hEq).1 hSlash
        · split
          · rename_i hEq
            exact absurd (List.cons.inj hEq).1 hSlash
          · rfl

/- A message with a line joined to it is still a message. -/
theorem isMessage_join
    {text : Text}
    (hSays : Says text)
    (hMessage : isMessage text = true)
    (line : Text) :
    isMessage (text ++ '\n' :: line) = true := by
  rw [isMessage_iff] at hMessage ⊢
  intro rest hRest
  rw [afterSlash_append hSays, Option.map_eq_some_iff] at hRest
  obtain ⟨first, hFirst, rfl⟩ := hRest
  obtain ⟨c, more, rfl, hBlank⟩ := hMessage first hFirst
  exact ⟨c, more ++ '\n' :: line, rfl, hBlank⟩

------------------------------------------------------------
-- Keys Of Two Runs
------------------------------------------------------------

/- A recipient's name, without its sigil. -/
def Addressed.name : Addressed → Text
| .agent n => n
| .group n => n

theorem name_nameAfter
    {kind : Text → Addressed}
    {rest tail : Text}
    {recipient : Addressed}
    (hKind : ∀ n, (kind n).name = n)
    (hName : nameAfter kind rest = some (recipient, tail)) :
    ' ' ∉ recipient.name := by
  have hTake : ' ' ∉ rest.takeWhile isNameChar := by
    intro hMem
    have hSpace := List.mem_takeWhile_imp hMem
    revert hSpace
    decide
  unfold nameAfter at hName
  simp only at hName
  split at hName
  · cases hName
  · split at hName
    · cases hName
      rwa [hKind]
    · split at hName
      · cases hName
        rwa [hKind]
      · cases hName

/- The names a line is addressed to hold no space. -/
theorem name_addressed
    {rest : Text}
    {recipient : Addressed}
    (hMem : recipient ∈ addressed rest) :
    ' ' ∉ recipient.name := by
  induction hLength : rest.length using Nat.strong_induction_on
    generalizing rest with
  | h n ih =>
    subst hLength
    cases hMention : mention rest with
    | none =>
        rw [addressed_of_none hMention] at hMem
        cases hMem
    | some found =>
        obtain ⟨first, tail⟩ := found
        rw [addressed_of_some hMention] at hMem
        rcases List.mem_cons.mp hMem with rfl | hTail
        · unfold mention at hMention
          split at hMention
          · exact name_nameAfter (fun _ => rfl) hMention
          · exact name_nameAfter (fun _ => rfl) hMention
          · cases hMention
        · exact ih tail.length (length_mention hMention)
            hTail rfl

section Keys

variable {lower : Text → Text}

/- Folding a name's case brings no space into it. -/
def KeepsSpace
    (lower : Text → Text) : Prop :=
  ∀ name, ' ' ∉ name → ' ' ∉ lower name

theorem key_no_space
    (hLower : KeepsSpace lower)
    {recipient : Addressed}
    (hName : ' ' ∉ recipient.name) :
    ' ' ∉ recipient.key lower := by
  cases recipient with
  | agent n => simpa [Addressed.key] using hLower n hName
  | group n => simpa [Addressed.key] using hLower n hName

/- The names of a key are read back from its text. -/
theorem intercalate_injective
    {first second : List Text}
    (hFirst : ∀ t ∈ first, ' ' ∉ t)
    (hSecond : ∀ t ∈ second, ' ' ∉ t)
    (hNeFirst : first ≠ [])
    (hNeSecond : second ≠ [])
    (hEq : [' '].intercalate first = [' '].intercalate second) :
    first = second := by
  rw [← List.splitOn_intercalate ' ' hFirst hNeFirst, hEq,
    List.splitOn_intercalate ' ' hSecond hNeSecond]

/- A room without spaces ends where the names start. -/
theorem room_append_inj
    {first second : Text}
    {firstNames secondNames : Text}
    (hFirst : ' ' ∉ first)
    (hSecond : ' ' ∉ second)
    (hEq :
      first ++ ' ' :: firstNames =
        second ++ ' ' :: secondNames) :
    firstNames = secondNames := by
  have hTail := fun (room names : Text) (h : ' ' ∉ room) =>
    show (room ++ ' ' :: names).dropWhile (· != ' ') =
        ' ' :: names by
      rw [List.dropWhile_append_of_pos
          (fun c hMem => by
            simpa using fun hC : c = ' ' => h (hC ▸ hMem)),
        List.dropWhile_cons_of_neg (by simp)]
  have hBoth := congrArg (List.dropWhile (· != ' ')) hEq
  rw [hTail _ _ hFirst, hTail _ _ hSecond] at hBoth
  exact (List.cons.inj hBoth).2

/- The names in a key, in order and once each. -/
def listed
    (lower : Text → Text)
    (recipients : List Addressed) : List Text :=
  SortDedup.sorted (recipients.map (Addressed.key lower))

theorem listed_append
    {first second : List Addressed}
    (hEq : listed lower first = listed lower second) :
    listed lower (first ++ second) = listed lower first := by
  refine SortDedup.sorted_congr fun name => ?_
  have hMem : ∀ recipients,
      name ∈ listed lower recipients ↔
        name ∈ recipients.map (Addressed.key lower) :=
    fun _ => SortDedup.mem_sorted
  rw [List.map_append, List.mem_append, ← hMem first,
    ← hMem second, hEq, or_self]

theorem listed_ne_nil
    {recipients : List Addressed}
    (hNe : recipients ≠ []) :
    listed lower recipients ≠ [] := by
  cases recipients with
  | nil => exact absurd rfl hNe
  | cons first rest =>
      refine List.ne_nil_of_mem (a := first.key lower) ?_
      exact SortDedup.mem_sorted.mpr (by simp)

theorem listed_no_space
    (hLower : KeepsSpace lower)
    {recipients : List Addressed}
    (hNames : ∀ r ∈ recipients, ' ' ∉ r.name) :
    ∀ t ∈ listed lower recipients, ' ' ∉ t := by
  intro t hMem
  obtain ⟨r, hR, rfl⟩ :=
    List.mem_map.mp (SortDedup.mem_sorted.mp hMem)
  exact key_no_space hLower (hNames r hR)

/- The three ways a line with recipients is sent. -/
inductive Kind
| within
| post
| direct
deriving DecidableEq

def kind
    (recipients : List Addressed)
    (inChannel : Bool) : Kind :=
  if inChannel && recipients.all Addressed.isAgent then
    .within
  else if recipients.all Addressed.isGroup then .post
  else .direct

/- What stands before the names in a key. -/
def Kind.head
    (lower : Text → Text)
    (scope : Text) : Kind → Text
| .within => "in #".toList ++ lower scope ++ [' ']
| .post => "post ".toList
| .direct => "to ".toList

theorem routeKey_eq
    {recipients : List Addressed}
    (hNe : recipients ≠ [])
    (scope : Text)
    (inChannel : Bool) :
    routeKey lower recipients scope inChannel =
      (kind recipients inChannel).head lower scope ++
        [' '].intercalate (listed lower recipients) := by
  unfold routeKey kind
  rw [if_neg (by simpa using hNe)]
  by_cases hIn :
      (inChannel && recipients.all Addressed.isAgent) = true
  · rw [if_pos hIn, if_pos hIn]
    simp [Kind.head, listed]
  · rw [if_neg hIn, if_neg hIn]
    split
    · rfl
    · rfl

/- One key: one way to send, to the same names. -/
theorem routeKey_inj
    (hLower : KeepsSpace lower)
    {first second : List Addressed}
    {firstScope secondScope : Text}
    {firstIn secondIn : Bool}
    (hFirst : ∀ r ∈ first, ' ' ∉ r.name)
    (hSecond : ∀ r ∈ second, ' ' ∉ r.name)
    (hNeFirst : first ≠ [])
    (hNeSecond : second ≠ [])
    (hFirstScope : ' ' ∉ firstScope)
    (hSecondScope : ' ' ∉ secondScope)
    (hEq :
      routeKey lower first firstScope firstIn =
        routeKey lower second secondScope secondIn) :
    kind first firstIn = kind second secondIn ∧
      listed lower first = listed lower second := by
  have hNames :=
    intercalate_injective (listed_no_space hLower hFirst)
      (listed_no_space hLower hSecond)
      (listed_ne_nil hNeFirst) (listed_ne_nil hNeSecond)
  rw [routeKey_eq hNeFirst, routeKey_eq hNeSecond] at hEq
  -- The words before the names tell the three ways apart.
  generalize kind first firstIn = firstKind at hEq ⊢
  generalize kind second secondIn = secondKind at hEq ⊢
  cases firstKind <;> cases secondKind
  case within.within =>
    refine ⟨rfl, hNames ?_⟩
    simp only [Kind.head, List.append_assoc,
      List.singleton_append, List.append_cancel_left_eq] at hEq
    exact room_append_inj (hLower _ hFirstScope)
      (hLower _ hSecondScope) hEq
  case post.post =>
    exact ⟨rfl, hNames (List.append_cancel_left hEq)⟩
  case direct.direct =>
    exact ⟨rfl, hNames (List.append_cancel_left hEq)⟩
  all_goals simp [Kind.head] at hEq

theorem kind_append
    {first second : List Addressed}
    {firstIn secondIn : Bool}
    (hKind : kind first firstIn = kind second secondIn) :
    kind (first ++ second) firstIn = kind first firstIn := by
  unfold kind at hKind ⊢
  simp only [List.all_append, Bool.and_eq_true] at hKind ⊢
  split_ifs at hKind ⊢ <;> first | rfl | (exfalso; tauto)

/-
  The recipients of two lines of one key, together: the key
  again.
-/
theorem routeKey_append
    (hLower : KeepsSpace lower)
    {first second : List Addressed}
    {firstScope secondScope : Text}
    {firstIn secondIn : Bool}
    (hFirst : ∀ r ∈ first, ' ' ∉ r.name)
    (hSecond : ∀ r ∈ second, ' ' ∉ r.name)
    (hNeFirst : first ≠ [])
    (hNeSecond : second ≠ [])
    (hFirstScope : ' ' ∉ firstScope)
    (hSecondScope : ' ' ∉ secondScope)
    (hEq :
      routeKey lower first firstScope firstIn =
        routeKey lower second secondScope secondIn) :
    routeKey lower (first ++ second) firstScope firstIn =
      routeKey lower first firstScope firstIn := by
  obtain ⟨hKind, hListed⟩ :=
    routeKey_inj hLower hFirst hSecond hNeFirst hNeSecond
      hFirstScope hSecondScope hEq
  rw [routeKey_eq (List.append_ne_nil_of_left_ne_nil hNeFirst _),
    routeKey_eq hNeFirst, kind_append hKind,
    listed_append hListed]

------------------------------------------------------------
-- Destinations Of Two Lines
------------------------------------------------------------

/- A view whose channel's name holds no space. -/
def Tab.Plain
    (tab : Tab) : Prop :=
  ' ' ∉ sendScope tab

/- An unaddressed message in a conversation goes to it. -/
def goesDirect
    (text : Text)
    (fg : Tab) : Option Text :=
  match fg with
  | .dm member =>
      if (parseAddressed text).isEmpty && isMessage text then
        some member
      else none
  | _ => none

theorem destination_eq
    (text : Text)
    (fg : Tab) :
    destination lower text fg =
      match goesDirect text fg with
      | some member => some ("dm ".toList ++ member)
      | none =>
          route lower text (sendScope fg) fg.isChannel := by
  cases fg with
  | dm member =>
      unfold destination goesDirect
      simp only
      by_cases hDirect :
          ((parseAddressed text).isEmpty &&
            isMessage text) = true
      · rw [if_pos hDirect, if_pos hDirect]
      · rw [if_neg hDirect, if_neg hDirect]
  | merged => rfl
  | channel name => rfl
  | review member => rfl

/-
  What is addressed goes by its recipients from any view; what
  is not goes by the view alone.
-/
theorem destination_of_addressed
    {text : Text}
    {fg : Tab}
    {dest : Text}
    (hDest : destination lower text fg = some dest)
    (hNe : parseAddressed text ≠ []) :
    isMessage text = true ∧
      routeKey lower (parseAddressed text) (sendScope fg)
        fg.isChannel = dest := by
  have hDirect : goesDirect text fg = none := by
    cases fg with
    | dm member =>
        simp [goesDirect, hNe]
    | merged => rfl
    | channel name => rfl
    | review member => rfl
  rw [destination_eq, hDirect] at hDest
  simp only [route] at hDest
  split at hDest
  · rename_i hMessage
    exact ⟨hMessage, Option.some.inj hDest⟩
  · cases hDest

theorem destination_isMessage
    {text : Text}
    {fg : Tab}
    {dest : Text}
    (hDest : destination lower text fg = some dest) :
    isMessage text = true := by
  by_contra hNot
  rw [destination_eq] at hDest
  have hDirect : goesDirect text fg = none := by
    cases fg <;> simp [goesDirect, hNot]
  rw [hDirect] at hDest
  simp [route, hNot] at hDest

/- Two messages to the same recipients go the same way. -/
theorem destination_congr
    {first second : Text}
    (hFirst : isMessage first = true)
    (hSecond : isMessage second = true)
    (hSame : parseAddressed first = parseAddressed second)
    (fg : Tab) :
    destination lower first fg =
      destination lower second fg := by
  cases fg <;>
    simp [destination, route, hFirst, hSecond, hSame]

/-
  A line joined to a message held for one route is still held
  for that route, in the view the message was written in.
-/
theorem destination_join
    (hLower : KeepsSpace lower)
    {first second : Text}
    {firstTab secondTab : Tab}
    {dest : Text}
    (hSays : Says first)
    (hFirstPlain : firstTab.Plain)
    (hSecondPlain : secondTab.Plain)
    (hFirst : destination lower first firstTab = some dest)
    (hSecond : destination lower second secondTab = some dest) :
    destination lower (first ++ '\n' :: second) firstTab =
      some dest := by
  have hMessage := destination_isMessage hFirst
  have hJoined := isMessage_join hSays hMessage second
  obtain ⟨more, hMore, hEither, hNone⟩ :=
    parseAddressed_join hSays second
  by_cases hNil : more = []
  · -- The second line's mentions are not read, or are none.
    rw [hNil, List.append_nil] at hMore
    rw [destination_congr hJoined hMessage hMore, hFirst]
  · have hAdded : more = parseAddressed second :=
      hEither.resolve_left hNil
    subst hAdded
    have hNe : parseAddressed first ≠ [] :=
      fun h => hNil (hNone h)
    obtain ⟨-, hFirstKey⟩ := destination_of_addressed hFirst hNe
    obtain ⟨-, hSecondKey⟩ :=
      destination_of_addressed hSecond hNil
    have hNames : ∀ text : Text,
        ∀ r ∈ parseAddressed text, ' ' ∉ r.name :=
      fun text r hMem =>
        name_addressed (by rwa [parseAddressed_eq] at hMem)
    have hKey :=
      routeKey_append hLower (hNames first) (hNames second) hNe
        hNil hFirstPlain hSecondPlain
        (hFirstKey.trans hSecondKey.symm)
    rw [destination_eq]
    have hDirect :
        goesDirect (first ++ '\n' :: second) firstTab =
          none := by
      cases firstTab with
      | dm member => simp [goesDirect, hMore, hNe]
      | merged => rfl
      | channel name => rfl
      | review member => rfl
    simp only [hDirect, route, hJoined, if_true, hMore, hKey,
      hFirstKey]

end Keys

end Chat
