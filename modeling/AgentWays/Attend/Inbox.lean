import AgentWays.Lib.Paging
import AgentWays.Attend.Peers
import Mathlib.Data.List.Sort

/-
  The inbox: the messages of a session's receive set, paged
  newest first.

  A page names the cursor of the next older one: the second
  its oldest message was written in. Messages are ordered by
  the full time of their files, then by send order and id, so
  messages of one second can stand on two pages.

  Key definitions include:
    * `Attend.Message`
    * `Attend.messageOf`
    * `Attend.InboxPage`
    * `Attend.list`
    * `Attend.Follows`

  Main declarations:
    * `Attend.pages_whole`
    * `Attend.inbox_paging`
-/

------------------------------------------------------------
-- Messages
------------------------------------------------------------

namespace Attend

open RustText

/- Which page to list; page 1 is the newest `limit`. -/
structure InboxQuery where
  limit : Nat
  page : Nat
  before : Option Nat
deriving DecidableEq

/- One message from a peer, its time in nanoseconds. -/
structure Message where
  id : String
  scope : String
  sender : String
  fromField : String
  source : String
  message : String
  re : Option String
  ts : Nat
  mtime : Int
deriving DecidableEq

structure InboxPage where
  page : Nat
  limit : Nat
  total : Nat
  pages : Nat
  older : Nat
  cursor : Option Nat
  messages : List Message
deriving DecidableEq

/- What a listing reads; a file with no time has time 0. -/
structure InboxEnv where
  dirs : List ReceiveDir
  ids : List String
  marks : Marks
  senderLabel : String → String → String
  modified : SignalFile → Int

/- Seconds since the epoch, 0 before it. -/
def mtimeSecs
    (t : Int) : Nat :=
  (t / 10 ^ 9).toNat

/- `Marks::hides_sender` for a file of any time. -/
def Marks.hidesSenderAt
    (m : Marks)
    (sender : String)
    (sent : Int) : Bool :=
  ((m.sessions.find? (fun s => s.1 = sender)).map
    (fun s => decide (sent ≤ s.2))).getD false

def scopeOf : Room → String
| .openRoom => "#open"
| .project => "project"
| .channel _ => "channel"

def Message.ofSignal
    (env : InboxEnv)
    (room : Room)
    (f : SignalFile)
    (sig : ParsedSignal) : Message where
  id := fileStem f.name
  scope := scopeOf room
  sender := env.senderLabel sig.fromField sig.cwd
  fromField := sig.fromField
  source := sig.cwd
  message := sig.message
  re := sig.replyTo
  ts := mtimeSecs (env.modified f)
  mtime := env.modified f

/- The message a file of the receive set is, if it is one. -/
def messageOf
    (env : InboxEnv)
    (room : Room)
    (f : SignalFile) : Option Message :=
  if !endsWith f.name ".signal" || f.name = ".signal" then none
  else if env.marks.hides (seenKey f.name) then none
  else
    match readSignalFile f with
    | .error _ => none
    | .ok content =>
        match parseSignal (wireLine content) with
        | none => none
        | some sig =>
            if env.marks.hidesSenderAt sig.senderId
                (env.modified f) then none
            else if sig.isOwn env.ids then none
            else if room.isTray && !sig.trayReads env.ids then
              none
            else some (Message.ofSignal env room f sig)

/- The messages of the receive set. -/
def received
    (env : InboxEnv)
    (files : List SignalFile) : List Message :=
  (receiveFiles env.dirs files).filterMap
    (fun c => messageOf env c.1 c.2)

/- Oldest first, then by send order and id. -/
def Message.sortKey
    (m : Message) : Int ×ₗ (Nat ×ₗ Nat) ×ₗ String :=
  toLex (m.mtime, toLex (toLex (signalSendOrder m.id), m.id))

end Attend

------------------------------------------------------------
-- Pages
------------------------------------------------------------

namespace Attend

/- Whether a message is older than a cursor. -/
def Message.isBefore
    (m : Message) : Option Nat → Bool
| none => true
| some ts => decide (m.ts < ts)

/- The messages in order, those older than `before`. -/
def ledger
    (env : InboxEnv)
    (files : List SignalFile)
    (before : Option Nat) : List Message :=
  ((received env files).insertionSort
    (fun a b => a.sortKey ≤ b.sortKey)).filter
      (fun m => m.isBefore before)

/- `list`: one page of the ledger. -/
def list
    (env : InboxEnv)
    (files : List SignalFile)
    (query : InboxQuery) : InboxPage :=
  let messages := ledger env files query.before
  let limit := max query.limit 1
  let page := max query.page 1
  let total := messages.length
  let shown := Paging.page messages limit page
  { page := page
    limit := limit
    total := total
    pages := Paging.count total limit
    older := Paging.startOf total limit page
    cursor := shown.head?.map Message.ts
    messages := shown }

/- Page 1 before a cursor. -/
def pageBefore
    (env : InboxEnv)
    (files : List SignalFile)
    (limit : Nat)
    (before : Option Nat) : InboxPage :=
  list env files ⟨limit, 1, before⟩

/- Page after page by the cursor, while there is an older one. -/
inductive Follows
    (env : InboxEnv)
    (files : List SignalFile)
    (limit : Nat) : Option Nat → List InboxPage → Prop
| last
    {before : Option Nat}
    (hOlder : (pageBefore env files limit before).older = 0) :
    Follows env files limit before
      [pageBefore env files limit before]
| next
    {before : Option Nat}
    {pages : List InboxPage}
    (hOlder : (pageBefore env files limit before).older ≠ 0)
    (hRest :
      Follows env files limit
        (pageBefore env files limit before).cursor pages) :
    Follows env files limit before
      (pageBefore env files limit before :: pages)

variable {env : InboxEnv} {files : List SignalFile}
variable {limit : Nat} {before : Option Nat}
variable {pages : List InboxPage}

theorem mtimeSecs_mono
    {s t : Int}
    (hLe : s ≤ t) :
    mtimeSecs s ≤ mtimeSecs t :=
  Int.toNat_le_toNat
    (Int.ediv_le_ediv (by decide) hLe)

/- A message's second is that of its file's time. -/
theorem ts_of_mem_received
    {m : Message}
    (hMem : m ∈ received env files) :
    m.ts = mtimeSecs m.mtime := by
  unfold received at hMem
  rcases List.mem_filterMap.mp hMem with ⟨c, -, hMessage⟩
  unfold messageOf at hMessage
  split at hMessage
  · cases hMessage
  · split at hMessage
    · cases hMessage
    · split at hMessage
      · cases hMessage
      · split at hMessage
        · cases hMessage
        · split at hMessage
          · cases hMessage
          · split at hMessage
            · cases hMessage
            · split at hMessage
              · cases hMessage
              · cases hMessage
                rfl

theorem mtime_le_of_sortKey
    {a b : Message}
    (hLe : a.sortKey ≤ b.sortKey) :
    a.mtime ≤ b.mtime := by
  unfold Message.sortKey at hLe
  rcases Prod.Lex.toLex_le_toLex.mp hLe with
    hLess | ⟨hSame, -⟩
  · exact le_of_lt hLess
  · exact le_of_eq hSame

theorem ledger_perm
    (env : InboxEnv)
    (files : List SignalFile)
    (before : Option Nat) :
    (ledger env files before).Perm
      ((received env files).filter
        (fun m => m.isBefore before)) :=
  (List.perm_insertionSort _ _).filter _

theorem ledger_sorted
    (env : InboxEnv)
    (files : List SignalFile)
    (before : Option Nat) :
    (ledger env files before).Pairwise
      (fun a b => a.sortKey ≤ b.sortKey) :=
  (List.pairwise_insertionSort _ _).filter _

/- The seconds of the ledger never go back. -/
theorem ledger_ts
    (env : InboxEnv)
    (files : List SignalFile)
    (before : Option Nat) :
    (ledger env files before).Pairwise
      (fun a b => a.ts ≤ b.ts) := by
  apply (ledger_sorted env files before).imp_of_mem
  intro a b hA hB hLe
  have hMem :
      ∀ m ∈ ledger env files before, m ∈ received env files :=
    fun m hIn =>
      (List.mem_filter.mp
        ((ledger_perm env files before).mem_iff.mp hIn)).1
  rw [ts_of_mem_received (hMem a hA),
    ts_of_mem_received (hMem b hB)]
  exact mtimeSecs_mono (mtime_le_of_sortKey hLe)

theorem messages_pageBefore
    (env : InboxEnv)
    (files : List SignalFile)
    (hLimit : 0 < limit)
    (before : Option Nat) :
    (pageBefore env files limit before).messages =
      Paging.page (ledger env files before) limit 1 := by
  unfold pageBefore list
  dsimp only
  rw [Nat.max_eq_left hLimit, Nat.max_self]

theorem older_pageBefore
    (env : InboxEnv)
    (files : List SignalFile)
    (hLimit : 0 < limit)
    (before : Option Nat) :
    (pageBefore env files limit before).older =
      (ledger env files before).length - limit := by
  unfold pageBefore list Paging.startOf Paging.endOf
  dsimp only
  rw [Nat.max_eq_left hLimit, Nat.max_self, Nat.sub_self,
    Nat.zero_mul, Nat.sub_zero]

/- A cursor leaves what is older of what was left. -/
theorem ledger_cursor
    (hLimit : 0 < limit)
    (hMore : limit < (ledger env files before).length) :
    ledger env files (pageBefore env files limit before).cursor =
      Paging.rest Message.ts limit
        (ledger env files before) := by
  rcases Paging.exists_split hLimit hMore with
    ⟨older, a, b, newer, hSplit, -, hPage⟩
  have hCursor :
      (pageBefore env files limit before).cursor =
        some b.ts := by
    have hMessages := messages_pageBefore env files hLimit before
    have hDef :
        (pageBefore env files limit before).cursor =
          (pageBefore env files limit
            before).messages.head?.map Message.ts := rfl
    rw [hDef, hMessages, hPage]
    rfl
  rw [hCursor, Paging.rest_of_split hPage]
  unfold ledger
  rw [List.filter_filter]
  apply List.filter_congr
  intro m _
  have hB : b.isBefore before = true := by
    have hIn : b ∈ ledger env files before := by
      rw [hSplit]
      simp
    exact (List.mem_filter.mp hIn).2
  cases before with
  | none => simp [Message.isBefore]
  | some ts =>
      unfold Message.isBefore at hB ⊢
      simp only [decide_eq_true_eq] at hB
      by_cases hLess : m.ts < b.ts
      · simp [hLess, Nat.lt_trans hLess hB]
      · simp [hLess]

end Attend

------------------------------------------------------------
-- Every Message Once
------------------------------------------------------------

namespace Attend

variable {env : InboxEnv} {files : List SignalFile}
variable {limit : Nat} {before : Option Nat}
variable {pages : List InboxPage}

/- All pages, the last first, are the ledger. -/
theorem pages_whole
    (env : InboxEnv)
    (files : List SignalFile)
    (hLimit : 0 < limit)
    (before : Option Nat) :
    (List.range
        (pageBefore env files limit before).pages).reverse.flatMap
        (fun j =>
          (list env files ⟨limit, j + 1, before⟩).messages) =
      ledger env files before := by
  have hMax : max limit 1 = limit := Nat.max_eq_left hLimit
  have hCount :
      (pageBefore env files limit before).pages =
        Paging.count (ledger env files before).length
          limit := by
    unfold pageBefore list
    dsimp only
    rw [hMax]
  have hPage :
      ∀ j,
        (list env files ⟨limit, j + 1, before⟩).messages =
          Paging.page (ledger env files before) limit
            (j + 1) := by
    intro j
    unfold list
    dsimp only
    rw [hMax, Nat.max_eq_left (Nat.succ_pos j)]
  rw [hCount]
  simp only [hPage]
  exact Paging.flatMap_pages_count _ hLimit

/- Following the cursor walks through the ledger. -/
theorem walk_of_follows
    (hLimit : 0 < limit)
    (hFollows : Follows env files limit before pages) :
    Paging.Walk Message.ts limit (ledger env files before)
      (pages.map InboxPage.messages) := by
  induction hFollows with
  | last hOlder =>
      rename_i before
      rw [older_pageBefore env files hLimit] at hOlder
      rw [List.map_singleton,
        messages_pageBefore env files hLimit]
      exact .last (Nat.sub_eq_zero_iff_le.mp hOlder)
  | next hOlder hRest ih =>
      rename_i before pages
      rw [older_pageBefore env files hLimit] at hOlder
      have hMore :
          limit < (ledger env files before).length := by
        omega
      rw [ledger_cursor hLimit hMore] at ih
      rw [List.map_cons, messages_pageBefore env files hLimit]
      exact .next hMore ih

/- Following the cursor comes to an end. -/
theorem exists_follows
    (env : InboxEnv)
    (files : List SignalFile)
    (hLimit : 0 < limit)
    (before : Option Nat) :
    ∃ pages, Follows env files limit before pages := by
  induction hLength : (ledger env files before).length
    using Nat.strong_induction_on generalizing before with
  | h n ih =>
      by_cases hOlder :
          (pageBefore env files limit before).older = 0
      · exact ⟨_, .last hOlder⟩
      · have hMore :
            limit < (ledger env files before).length := by
          rw [older_pageBefore env files hLimit] at hOlder
          omega
        have hLess :
            (Paging.rest Message.ts limit
              (ledger env files before)).length <
                (ledger env files before).length :=
          Paging.length_rest_lt hLimit hMore
        rw [← ledger_cursor hLimit hMore, hLength] at hLess
        rcases ih _ hLess _ rfl with ⟨pages, hRest⟩
        exact ⟨_, .next hOlder hRest⟩

theorem listed_messages
    (pages : List InboxPage) :
    Paging.listed (pages.map InboxPage.messages) =
      pages.reverse.flatMap InboxPage.messages := by
  unfold Paging.listed
  rw [← List.map_reverse, List.flatMap_def]

/-
  The numbered pages hold every message once, in order. The
  pages by the cursor do just where no page begins between
  two messages of one second.
-/
theorem inbox_paging
    (env : InboxEnv)
    (files : List SignalFile)
    (limit : Nat)
    (hLimit : 0 < limit) :
    (∀ before,
      ((List.range
          (pageBefore env files limit
            before).pages).reverse.flatMap
          (fun j =>
            (list env files
              ⟨limit, j + 1, before⟩).messages)).Perm
          ((received env files).filter
            (fun m => m.isBefore before)) ∧
        ((List.range
            (pageBefore env files limit
              before).pages).reverse.flatMap
            (fun j =>
              (list env files
                ⟨limit, j + 1, before⟩).messages)).Pairwise
            (fun a b => a.sortKey ≤ b.sortKey)) ∧
      (∃ pages, Follows env files limit none pages) ∧
        ∀ pages,
          Follows env files limit none pages →
            ((pages.reverse.flatMap InboxPage.messages).Perm
                (received env files) ↔
              Paging.Separated Message.ts limit
                (ledger env files none)) := by
  refine ⟨?_, exists_follows env files hLimit none, ?_⟩
  · intro before
    rw [pages_whole env files hLimit before]
    exact
      ⟨ledger_perm env files before,
        ledger_sorted env files before⟩
  · intro pages hFollows
    have hAll :
        (ledger env files none).Perm (received env files) := by
      have hPerm := ledger_perm env files none
      have hEvery :
          (received env files).filter
              (fun m => m.isBefore none) =
            received env files :=
        List.filter_eq_self.mpr (fun _ _ => rfl)
      rwa [hEvery] at hPerm
    rw [← listed_messages,
      ← Paging.walk_perm_iff hLimit
        (ledger_ts env files none)
        (walk_of_follows hLimit hFollows)]
    exact
      ⟨fun hPerm => hPerm.trans hAll.symm,
        fun hPerm => hPerm.trans hAll⟩

/- Two messages from one peer in `#open`. -/
def openInbox : InboxEnv where
  dirs := [⟨"_open", .openRoom⟩]
  ids := ["me"]
  marks := { messages := [], sessions := [] }
  senderLabel := fun fromField _ => fromField
  modified := fun f => f.mtime

def openFiles
    (first second : Nat) : List SignalFile :=
  [{ dir := "_open"
     name := "a-1-0.signal"
     content := .text "claude:a|p|/x|one"
     mtime := first },
    { dir := "_open"
      name := "a-2-0.signal"
      content := .text "claude:a|p|/x|two"
      mtime := second }]

theorem openInbox_paging :
    ∃ pages,
      Follows openInbox (openFiles 1000000000 2000000000) 1
          none pages ∧
        (pages.reverse.flatMap InboxPage.messages).Perm
          (received openInbox
            (openFiles 1000000000 2000000000)) := by
  have hPaging :=
    inbox_paging openInbox (openFiles 1000000000 2000000000) 1
      (by decide)
  rcases hPaging.2.1 with ⟨pages, hFollows⟩
  refine
    ⟨pages, hFollows, (hPaging.2.2 pages hFollows).mpr ?_⟩
  have hLedger :
      (ledger openInbox (openFiles 1000000000 2000000000)
        none).map Message.ts = [1, 2] := by
    decide
  intro older a b newer hSplit _
  rw [hSplit, List.map_append, List.map_cons,
    List.map_cons] at hLedger
  cases older with
  | nil =>
      simp only [List.map_nil, List.nil_append,
        List.cons.injEq] at hLedger
      rw [hLedger.1, hLedger.2.1]
      decide
  | cons m older =>
      have hCount := congrArg List.length hLedger
      simp at hCount
      omega

/- Of two messages of one second the cursor skips the older. -/
theorem not_inbox_cursor :
    ¬ ∀ (env : InboxEnv) (files : List SignalFile)
        (limit : Nat) (pages : List InboxPage),
      0 < limit → Follows env files limit none pages →
        (pages.reverse.flatMap InboxPage.messages).Perm
          (received env files) := by
  intro hAll
  have hTwo :
      (pageBefore openInbox (openFiles 1000000000 1000000001)
          1 none).older ≠ 0 ∧
        (pageBefore openInbox
          (openFiles 1000000000 1000000001) 1
          (pageBefore openInbox
            (openFiles 1000000000 1000000001) 1
            none).cursor).older = 0 := by
    decide
  have hPerm :=
    hAll openInbox (openFiles 1000000000 1000000001) 1 _
      (by decide) (.next hTwo.1 (.last hTwo.2))
  have hCount := hPerm.length_eq
  revert hCount
  decide

end Attend
