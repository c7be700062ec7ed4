import AgentWays.Attend.Reply
import AgentWays.Lib.TextSpec

/-
  A reply stays in the room it answers.

  Whatever the parent's room is told from, the destination is
  that channel with this session in it, a direct message, or
  a refusal; it is never `#open`.

  Key definitions include:
    * `Attend.Answers`
    * `Attend.StaysIn`
    * `Attend.NotOpen`

  Main declarations:
    * `Attend.stays_of_file`
    * `Attend.notOpen_of_reply`
    * `Attend.reply_keeps_room`
-/

------------------------------------------------------------
-- Directories
------------------------------------------------------------

namespace Attend

variable {env : ReplyEnv} {name name' file dir : String}

theorem groupDir_inj
    (hSame : groupDir name = groupDir name') :
    name = name' := by
  have hChars := congrArg String.toList hSame
  unfold groupDir at hChars
  rw [String.toList_append, String.toList_append] at hChars
  exact String.toList_inj.mp (List.append_cancel_left hChars)

theorem keyChar_attendKey
    (p : String) :
    ∀ c ∈ (Sessions.attendKey p).toList, Sessions.KeyChar c := by
  by_cases hPath : p = ""
  · subst hPath
    intro c hMem
    cases hMem
  · rw [Sessions.attendKey_eq hPath]
    exact
      Sessions.keyChar_append (Sessions.keyChar_slug p)
        Sessions.isAlphanum_base36

/- A tray's name is no channel's and not `#open`'s. -/
theorem attendKey_ne
    {c : Char}
    (hMem : c ∈ dir.toList)
    (hOther : ¬ Sessions.KeyChar c)
    (p : String) :
    Sessions.attendKey p ≠ dir := by
  rintro rfl
  exact hOther (keyChar_attendKey p c hMem)

theorem attendKey_ne_groupDir
    (p name : String) :
    Sessions.attendKey p ≠ groupDir name := by
  apply attendKey_ne (c := '@')
  · unfold groupDir
    rw [String.toList_append]
    exact List.mem_append_left _ (by decide)
  · unfold Sessions.KeyChar
    decide

theorem attendKey_ne_broadcastDir
    (p : String) :
    Sessions.attendKey p ≠ broadcastDir := by
  apply attendKey_ne (c := '_')
  · decide
  · unfold Sessions.KeyChar
    decide

theorem head?_toList_append
    {s t : String}
    {c : Char}
    (hHead : s.toList.head? = some c) :
    (s ++ t).toList.head? = some c := by
  rw [String.toList_append, List.head?_append, hHead]
  rfl

theorem groupDir_ne_broadcastDir
    (name : String) :
    groupDir name ≠ broadcastDir := by
  intro hSame
  have hHead : (groupDir name).toList.head? = some '@' :=
    head?_toList_append (by decide)
  rw [hSame] at hHead
  revert hHead
  decide

theorem personDir_ne_broadcastDir
    (member : String) :
    personDir member ≠ broadcastDir := by
  intro hSame
  have hMem : '/' ∈ (personDir member).toList := by
    unfold personDir
    rw [String.toList_append]
    exact List.mem_append_left _ (by decide)
  rw [hSame] at hMem
  revert hMem
  decide

/- A file is where the listing shows it. -/
theorem mem_dirs_of_isFile
    (hName : name ≠ "")
    (hFile : env.isFile (groupDir name) file = true) :
    groupDir name ∈ env.base.dirs := by
  unfold ReplyEnv.isFile at hFile
  rcases List.any_eq_true.mp hFile with ⟨f, hMem, hBoth⟩
  simp only [Bool.and_eq_true, decide_eq_true_eq] at hBoth
  have hListed := env.base.listed f hMem name hName hBoth.1
  rwa [hBoth.1] at hListed

theorem stripPrefix_groupDir
    (name : String) :
    RustText.stripPrefix (groupDir name) "@" = some name := by
  unfold groupDir
  exact RustText.stripPrefix_append "@" name

theorem eq_groupDir_of_stripPrefix
    (hStrip : RustText.stripPrefix dir "@" = some name) :
    dir = groupDir name := by
  have hChars := RustText.stripPrefix_eq_some hStrip
  apply String.toList_inj.mp
  unfold groupDir
  rw [hChars, String.toList_append]

/- The receive set finds a channel's file in that channel. -/
theorem channel_of_receiveDirs
    {d : ReceiveDir}
    (hOnly :
      ∀ dir, env.isFile dir file = true → dir = groupDir name)
    (hFind :
      env.receiveDirs.find?
        (fun d => env.isFile d.path file) = some d) :
    d.room = .channel name := by
  have hAt : env.isFile d.path file = true := by
    simpa using List.find?_some hFind
  have hHere := hOnly d.path hAt
  have hMem := List.mem_of_find?_eq_some hFind
  unfold ReplyEnv.receiveDirs at hMem
  rcases List.mem_cons.mp hMem with rfl | hMem
  · exact absurd hHere (attendKey_ne_groupDir _ _)
  · rcases List.mem_cons.mp hMem with rfl | hMem
    · exact absurd hHere.symm (groupDir_ne_broadcastDir _)
    · rcases List.mem_map.mp hMem with ⟨n, -, rfl⟩
      rw [groupDir_inj hHere]

theorem channelHolding_eq
    (hName : name ≠ "")
    (hOnly :
      ∀ dir, env.isFile dir file = true ↔ dir = groupDir name) :
    env.channelHolding file = some name := by
  unfold ReplyEnv.channelHolding
  have hThere := (hOnly (groupDir name)).mpr rfl
  cases hFound :
    env.base.dirs.findSome?
      (fun dir =>
        (RustText.stripPrefix dir "@").bind
          (fun name =>
            if name ≠ "" ∧ env.isFile dir file = true then
              some name
            else none)) with
  | none =>
      rw [List.findSome?_eq_none_iff] at hFound
      have hNone :=
        hFound _ (mem_dirs_of_isFile hName hThere)
      rw [stripPrefix_groupDir, Option.bind_some,
        if_pos ⟨hName, hThere⟩] at hNone
      cases hNone
  | some c =>
      rcases List.exists_of_findSome?_eq_some hFound with
        ⟨dir, -, hDir⟩
      rcases Option.bind_eq_some_iff.mp hDir with
        ⟨n, hStrip, hHolds⟩
      split at hHolds
      · rename_i hBoth
        injection hHolds with hSame
        have hGroup := eq_groupDir_of_stripPrefix hStrip
        rw [(hOnly dir).mp hBoth.2] at hGroup
        rw [← hSame, groupDir_inj hGroup]
      · cases hHolds

/- A file that lies nowhere is in no directory looked in. -/
theorem receiveDirs_eq_none
    (hNowhere : ∀ dir, env.isFile dir file = false) :
    env.receiveDirs.find?
      (fun d => env.isFile d.path file) = none := by
  rw [List.find?_eq_none]
  intro d _
  rw [hNowhere d.path]
  decide

theorem channelHolding_eq_none
    (hNowhere : ∀ dir, env.isFile dir file = false) :
    env.channelHolding file = none := by
  unfold ReplyEnv.channelHolding
  rw [List.findSome?_eq_none_iff]
  intro dir _
  rw [Option.bind_eq_none_iff]
  intro n _
  rw [if_neg]
  rintro ⟨-, hFile⟩
  rw [hNowhere dir] at hFile
  cases hFile

end Attend

------------------------------------------------------------
-- Destinations Of Replies
------------------------------------------------------------

namespace Attend

variable {env : ReplyEnv} {name : String} {dest : Dest}

/- The session is a member of the channel. -/
def ReplyEnv.IsMember
    (env : ReplyEnv)
    (name : String) : Prop :=
  ∃ ids, env.members name = some ids ∧ env.sessionId ∈ ids

theorem isMember_of_joined
    (hJoined : name ∈ env.joinedGroupNames) :
    env.IsMember name := by
  unfold ReplyEnv.joinedGroupNames at hJoined
  rcases List.mem_map.mp hJoined with ⟨⟨n, entry⟩, hMem, rfl⟩
  rcases List.mem_filter.mp hMem with ⟨hEntry, hIn⟩
  refine ⟨entry.members, ?_, by simpa using hIn⟩
  unfold ReplyEnv.members
  rw [KeyMap.mem_entries.mp hEntry, Option.map_some]

/- A channel's destination is that channel, joined. -/
theorem channelDest_ok
    {sender : Option Sender}
    (hOk : channelDest env name sender = .ok dest) :
    env.IsMember name ∧ ∃ toField, dest = .channel name toField := by
  unfold channelDest at hOk
  split at hOk
  · cases hOk
  · split at hOk
    · cases hOk
    · rename_i hJoined
      split at hOk
      · cases hOk
      · injection hOk with hDest
        exact
          ⟨isMember_of_joined (not_not.mp hJoined), _, hDest.symm⟩

/- A destination other than `#open`. -/
def Dest.NotOpen
    (d : Dest) : Prop :=
  ∀ toField, d ≠ .openRoom toField

theorem senderDest_notOpen
    {sender : Sender}
    (hOk : senderDest env sender = .ok dest) :
    dest.NotOpen := by
  intro toField hOpen
  subst hOpen
  unfold senderDest at hOk
  split at hOk
  · split at hOk <;> cases hOk
  · dsimp only at hOk
    split at hOk <;> cases hOk
  · cases hOk

theorem resolveProject_notOpen
    {path : String}
    (hOk : resolveProject env path = .ok dest) :
    dest.NotOpen := by
  intro toField hOpen
  subst hOpen
  unfold resolveProject at hOk
  dsimp only at hOk
  split at hOk
  · cases hOk
  · split at hOk <;> cases hOk

theorem channelDest_notOpen
    {sender : Option Sender}
    (hOk : channelDest env name sender = .ok dest) :
    dest.NotOpen := by
  rcases channelDest_ok hOk with ⟨-, to', rfl⟩
  intro toField hOpen
  cases hOpen

theorem saidDest_notOpen
    {room : Option Said}
    {sender : Option Sender}
    (hOk : saidDest env room sender = .ok dest) :
    dest.NotOpen := by
  unfold saidDest at hOk
  split at hOk
  · exact channelDest_notOpen hOk
  · exact senderDest_notOpen hOk
  · cases hOk

theorem recordedDest_notOpen
    {recorded : Option LastInbound}
    (hOk : recordedDest env recorded = .ok dest) :
    dest.NotOpen := by
  unfold recordedDest at hOk
  split at hOk
  · cases hOk
  · split at hOk
    · exact resolveProject_notOpen hOk
    · exact saidDest_notOpen hOk

theorem parentDest_notOpen
    {id : Option String}
    {recorded : Option LastInbound}
    (hOk : parentDest env id recorded = .ok dest) :
    dest.NotOpen := by
  unfold parentDest at hOk
  split at hOk
  · exact recordedDest_notOpen hOk
  · dsimp only at hOk
    split at hOk
    · exact saidDest_notOpen hOk
    · split at hOk
      · exact channelDest_notOpen hOk
      · exact recordedDest_notOpen hOk

end Attend

------------------------------------------------------------
-- Where The Parent Was Said
------------------------------------------------------------

namespace Attend

variable {env : ReplyEnv} {id name : String} {dest : Dest}
variable {recorded : Option LastInbound}

/- The signal of that id lies in the channel and only there. -/
def ReplyEnv.LiesOnlyIn
    (env : ReplyEnv)
    (id name : String) : Prop :=
  ∀ dir,
    env.isFile dir (id ++ ".signal") = true ↔
      dir = groupDir name

def ReplyEnv.LiesNowhere
    (env : ReplyEnv)
    (id : String) : Prop :=
  ∀ dir, env.isFile dir (id ++ ".signal") = false

/- The file decides, in the receive set and out of it. -/
theorem parentDest_of_file
    (hName : name ≠ "")
    (hLies : env.LiesOnlyIn id name) :
    ∃ sender,
      parentDest env (some id) recorded =
        channelDest env name sender := by
  unfold parentDest
  dsimp only
  cases hFind :
    env.receiveDirs.find?
      (fun d => env.isFile d.path (id ++ ".signal")) with
  | some d =>
      have hRoom :=
        channel_of_receiveDirs (fun dir => (hLies dir).mp) hFind
      dsimp only
      rw [hRoom]
      exact ⟨_, rfl⟩
  | none =>
      dsimp only
      rw [channelHolding_eq hName hLies]
      exact ⟨_, rfl⟩

/- With no file the record decides. -/
theorem parentDest_of_nowhere
    (hNowhere : env.LiesNowhere id) :
    parentDest env (some id) recorded =
      recordedDest env recorded := by
  unfold parentDest
  dsimp only
  rw [receiveDirs_eq_none hNowhere,
    channelHolding_eq_none hNowhere]

theorem recordedDest_channel
    {l : LastInbound}
    (hSaid : l.said = some (.channel name)) :
    ∃ sender,
      recordedDest env (some l) = channelDest env name sender := by
  unfold recordedDest
  dsimp only
  rw [hSaid]
  cases l.fromField with
  | none => exact ⟨_, rfl⟩
  | some f => exact ⟨_, rfl⟩

end Attend

------------------------------------------------------------
-- Replies Stay
------------------------------------------------------------

namespace Attend

open RustText

variable {env : ReplyEnv} {req : SendRequest}
variable {id name : String} {out : Replied}

/- The message a reply answers, and the record it goes by. -/
inductive Answers
    (env : ReplyEnv)
    (req : SendRequest) : String → Option LastInbound → Prop
| named
    {re id : String}
    (hRe : req.re = some re)
    (hId : resolveRe env re = .ok id) :
    Answers env req id none
| last
    {l : LastInbound}
    (hRe : req.re = none)
    (hLast : env.last = some l) :
    Answers env req l.id (some l)

/- Every reply written is in the channel, by a member. -/
def StaysIn
    (env : ReplyEnv)
    (req : SendRequest)
    (name : String) : Prop :=
  ∀ out, reply env req = .ok out →
    out.dir = groupDir name ∧ out.sent.scope = "channel" ∧
      env.IsMember name

theorem write_ok
    {dest : Dest}
    {threading : Threading}
    (hOk : write env dest threading req = .ok out) :
    out.dir = dest.tray.1 ∧ out.sent.scope = dest.tray.2.1 := by
  unfold write at hOk
  dsimp only at hOk
  split at hOk
  · cases hOk
  · injection hOk with hOut
    rw [← hOut]
    exact ⟨rfl, rfl⟩

/- A reply written went to its parent's destination. -/
theorem reply_ok
    (hTo : req.toField = none)
    (hChannel : req.channel = none)
    (hOk : reply env req = .ok out) :
    ∃ re threading recorded dest,
      replyTarget env req = .ok (re, threading, recorded) ∧
        parentDest env re recorded = .ok dest ∧
        out.dir = dest.tray.1 ∧
        out.sent.scope = dest.tray.2.1 := by
  unfold reply at hOk
  split at hOk
  · cases hOk
  · split at hOk
    · cases hOk
    · rename_i re threading recorded hTarget
      dsimp only at hOk
      split at hOk
      · cases hOk
      · rw [hTo, hChannel] at hOk
        simp only [Option.isSome_none, Bool.or_self,
          Bool.false_eq_true, if_false] at hOk
        split at hOk
        · cases hOk
        · rename_i dest hDest
          exact
            ⟨re, threading, recorded, dest, hTarget, hDest,
              write_ok hOk⟩

theorem replyTarget_named
    {re : String}
    (hRe : req.re = some re)
    (hId : resolveRe env re = .ok id) :
    replyTarget env req = .ok (some id, .threaded, none) := by
  unfold replyTarget
  rw [hRe]
  dsimp only
  rw [hId]

/- The last message is looked up if its id can be. -/
theorem replyTarget_last
    {l : LastInbound}
    (hRe : req.re = none)
    (hLast : env.last = some l) :
    replyTarget env req =
      if isValidSignalId l.id then
        .ok (some l.id, .threaded, some l)
      else .ok (none, .unthreaded, some l) := by
  unfold replyTarget
  rw [hRe, hLast]

theorem staysIn_of_channelDest
    {re : Option String}
    {threading : Threading}
    {recorded : Option LastInbound}
    (hTo : req.toField = none)
    (hChannel : req.channel = none)
    (hTarget :
      replyTarget env req = .ok (re, threading, recorded))
    (hDest :
      ∃ sender,
        parentDest env re recorded =
          channelDest env name sender) :
    StaysIn env req name := by
  intro out hOk
  rcases reply_ok hTo hChannel hOk with
    ⟨re', threading', recorded', dest, hTarget', hParent, hDir,
      hScope⟩
  rw [hTarget] at hTarget'
  injection hTarget' with hSame
  injection hSame with hRe hRest
  injection hRest with hThreading hRecorded
  subst hRe hRecorded
  rcases hDest with ⟨sender, hDest⟩
  rw [hDest] at hParent
  rcases channelDest_ok hParent with ⟨hMember, toField, rfl⟩
  exact ⟨hDir, hScope, hMember⟩

/- A reply to a file in a channel stays in that channel. -/
theorem stays_of_file
    {recorded : Option LastInbound}
    (hTo : req.toField = none)
    (hChannel : req.channel = none)
    (hAnswers : Answers env req id recorded)
    (hThreads : recorded = none ∨ isValidSignalId id = true)
    (hName : name ≠ "")
    (hLies : env.LiesOnlyIn id name) :
    StaysIn env req name := by
  cases hAnswers with
  | named hRe hId =>
      exact
        staysIn_of_channelDest hTo hChannel
          (replyTarget_named hRe hId)
          (parentDest_of_file hName hLies)
  | last hRe hLast =>
      have hTarget := replyTarget_last hRe hLast
      rcases hThreads with hNone | hValid
      · cases hNone
      · rw [if_pos hValid] at hTarget
        exact
          staysIn_of_channelDest hTo hChannel hTarget
            (parentDest_of_file hName hLies)

/- A reply with no file stays in the channel recorded. -/
theorem stays_of_record
    {l : LastInbound}
    (hTo : req.toField = none)
    (hChannel : req.channel = none)
    (hAnswers : Answers env req id (some l))
    (hGone : env.LiesNowhere id ∨ isValidSignalId id = false)
    (hSaid : l.said = some (.channel name)) :
    StaysIn env req name := by
  cases hAnswers with
  | last hRe hLast =>
      have hTarget := replyTarget_last hRe hLast
      have hRecord :
          ∃ sender,
            recordedDest env (some l) =
              channelDest env name sender :=
        recordedDest_channel hSaid
      by_cases hValid : isValidSignalId l.id = true
      · rw [if_pos hValid] at hTarget
        rcases hGone with hNowhere | hInvalid
        · apply staysIn_of_channelDest hTo hChannel hTarget
          rwa [parentDest_of_nowhere hNowhere]
        · rw [hValid] at hInvalid
          cases hInvalid
      · rw [if_neg hValid] at hTarget
        exact
          staysIn_of_channelDest hTo hChannel hTarget hRecord

/- No reply is written to `#open`. -/
theorem notOpen_of_reply
    (hTo : req.toField = none)
    (hChannel : req.channel = none)
    (hOk : reply env req = .ok out) :
    out.dir ≠ broadcastDir ∧ out.sent.scope ≠ "#open" := by
  rcases reply_ok hTo hChannel hOk with
    ⟨re, threading, recorded, dest, hTarget, hParent, hDir,
      hScope⟩
  have hNot := parentDest_notOpen hParent
  rw [hDir, hScope]
  cases dest with
  | openRoom toField => exact absurd rfl (hNot toField)
  | channel name toField =>
      refine ⟨groupDir_ne_broadcastDir name, ?_⟩
      show "channel" ≠ "#open"
      decide
  | sessions cwd ids =>
      refine ⟨attendKey_ne_broadcastDir cwd, ?_⟩
      show "directed" ≠ "#open"
      decide
  | person member =>
      refine ⟨personDir_ne_broadcastDir member, ?_⟩
      show "directed" ≠ "#open"
      decide

/- A parent with neither file nor record is refused. -/
theorem refused_of_unknown
    (hTo : req.toField = none)
    (hChannel : req.channel = none)
    (hAnswers : Answers env req id none)
    (hNowhere : env.LiesNowhere id) :
    ∃ e, reply env req = .error e := by
  cases hReply : reply env req with
  | error e => exact ⟨e, rfl⟩
  | ok out =>
      rcases reply_ok hTo hChannel hReply with
        ⟨re, threading, recorded, dest, hTarget, hParent, -⟩
      cases hAnswers with
      | named hRe hId =>
          rw [replyTarget_named hRe hId] at hTarget
          injection hTarget with hSame
          injection hSame with hRe' hRest
          injection hRest with hThreading hRecorded
          subst hRe' hRecorded
          rw [parentDest_of_nowhere hNowhere] at hParent
          cases hParent

/- A reply with nothing to answer is refused. -/
theorem refused_of_none
    (hTo : req.toField = none)
    (hChannel : req.channel = none)
    (hNo : ∀ id recorded, ¬ Answers env req id recorded) :
    ∃ e, reply env req = .error e := by
  cases hReply : reply env req with
  | error e => exact ⟨e, rfl⟩
  | ok out =>
      rcases reply_ok hTo hChannel hReply with
        ⟨re, threading, recorded, dest, hTarget, hRest⟩
      unfold replyTarget at hTarget
      split at hTarget
      · rename_i given hRe
        split at hTarget
        · rename_i id hId
          exact absurd (.named hRe hId) (hNo id none)
        · cases hTarget
      · rename_i hRe
        split at hTarget
        · cases hTarget
        · rename_i l hLast
          exact absurd (.last hRe hLast) (hNo l.id (some l))

/- The room a reply answers is the room it is written to. -/
theorem reply_keeps_room
    (env : ReplyEnv)
    (req : SendRequest)
    (hTo : req.toField = none)
    (hChannel : req.channel = none) :
    (∀ id recorded name,
      Answers env req id recorded → name ≠ "" →
        env.LiesOnlyIn id name →
        (recorded = none ∨ isValidSignalId id = true) →
        StaysIn env req name) ∧
    (∀ id l name,
      Answers env req id (some l) →
        (env.LiesNowhere id ∨ isValidSignalId id = false) →
        l.said = some (.channel name) →
        StaysIn env req name) ∧
    (∀ out, reply env req = .ok out →
      out.dir ≠ broadcastDir ∧ out.sent.scope ≠ "#open") ∧
    (∀ id, Answers env req id none → env.LiesNowhere id →
      ∃ e, reply env req = .error e) ∧
    ((∀ id recorded, ¬ Answers env req id recorded) →
      ∃ e, reply env req = .error e) := by
  refine ⟨?_, ?_, ?_, ?_, ?_⟩
  · intro id recorded name hAnswers hName hLies hThreads
    exact
      stays_of_file hTo hChannel hAnswers hThreads hName hLies
  · intro id l name hAnswers hGone hSaid
    exact stays_of_record hTo hChannel hAnswers hGone hSaid
  · intro out hOk
    exact notOpen_of_reply hTo hChannel hOk
  · intro id hAnswers hNowhere
    exact refused_of_unknown hTo hChannel hAnswers hNowhere
  · intro hNo
    exact refused_of_none hTo hChannel hNo

/- A message of that id in `#ops`, recorded as in `#open`. -/
def opsEnv
    (id : String) : ReplyEnv where
  sessionId := "me"
  sessionResolved := true
  originPath := "/w"
  actor :=
    { memberId := "me"
      kind := "agent"
      fromField := "claude:me"
      senderId := "me"
      project := "w"
      cwd := "/w" }
  base :=
    { files :=
        [{ dir := "@ops"
           name := id ++ ".signal"
           content := .text "claude:s|p|/p|hello"
           mtime := 1 }]
      dirs := ["@ops"]
      listed := by
        intro f hMem name _ _
        rw [List.mem_singleton.mp hMem]
        exact List.mem_singleton.mpr rfl }
  state :=
    KeyMap.empty.insert "ops"
      { pinned := false
        members := ["me", "s"]
        description := none }
  last :=
    some
      { id := id
        said := some .openRoom
        fromField := some "claude:s" }
  peers := [{ id := "s", cwd := "/p", project := "p" }]
  alive := fun _ => true
  rows := fun _ => KeyMap.empty
  nickname := fun _ => "owl"
  canonicalize := some
  user := "u"
  trays := []
  nanos := 7
  seq := 0
  writeError := fun _ => none

def thanks : SendRequest where
  message := "thanks"
  toField := none
  channel := none
  re := none

theorem opsEnv_answers
    (id : String) :
    Answers (opsEnv id) thanks id (opsEnv id).last :=
  .last (l := ⟨id, some .openRoom, some "claude:s"⟩) rfl rfl

theorem opsEnv_liesOnlyIn
    (id : String) :
    (opsEnv id).LiesOnlyIn id "ops" := by
  intro dir
  show
    ([_] : List SignalFile).any
        (fun f =>
          decide (f.dir = dir) &&
            decide (f.name = id ++ ".signal")) = true ↔ _
  simp only [List.any_cons, List.any_nil, Bool.or_false,
    decide_true, Bool.and_true, decide_eq_true_eq]
  exact eq_comm

theorem opsEnv_keeps_room :
    ∃ out,
      reply (opsEnv "s-1-0") thanks = .ok out ∧
        out.dir = "@ops" := by
  have hStays :=
    (reply_keeps_room (opsEnv "s-1-0") thanks rfl rfl).1
      "s-1-0" _ "ops" (opsEnv_answers "s-1-0") (by decide)
      (opsEnv_liesOnlyIn "s-1-0") (.inr (by decide))
  cases hReply : reply (opsEnv "s-1-0") thanks with
  | ok out => exact ⟨out, rfl, (hStays out hReply).1⟩
  | error e =>
      have hOk : (reply (opsEnv "s-1-0") thanks).isOk = true := by
        decide
      rw [hReply] at hOk
      cases hOk

/- An id that cannot be looked up goes by its record. -/
theorem not_reply_keeps_room :
    ¬ ∀ (env : ReplyEnv) (req : SendRequest) (id : String)
        (recorded : Option LastInbound) (name : String),
      req.toField = none → req.channel = none →
        Answers env req id recorded → name ≠ "" →
        env.LiesOnlyIn id name → StaysIn env req name := by
  intro hAll
  have hStays :=
    hAll (opsEnv "s@t-1") thanks "s@t-1" _ "ops" rfl rfl
      (opsEnv_answers "s@t-1") (by decide)
      (opsEnv_liesOnlyIn "s@t-1")
  cases hReply : reply (opsEnv "s@t-1") thanks with
  | ok out =>
      have hDir :
          (reply (opsEnv "s@t-1") thanks).toOption.map
            Replied.dir ≠ some "@ops" := by
        decide
      rw [hReply] at hDir
      exact hDir (congrArg some (hStays out hReply).1)
  | error e =>
      have hOk :
          (reply (opsEnv "s@t-1") thanks).isOk = true := by
        decide
      rw [hReply] at hOk
      cases hOk

end Attend
