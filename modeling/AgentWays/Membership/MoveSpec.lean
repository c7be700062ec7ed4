import AgentWays.Attend.StateRuns
import AgentWays.Groups.SweepSpec
import AgentWays.Lib.Resume
import AgentWays.Membership.Move
import AgentWays.Presence.CarryAgain

/-
  What a whole move makes of a move done in part.

  Each write of the move is absorbed: a move that starts
  after it gives what a move that starts before it gives.
  For the records that follow a member, which are moved one
  by one, that rests on edits that commute and are settled
  when made once.

  Key definitions include:
    * `Membership.Channels.ofStore`

  Main declarations:
    * `Membership.seen_checkpoint`
    * `Membership.checkpoint_checkpoint`
    * `Membership.renameMember_renameRoster`
    * `Membership.renameMember_moveRecord`
    * `Membership.moveFile_moveFile`
    * `Membership.ofStore_renameMember`
-/

------------------------------------------------------------
-- The Seen-Set
------------------------------------------------------------

namespace Membership

open Attend

variable {new : String} {b : Bus}

/- The same snapshot merged twice is merged once. -/
theorem merged_merged
    (disk mem : StateSnapshot)
    (existing : Option (Finset String)) :
    merged (merged disk mem false existing) mem false existing =
      merged disk mem false existing := by
  have hSeen :
      (merged (merged disk mem false existing) mem false
          existing).seenSignals =
        (merged disk mem false existing).seenSignals := by
    cases existing with
    | none =>
        simp only [merged]
        rw [Finset.union_assoc, Finset.union_self]
    | some names =>
        simp only [merged]
        ext k
        simp only [Finset.mem_filter, Finset.mem_union]
        tauto
  have hOr : ∀ a c : Option String, a.or (a.or c) = a.or c := by
    intro a c
    cases a <;> rfl
  simp only [merged] at hSeen ⊢
  simp only [hSeen, hOr, Bool.or_assoc, Bool.or_self,
    Bool.false_eq_true, if_false]

/- The checkpoint is that of the new session's state file. -/
theorem seen_checkpoint
    (snapshot : StateSnapshot)
    (order : HashOrder)
    (b : Bus) :
    (b.checkpoint new snapshot).seen.get? new =
      applyCall (b.seen.get? new)
        { write := .checkpoint snapshot
          existing := b.existing
          order := order } := by
  rw [Bus.checkpoint, KeyMap.get?_insert, if_pos rfl]
  rfl

/- A checkpoint made twice is made once. -/
theorem checkpoint_checkpoint
    (new : String)
    (snapshot : StateSnapshot)
    (b : Bus) :
    (b.checkpoint new snapshot).checkpoint new snapshot =
      b.checkpoint new snapshot := by
  have hMap :
      ∀ v : StateSnapshot,
        (b.seen.insert new v).insert new v =
          b.seen.insert new v := by
    intro v
    apply KeyMap.ext_get?
    intro k
    simp only [KeyMap.get?_insert]
    split <;> rfl
  have hExisting :
      (b.checkpoint new snapshot).existing = b.existing := rfl
  have hNew :
      (b.checkpoint new snapshot).seen.get? new =
        some
          (merged
            ((b.seen.get? new).getD StateSnapshot.default)
            snapshot false b.existing) := by
    rw [Bus.checkpoint, KeyMap.get?_insert, if_pos rfl]
  rw [Bus.checkpoint, hExisting, hNew, Option.getD_some,
    merged_merged]
  simp only [Bus.checkpoint, hMap]

end Membership

------------------------------------------------------------
-- The Session's Files
------------------------------------------------------------

namespace Membership

variable {old new : String}

/- A file renamed is not there to be renamed again. -/
theorem moveFile_moveFile
    (hNe : old ≠ new)
    (files : KeyMap String String) :
    moveFile old new (moveFile old new files) =
      moveFile old new files := by
  have hGone : (moveFile old new files).get? old = none := by
    unfold moveFile
    split
    · assumption
    · rw [KeyMap.get?_insert, if_neg hNe, KeyMap.get?_erase,
        if_pos rfl]
  rw [moveFile, hGone]

end Membership

------------------------------------------------------------
-- The Channels
------------------------------------------------------------

namespace Membership

variable {old new : String}

theorem renameRoster_eq
    (old new : String)
    (c : Channels) :
    c.renameRoster old new =
      { c with
        roster :=
          Groups.mapEntries (Groups.renameEntry old new)
            c.roster } := by
  unfold Channels.renameRoster
  dsimp only
  split
  · rfl
  · rename_i hNone
    rw [Bool.not_eq_true] at hNone
    have hSame := Groups.renameIn_unchanged hNone
    change
      Groups.mapEntries (Groups.renameEntry old new) c.roster =
        c.roster at hSame
    rw [hSame]

/- A member renamed is not there to be renamed again. -/
theorem renameEntry_renameEntry
    (hNe : old ≠ new)
    (e : Groups.GroupEntry) :
    Groups.renameEntry old new (Groups.renameEntry old new e) =
      Groups.renameEntry old new e := by
  have hGone :
      (Groups.renameEntry old new e).members.contains old =
        false := by
    unfold Groups.renameEntry
    split
    · simp [hNe]
    · rename_i hOut
      simpa using hOut
  rw [Groups.renameEntry, hGone, if_neg (by simp)]

theorem renameRoster_renameRoster
    (hNe : old ≠ new)
    (c : Channels) :
    (c.renameRoster old new).renameRoster old new =
      c.renameRoster old new := by
  simp only [renameRoster_eq]
  have hMap :
      Groups.mapEntries (Groups.renameEntry old new)
          (Groups.mapEntries (Groups.renameEntry old new)
            c.roster) =
        Groups.mapEntries (Groups.renameEntry old new)
          c.roster := by
    apply KeyMap.ext_get?
    intro name
    simp only [Groups.get?_mapEntries, Option.map_map]
    congr 1
    funext e
    exact renameEntry_renameEntry hNe e
  rw [hMap]

/- An invitation's record is not a briefing's. -/
theorem recordFile_invite_ne_brief
    (a b : String) :
    Groups.recordFile a Groups.inviteKind ≠
      Groups.recordFile b Groups.briefKind := by
  intro hEq
  have hLast :=
    congrArg (fun s => s.toList.getLast?) hEq
  simp [Groups.recordFile, Groups.inviteKind,
    Groups.briefKind] at hLast

theorem recordFile_ne
    (hNe : old ≠ new)
    (kind : String) :
    Groups.recordFile old kind ≠ Groups.recordFile new kind := by
  intro hEq
  have hList := congrArg String.toList hEq
  simp only [Groups.recordFile, String.toList_append,
    List.append_assoc, List.append_cancel_right_eq] at hList
  exact hNe (String.toList_injective hList)

/- The files of a directory after a record has moved. -/
theorem get?_moveRecord
    (old new kind : String)
    (dir : Groups.ChannelDir)
    (file : String) :
    (Groups.moveRecord old new kind dir).get? file =
      match dir.get? (Groups.recordFile old kind) with
      | some body =>
          if file = Groups.recordFile new kind then some body
          else if file = Groups.recordFile old kind then none
          else dir.get? file
      | none => dir.get? file := by
  unfold Groups.moveRecord
  cases dir.get? (Groups.recordFile old kind) with
  | none => rfl
  | some body =>
      dsimp only
      rw [KeyMap.get?_insert, KeyMap.get?_erase]

/- A record moved is not there to be moved again. -/
theorem moveRecord_idem
    (hNe : old ≠ new)
    (kind : String)
    (dir : Groups.ChannelDir) :
    Groups.moveRecord old new kind
        (Groups.moveRecord old new kind dir) =
      Groups.moveRecord old new kind dir := by
  have hGone :
      (Groups.moveRecord old new kind dir).get?
        (Groups.recordFile old kind) = none := by
    rw [get?_moveRecord]
    split
    · rw [if_neg (recordFile_ne hNe kind), if_pos rfl]
    · assumption
  rw [Groups.moveRecord, hGone]

/- Records of kinds that share no file move in any order. -/
theorem moveRecord_comm
    {first second : String}
    (hApart :
      ∀ a b,
        Groups.recordFile a first ≠ Groups.recordFile b second)
    (dir : Groups.ChannelDir) :
    Groups.moveRecord old new second
        (Groups.moveRecord old new first dir) =
      Groups.moveRecord old new first
        (Groups.moveRecord old new second dir) := by
  have hSecond :
      (Groups.moveRecord old new first dir).get?
          (Groups.recordFile old second) =
        dir.get? (Groups.recordFile old second) := by
    rw [get?_moveRecord]
    split
    · rw [if_neg (hApart new old).symm,
        if_neg (hApart old old).symm]
    · rfl
  have hFirst :
      (Groups.moveRecord old new second dir).get?
          (Groups.recordFile old first) =
        dir.get? (Groups.recordFile old first) := by
    rw [get?_moveRecord]
    split
    · rw [if_neg (hApart old new), if_neg (hApart old old)]
    · rfl
  apply KeyMap.ext_get?
  intro file
  rw [get?_moveRecord, hSecond, get?_moveRecord old new first,
    get?_moveRecord old new first _ file, hFirst,
    get?_moveRecord old new second]
  cases dir.get? (Groups.recordFile old first) with
  | none => rfl
  | some body =>
      cases dir.get? (Groups.recordFile old second) with
      | none => rfl
      | some other =>
          have hNewNew := hApart new new
          have hNewOld := hApart new old
          have hOldNew := hApart old new
          have hOldOld := hApart old old
          dsimp only
          grind

/- The directories after one record has been looked at. -/
theorem get?_dirs_moveRecord
    (old new : String)
    (c : Channels)
    (place : String × RecordKind)
    (name : String) :
    (c.moveRecord old new place).dirs.get? name =
      if name = place.1 then
        (c.dirs.get? name).map
          (Groups.moveRecord old new place.2.extension)
      else c.dirs.get? name := by
  unfold Channels.moveRecord
  split
  · rename_i hNone
    split
    · rename_i hSame
      rw [hSame, hNone]
      rfl
    · rfl
  · rename_i dir hDir
    dsimp only
    rw [KeyMap.get?_insert]
    split
    · rename_i hSame
      rw [hSame, hDir]
      rfl
    · rfl

theorem roster_moveRecord
    (old new : String)
    (c : Channels)
    (place : String × RecordKind) :
    (c.moveRecord old new place).roster = c.roster := by
  unfold Channels.moveRecord
  split <;> rfl

theorem channelsMoveRecord_idem
    (hNe : old ≠ new)
    (c : Channels)
    (place : String × RecordKind) :
    (c.moveRecord old new place).moveRecord old new place =
      c.moveRecord old new place := by
  apply Channels.ext
  · simp only [roster_moveRecord]
  · apply KeyMap.ext_get?
    intro name
    simp only [get?_dirs_moveRecord]
    split
    · rw [Option.map_map]
      congr 1
      funext dir
      exact moveRecord_idem hNe place.2.extension dir
    · rfl

/- Two kinds move in any order. -/
theorem moveRecord_extension_comm
    (first second : RecordKind)
    (dir : Groups.ChannelDir) :
    Groups.moveRecord old new second.extension
        (Groups.moveRecord old new first.extension dir) =
      Groups.moveRecord old new first.extension
        (Groups.moveRecord old new second.extension dir) := by
  cases first with
  | invite =>
      cases second with
      | invite => rfl
      | brief => exact moveRecord_comm recordFile_invite_ne_brief dir
  | brief =>
      cases second with
      | invite =>
          exact (moveRecord_comm recordFile_invite_ne_brief
            dir).symm
      | brief => rfl

theorem channelsMoveRecord_comm
    (c : Channels)
    (first second : String × RecordKind) :
    (c.moveRecord old new first).moveRecord old new second =
      (c.moveRecord old new second).moveRecord old new
        first := by
  apply Channels.ext
  · simp only [roster_moveRecord]
  · apply KeyMap.ext_get?
    intro name
    simp only [get?_dirs_moveRecord]
    split
    · split
      · rw [Option.map_map, Option.map_map]
        congr 1
        funext dir
        exact moveRecord_extension_comm first.2 second.2 dir
      · rfl
    · rfl

/- A record moved leaves the records to look at. -/
theorem records_moveRecord
    (old new : String)
    (c : Channels)
    (place : String × RecordKind) :
    (c.moveRecord old new place).records = c.records := by
  unfold Channels.records
  have hKeys :
      (c.moveRecord old new place).dirs.keys = c.dirs.keys := by
    apply KeyMap.keys_congr
    intro name
    rw [get?_dirs_moveRecord]
    split
    · rw [Option.isSome_map]
    · rfl
  rw [hKeys]

theorem renameRoster_moveRecord
    (old new : String)
    (c : Channels)
    (place : String × RecordKind) :
    (c.moveRecord old new place).renameRoster old new =
      (c.renameRoster old new).moveRecord old new place := by
  rw [renameRoster_eq, renameRoster_eq]
  apply Channels.ext
  · rw [roster_moveRecord, roster_moveRecord]
  · apply KeyMap.ext_get?
    intro name
    simp only [get?_dirs_moveRecord]

/- The rest of a rename, after the state has been saved. -/
theorem renameMember_renameRoster
    (hNe : old ≠ new)
    (c : Channels) :
    (c.renameRoster old new).renameMember old new =
      c.renameMember old new := by
  unfold Channels.renameMember
  rw [renameRoster_renameRoster hNe]

/- The rest of a rename, after a record has moved. -/
theorem renameMember_moveRecord
    (hNe : old ≠ new)
    (c : Channels)
    {place : String × RecordKind}
    (hPlace : place ∈ c.records) :
    (c.moveRecord old new place).renameMember old new =
      c.renameMember old new := by
  have hRecords : (c.renameRoster old new).records = c.records := by
    rw [renameRoster_eq]
    rfl
  unfold Channels.renameMember Channels.moveRecords
  rw [renameRoster_moveRecord, records_moveRecord]
  refine Resume.foldl_absorb channelsMoveRecord_comm
    (channelsMoveRecord_idem hNe) ?_ _
  rw [hRecords]
  exact hPlace

end Membership

------------------------------------------------------------
-- The Channels As They Are Stored
------------------------------------------------------------

namespace Membership

variable {old new : String}

/- What is read from the channel store. -/
def Channels.ofStore
    (s : Groups.Store) : Channels where
  roster := s.loadState
  dirs := s.dirs

/- One directory of the store, as it is moved there. -/
theorem ofStore_editDir
    (s : Groups.Store)
    (name : String) :
    Channels.ofStore
        (s.editDir name
          (fun dir =>
            Groups.moveRecord old new Groups.briefKind
              (Groups.moveRecord old new Groups.inviteKind
                dir))) =
      ((Channels.ofStore s).moveRecord old new
        (name, .invite)).moveRecord old new (name, .brief) := by
  apply Channels.ext
  · rw [roster_moveRecord, roster_moveRecord]
    unfold Groups.Store.editDir
    split <;> rfl
  · apply KeyMap.ext_get?
    intro name'
    simp only [get?_dirs_moveRecord, RecordKind.extension]
    unfold Groups.Store.editDir
    cases hDir : s.dirs.get? name with
    | none =>
        simp only [Channels.ofStore]
        split
        · rename_i hSame
          rw [hSame, hDir]
          rfl
        · rfl
    | some dir =>
        simp only [Channels.ofStore, KeyMap.get?_insert]
        split
        · rename_i hSame
          rw [hSame, hDir]
          rfl
        · rfl

theorem ofStore_moveRecords
    (s : Groups.Store)
    (old new : String) :
    Channels.ofStore (Groups.moveRecords s old new) =
      (Channels.ofStore s).moveRecords old new := by
  unfold Groups.moveRecords Channels.moveRecords
  unfold Channels.records Groups.channelDirs
  change _ =
    List.foldl _ _
      (List.flatMap _
        (s.dirs.keys.filter (fun name => !name.isEmpty)))
  generalize
    s.dirs.keys.filter (fun name => !name.isEmpty) = names
  induction names generalizing s with
  | nil => rfl
  | cons name rest ih =>
      rw [List.foldl_cons, ih, ofStore_editDir]
      rfl

/- The rename of the channel store, read as these channels. -/
theorem ofStore_renameMember
    (s : Groups.Store)
    (old : String)
    (hNew : Groups.MemberSafe new) :
    Channels.ofStore (Groups.renameMember s old new) =
      (Channels.ofStore s).renameMember old new := by
  unfold Groups.renameMember Channels.renameMember
  dsimp only
  rw [ofStore_moveRecords, renameRoster_eq]
  congr 1
  have hLoaded := Groups.loadState_renameMember s old hNew
  unfold Groups.renameMember at hLoaded
  dsimp only at hLoaded
  rw [Groups.loadState_moveRecords] at hLoaded
  apply Channels.ext
  · exact hLoaded
  · simp only [Channels.ofStore]
    split <;> rfl

end Membership

------------------------------------------------------------
-- The Whole Move
------------------------------------------------------------

namespace Membership

open Attend
open Presence

variable {old new : String} {now : Nat} {b : Bus}

/- Each store's part of the move. -/
theorem moveSession_eq
    (old new : String)
    (now : Nat)
    (b : Bus) :
    moveSession old new now b =
      { seen := (b.moveSeen old new).seen
        enrolled := b.enrolled.carryIn old new
        instances := Instances.rename old new now b.instances
        channels := b.channels.renameMember old new
        trays := b.trays
        lastInbound := moveFile old new b.lastInbound
        banner := moveFile old new b.banner
        heartbeats := b.heartbeats.erase old } := by
  unfold moveSession Bus.moveSeen
  cases b.seen.get? old with
  | none => rfl
  | some snapshot => rfl

theorem moveSeen_of_none
    (hSeen : b.seen.get? old = none) :
    b.moveSeen old new = b := by
  unfold Bus.moveSeen
  rw [hSeen]

theorem moveSeen_of_some
    {snapshot : StateSnapshot}
    (hSeen : b.seen.get? old = some snapshot) :
    b.moveSeen old new =
      (b.checkpoint new snapshot).clear old := by
  unfold Bus.moveSeen
  rw [hSeen]

/- The other stores of a bus whose seen-set has moved. -/
theorem moveSession_of_seen
    (hSeen : b.seen.get? old = none) :
    moveSession old new now b =
      { b with
        enrolled := b.enrolled.carryIn old new
        instances := Instances.rename old new now b.instances
        channels := b.channels.renameMember old new
        lastInbound := moveFile old new b.lastInbound
        banner := moveFile old new b.banner
        heartbeats := b.heartbeats.erase old } := by
  rw [moveSession_eq, moveSeen_of_none hSeen]

end Membership
