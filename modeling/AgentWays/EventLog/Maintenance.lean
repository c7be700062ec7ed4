import AgentWays.Lib.Interleave
import AgentWays.EventLog.Lines

/-
  The event log under its appenders and its maintenance.

  Files are inodes, and the live path names one of them. An
  appender opens the path and then writes one line to what
  it has opened. Under the stream's lock one pass at a time
  goes over the log, a file operation a step: it reads the
  live file, archives what it removes, puts a new file in
  place and carries over what the old one has gained.

  Key definitions include:
    * `EventLog.Log`
    * `EventLog.Stage`
    * `EventLog.advance`
    * `EventLog.append`
    * `EventLog.log`
-/

------------------------------------------------------------
-- The Log
------------------------------------------------------------

namespace EventLog

/- The three passes, with the bounds they are called with. -/
inductive Job
| compactLogTail (keepBytes minFreed ceiling : Nat)
| rotateLogByAge (retentionDays : Nat)
| trimToTurns (keep : Nat)
deriving DecidableEq

/-
  The lines that a pass removes: lines it has sorted out, or
  the head of the file, read once more for the archive.
-/
inductive Removed
| lines (list : List Line)
| head (count : Nat)
deriving DecidableEq

def Removed.of
    (data : List Line) : Removed → List Line
| .lines list => list
| .head count => data.take count

/-
  A rewrite in the making. `pos` is how far its handle was
  read; `marks` says that a failed archive marks the day,
  and `overCeiling` that it does not stop the rewrite.
-/
structure Rewrite where
  now : Nat
  handle : Nat
  pos : Nat
  out : List Line
  removed : Removed
  marks : Bool
  overCeiling : Bool
deriving DecidableEq

/- The places of a pass. -/
inductive Stage
| idle
| starting (now : Nat) (job : Job)
| opened (now : Nat) (job : Job) (handle : Nat)
-- rotate_log_by_age
| splitting (now handle cutoff : Nat)
-- trim_to_turns
| seeking (now handle before : Nat)
-- rotate_log_by_age and trim_to_turns
| copying (r : Rewrite)
| measuring (r : Rewrite)
-- all three
| checking (r : Rewrite)
| archiving (r : Rewrite)
| publishing (r : Rewrite) (archived : Bool)
| carrying (r : Rewrite) (archived : Bool)
| gaining (r : Rewrite) (gained : List Line) (archived : Bool)
| noting (r : Rewrite)
deriving DecidableEq

/-
  The files of the stream: the inodes with their lines, the
  live one, the members of the archives with their days, and
  the day markers. `unpublished` are the lines archived by
  passes that then failed to publish.
-/
structure Log where
  inodes : List (List Line)
  live : Option Nat
  archives : List (Nat × List Line)
  archiveFailed : Option Nat
  publishFailed : Option Nat
  pass : Stage
  unpublished : List Line

def Log.content
    (s : Log)
    (handle : Nat) : List Line :=
  s.inodes[handle]?.getD []

/- The lines of the live file. -/
def Log.liveLines
    (s : Log) : List Line :=
  s.live.elim [] s.content

/- The lines of the archives. -/
def Log.archived
    (s : Log) : List Line :=
  s.archives.flatMap Prod.snd

/- The day of a second. -/
def day
    (now : Nat) : Nat :=
  now / 86400

def Log.archiveFailedToday
    (s : Log)
    (now : Nat) : Bool :=
  s.archiveFailed == some (day now)

def Log.publishFailedToday
    (s : Log)
    (now : Nat) : Bool :=
  s.publishFailed == some (day now)

/- A pass comes to a stage. -/
def Log.to
    (s : Log)
    (pass : Stage) : Log :=
  { s with pass := pass }

/- A line is written at the end of an inode. -/
def Log.write
    (s : Log)
    (handle : Nat)
    (lines : List Line) : Log :=
  { s with inodes := s.inodes.modify handle (· ++ lines) }

/- A new file takes the live path. -/
def Log.rename
    (s : Log)
    (lines : List Line) : Log :=
  { s with
    inodes := s.inodes ++ [lines]
    live := some s.inodes.length }

/- A member is added to the archive of its day. -/
def Log.archive
    (s : Log)
    (now : Nat)
    (lines : List Line) : Log :=
  { s with archives := s.archives ++ [(day now, lines)] }

/- The log of a state directory with no pass at work. -/
def Log.found
    (live : Option (List Line))
    (archives : List (Nat × List Line))
    (archiveFailed publishFailed : Option Nat) : Log where
  inodes := live.toList
  live := live.map (fun _ => 0)
  archives := archives
  archiveFailed := archiveFailed
  publishFailed := publishFailed
  pass := .idle
  unpublished := []

end EventLog

------------------------------------------------------------
-- Passes
------------------------------------------------------------

namespace EventLog

variable (eventOf : Line → Option String)

/-
  The line that records so many bytes dropped unarchived; it
  holds the text of the archive's error too.
-/
variable (dropped : Nat → Nat → Line)

/-
  Whether a pass stands down by the markers and, for a
  compaction, by the size, before it opens the file.
-/
def standsDown
    (s : Log)
    (now : Nat)
    (job : Job) : Bool :=
  s.publishFailedToday now ||
    match job with
    | .compactLogTail keepBytes _ ceiling =>
        size s.liveLines ≤ keepBytes ||
          size s.liveLines ≤ ceiling &&
            s.archiveFailedToday now
    | _ => false

/- What a pass comes to when it has opened the file. -/
def start
    (s : Log)
    (now : Nat)
    (job : Job) : Log :=
  match s.live with
  | none => s.to .idle
  | some handle =>
      if standsDown s now job then s.to .idle
      else s.to (.opened now job handle)

/- What a pass comes to when it has read the opened file. -/
def read
    (s : Log)
    (now : Nat)
    (job : Job)
    (handle : Nat) : Log :=
  let data := s.content handle
  match job with
  | .compactLogTail keepBytes minFreed ceiling =>
      let cut := compaction eventOf keepBytes data
      if size data ≤ keepBytes then s.to .idle
      else if size data - size cut.kept < minFreed then
        s.to .idle
      else
        s.to
          (.checking
            { now := now
              handle := handle
              pos := data.length
              out := cut.kept
              removed := .lines cut.removed
              marks := true
              overCeiling := ceiling < size data })
  | .rotateLogByAge retentionDays =>
      s.to
        (.splitting now handle
          (cutoffOf now retentionDays (newestTs data)))
  | .trimToTurns keep =>
      let keep := max keep 1
      if tooManyTurns keep (turns data) then
        s.to (.seeking now handle (turns data - keep))
      else s.to .idle

/- What a rotation comes to when it has sorted the head. -/
def split
    (s : Log)
    (now handle cutoff : Nat) : Log :=
  match splitExpired eventOf cutoff (s.content handle) with
  | none => s.to .idle
  | some found =>
      s.to
        (.copying
          { now := now
            handle := handle
            pos := found.currentFrom
            out := found.kept
            removed := .lines found.expired
            marks := false
            overCeiling := false })

/- What a trim comes to when it has found its cut. -/
def seek
    (s : Log)
    (now handle before : Nat) : Log :=
  match turnCut before (s.content handle) with
  | none => s.to .idle
  | some cut =>
      s.to
        (.copying
          { now := now
            handle := handle
            pos := cut
            out := []
            removed := .head cut
            marks := true
            overCeiling := false })

/- The rest of the handle's file is copied. -/
def Rewrite.copy
    (r : Rewrite)
    (data : List Line) : Rewrite :=
  { r with
    out := r.out ++ data.drop r.pos
    pos := max r.pos data.length }

/- An archive that takes nothing is not written to. -/
def archiveRemoved
    (s : Log)
    (r : Rewrite) : Log :=
  match r.removed with
  | .lines [] => s
  | removed =>
      s.archive r.now (removed.of (s.content r.handle))

def markArchiveFailed
    (s : Log)
    (r : Rewrite) : Log :=
  if r.marks then
    { s with archiveFailed := some (day r.now) }
  else s

def markPublishFailed
    (s : Log)
    (r : Rewrite)
    (archived : Bool) : Log :=
  { s with
    publishFailed := some (day r.now)
    unpublished :=
      s.unpublished ++
        if archived then r.removed.of (s.content r.handle)
        else [] }

/- What happens to the maintenance of the log. -/
inductive Event
| begins (now : Nat) (job : Job)
| advances
| archiveFails
| publishFails

/-
  One step of the pass at work. The lock lets a pass begin
  only when none is, and a failure is one of the archive or
  of the publish.
-/
def advance
    (s : Log)
    (event : Event) : Log :=
  match s.pass, event with
  | .idle, .begins now job => s.to (.starting now job)
  | .starting now job, .advances => start s now job
  | .opened now job handle, .advances =>
      read eventOf s now job handle
  | .splitting now handle cutoff, .advances =>
      split eventOf s now handle cutoff
  | .seeking now handle before, .advances =>
      seek s now handle before
  | .copying r, .advances =>
      s.to (.measuring (r.copy (s.content r.handle)))
  | .measuring r, .advances =>
      if (s.content r.handle).length ≤ r.pos then
        s.to (.checking r)
      else s.to (.copying r)
  | .checking r, .advances =>
      if s.live = some r.handle then s.to (.archiving r)
      else s.to .idle
  | .archiving r, .advances =>
      (archiveRemoved s r).to (.publishing r true)
  | .archiving r, .archiveFails =>
      if r.overCeiling then
        (markArchiveFailed s r).to (.publishing r false)
      else (markArchiveFailed s r).to .idle
  | .publishing r archived, .advances =>
      (s.rename r.out).to (.carrying r archived)
  | .publishing r archived, .publishFails =>
      (markPublishFailed s r archived).to .idle
  | .carrying r archived, .advances =>
      s.to
        (.gaining r ((s.content r.handle).drop r.pos)
          archived)
  | .gaining r gained archived, .advances =>
      (s.live.elim s (s.write · gained)).to
        (if archived then .idle else .noting r)
  | .noting r, .advances =>
      let lost := r.removed.of (s.content r.handle)
      (s.live.elim s
        (s.write · [dropped r.now (size lost)])).to .idle
  | _, _ => s

end EventLog

------------------------------------------------------------
-- Appenders
------------------------------------------------------------

namespace EventLog

/- The places of an appender. -/
inductive Appender
| opening (line : Line)
| writing (handle : Nat) (line : Line)
| written (line : Line)
deriving DecidableEq

/-
  One step of an appender. Opening the path creates the file
  where there is none.
-/
def append
    (s : Log)
    (call : Appender)
    (_ : Unit) : Option (Log × Appender) :=
  match call with
  | .opening line =>
      match s.live with
      | some handle => some (s, .writing handle line)
      | none =>
          some
            (s.rename [], .writing s.inodes.length line)
  | .writing handle line =>
      some (s.write handle [line], .written line)
  | .written _ => none

abbrev Calls := Interleave.Crew Log Appender

abbrev Move := Interleave.Move Line Unit Event

/- The log under any interleaving. -/
def log
    (eventOf : Line → Option String)
    (dropped : Nat → Nat → Line) :
    StepMachine Calls Move Unit :=
  Interleave.machine .opening append
    (advance eventOf dropped)

/- The line that an appender has written. -/
def Appender.wrote : Appender → Option Line
| .written line => some line
| _ => none

/- The lines that the appenders have written. -/
def appended
    (s : Calls) : List Line :=
  s.calls.filterMap Appender.wrote

end EventLog
