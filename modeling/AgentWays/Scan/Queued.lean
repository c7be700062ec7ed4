import AgentWays.Lib.Json
import AgentWays.Lib.RustText

/-
  The queued-message lane: the messages an operator types
  while the agent works, which a transcript records as
  queue operations.

  A run takes the entries past a mark, which is the newest
  timestamp an earlier run has seen, and moves the mark.
  `parse` stands for `serde_json::from_str`.

  Key definitions include:
    * `Scan.collectQueued`
    * `Scan.isSystemEnvelope`
    * `Scan.messages`
-/

------------------------------------------------------------
-- Envelopes
------------------------------------------------------------

namespace Scan

open Json (Value)

/- `str::to_ascii_lowercase`; `Char.toLower` is ASCII alone. -/
def asciiLowercase
    (s : String) : String :=
  String.ofList (s.toList.map Char.toLower)

/- How the texts that a harness puts on the queue open. -/
def envelopeOpenings : List String :=
  ["<task-notification", "<system-reminder",
    "<local-command", "<command-", "<persisted-output",
    "[attend",
    "silence is a valid reply to the messages below;",
    "base directory for this skill:"]

def isSystemEnvelope
    (s : String) : Bool :=
  let t := asciiLowercase (RustText.trimStart s)
  envelopeOpenings.any (fun opening =>
    RustText.startsWith t opening)

end Scan

------------------------------------------------------------
-- One Read
------------------------------------------------------------

namespace Scan

open Json (Value)

structure QueuedScan where
  fragments : List String
  newest : Option String
deriving DecidableEq

/- A text field of a record. -/
def strAt
    (v : Value)
    (key : String) : Option String :=
  (v.get? key).bind Value.asStr

variable (parse : String → Option Value)

/- One line of a transcript, past the mark or not. -/
def collectLine
    (mark : Option String)
    (scan : QueuedScan)
    (line : String) : QueuedScan :=
  match parse line with
  | none => scan
  | some v =>
      if strAt v "type" ≠ some "queue-operation" ∨
          strAt v "operation" ≠ some "enqueue" then
        scan
      else
        match strAt v "timestamp" with
        | none => scan
        | some ts =>
            if mark.any (fun m => ts ≤ m) then scan
            else
              let newest :=
                if scan.newest.all (fun n => n < ts) then some ts
                else scan.newest
              let msg :=
                RustText.trim ((strAt v "content").getD "")
              if msg = "" ∨ isSystemEnvelope msg = true then
                { scan with newest := newest }
              else
                { fragments := scan.fragments ++ [msg]
                  newest := newest }

def collectQueued
    (content : String)
    (mark : Option String) : QueuedScan :=
  (RustText.lines content).foldl (collectLine parse mark)
    { fragments := []
      newest := none }

end Scan

------------------------------------------------------------
-- Runs
------------------------------------------------------------

namespace Scan

open Json (Value)

/- A session's mark file, and what its runs have matched. -/
structure Lane where
  mark : Option String
  matched : List String
deriving DecidableEq

/- `session::read_queued_scan_mark`. -/
def readQueuedScanMark
    (lane : Lane) : Option String :=
  (lane.mark.map RustText.trim).filter (fun s => s ≠ "")

variable (parse : String → Option Value)

/- One run of `messages`, on a transcript it can read or not. -/
def messages
    (lane : Lane) : Option String → Lane
| none => lane
| some content =>
    let scan :=
      collectQueued parse content (readQueuedScanMark lane)
    { mark := scan.newest.or lane.mark
      matched := lane.matched ++ scan.fragments }

/- The runs of a session, from its first. -/
def runs
    (reads : List (Option String)) : Lane :=
  reads.foldl (messages parse)
    { mark := none
      matched := [] }

end Scan
