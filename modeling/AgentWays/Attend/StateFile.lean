import AgentWays.Attend.Drain
import AgentWays.Lib.StepMachine

/-
  One session's state file and the six calls that write it.

  The file is a line for each field that has a value. Every
  write reads the file, merges it with what the caller has
  and writes the whole again: the seen-sets are united and
  pruned to the signals that are still there, `baselined` is
  kept once set, a mod field is the caller's when it has one,
  and the sensor's fields are the caller's at a checkpoint
  and the file's otherwise.

  Key definitions include:
    * `Attend.StateSnapshot`
    * `Attend.StateSnapshot.serialize`
    * `Attend.deserialize`
    * `Attend.merged`
    * `Attend.Call`, a write with the listing it found
    * `Attend.stateMachine`
-/

------------------------------------------------------------
-- The Snapshot
------------------------------------------------------------

namespace Attend

/-
  A session's state. The context percentage is in tenths:
  the sensor that has it rounds it to one decimal before it
  comes here.
-/
structure StateSnapshot where
  seenSignals : Finset String
  baselined : Bool
  disclosedThresholds : List UInt8
  contextPct : Option Nat
  replyHintShown : Bool
  gitBranch : Option String
  gitHead : Option String
  modVersion : Option String
  modStaleNoted : Option String

/- The snapshot `Default` gives. -/
def StateSnapshot.default : StateSnapshot :=
  { seenSignals := ∅
    baselined := false
    disclosedThresholds := []
    contextPct := none
    replyHintShown := false
    gitBranch := none
    gitHead := none
    modVersion := none
    modStaleNoted := none }

/- An order in which a hash set gives its elements. -/
structure HashOrder where
  iter : Finset String → List String
  nodup : ∀ s, (iter s).Nodup
  toFinset : ∀ s, (iter s).toFinset = s

end Attend

------------------------------------------------------------
-- The Writer
------------------------------------------------------------

namespace Attend

open RustText

/- `{:.1}` of a percentage. -/
def formatPct
    (tenths : Nat) : String :=
  toString (tenths / 10) ++ "." ++ toString (tenths % 10)

def joinThresholds
    (thresholds : List UInt8) : String :=
  String.intercalate ","
    (thresholds.map (fun t => toString t.toNat))

/- The version of the program, as its package has it. -/
def packageVersion : String := "0.1.0"

/- A field's line, when it has a value. -/
def fieldLine
    (key : String)
    (value : Option String) : List String :=
  value.toList.map (fun v => key ++ ": " ++ v)

def seenLines
    (order : HashOrder)
    (seen : Finset String) : List String :=
  let signals :=
    (order.iter seen).map (fun s => replace s "\n" "\\n")
  if signals.isEmpty then []
  else
    ("seen_signal_count: " ++ toString signals.length) ::
      signals.map (fun s => "seen_signal: " ++ s)

/- The lines of the file, in the order of the writer. -/
def StateSnapshot.lines
    (order : HashOrder)
    (s : StateSnapshot) : List String :=
  seenLines order s.seenSignals ++
    fieldLine "disclosed_thresholds"
      (if s.disclosedThresholds.isEmpty then none
        else some (joinThresholds s.disclosedThresholds)) ++
    fieldLine "context_pct" (s.contextPct.map formatPct) ++
    fieldLine "reply_hint_shown"
      (some (toString s.replyHintShown)) ++
    fieldLine "git_branch" s.gitBranch ++
    fieldLine "git_head" s.gitHead ++
    fieldLine "baselined"
      (if s.baselined then some "true" else none) ++
    fieldLine "mod_version" s.modVersion ++
    fieldLine "mod_stale_noted" s.modStaleNoted ++
    fieldLine "version" (some packageVersion)

def StateSnapshot.serialize
    (order : HashOrder)
    (s : StateSnapshot) : String :=
  String.join ((s.lines order).map (fun l => l ++ "\n"))

end Attend

------------------------------------------------------------
-- The Reader
------------------------------------------------------------

namespace Attend

open RustText

/- `parse` of a percentage with one decimal. -/
def parsePct
    (s : String) : Option Nat :=
  match splitOnce s '.' with
  | none => none
  | some (whole, tenth) =>
      if !whole.isEmpty && whole.toList.all Char.isDigit &&
          tenth.length == 1 &&
          tenth.toList.all Char.isDigit then
        some
          (10 * digitsValue whole.toList +
            digitsValue tenth.toList)
      else none

def parseThresholds
    (value : String) : List UInt8 :=
  (split value ',').filterMap
    (fun s => (parseUnsigned 8 (trim s)).map UInt8.ofNat)

/- The field a line gives. -/
def readField
    (s : StateSnapshot)
    (key value : String) : StateSnapshot :=
  if key = "seen_signal" then
    { s with
      seenSignals :=
        insert (replace value "\\n" "\n") s.seenSignals }
  else if key = "disclosed_thresholds" then
    { s with disclosedThresholds := parseThresholds value }
  else if key = "context_pct" then
    { s with contextPct := parsePct value }
  else if key = "reply_hint_shown" then
    { s with replyHintShown := value = "true" }
  else if key = "git_branch" then
    { s with gitBranch := some value }
  else if key = "git_head" then
    { s with gitHead := some value }
  else if key = "baselined" then
    { s with baselined := value = "true" }
  else if key = "mod_version" then
    { s with modVersion := some value }
  else if key = "mod_stale_noted" then
    { s with modStaleNoted := some value }
  else s

def readStateLine
    (s : StateSnapshot)
    (line : String) : StateSnapshot :=
  match splitOnceStr (trim line) ": " with
  | some (key, value) => readField s key value
  | none => s

def deserialize
    (content : String) : StateSnapshot :=
  (RustText.lines content).foldl readStateLine
    StateSnapshot.default

/- `load`: no file that can be read, no state. -/
def loadState
    (file : Option String) : Option StateSnapshot :=
  file.map deserialize

end Attend

------------------------------------------------------------
-- The Calls
------------------------------------------------------------

namespace Attend

/-
  The read-union-prune-write cycle, on what the file had and
  what the caller has. `existing` is the filenames of every
  signal, when they could be listed.
-/
def merged
    (disk mem : StateSnapshot)
    (fieldsFromDisk : Bool)
    (existing : Option (Finset String)) : StateSnapshot :=
  let fields := if fieldsFromDisk then disk else mem
  let union := disk.seenSignals ∪ mem.seenSignals
  { seenSignals :=
      match existing with
      | some names => union.filter (fun k => k ∈ names)
      | none => union
    baselined := disk.baselined || mem.baselined
    disclosedThresholds := fields.disclosedThresholds
    contextPct := fields.contextPct
    replyHintShown := fields.replyHintShown
    gitBranch := fields.gitBranch
    gitHead := fields.gitHead
    modVersion := mem.modVersion.or disk.modVersion
    modStaleNoted := mem.modStaleNoted.or disk.modStaleNoted }

/- What a caller asks of the store. -/
inductive Write where
| checkpoint (state : StateSnapshot)
| markSeen (keys : List String)
| baseline (keys : List String)
| recordModVersion (version : String)
| markModStaleNoted (installed : String)
| reopenColdStart

/-
  One call: what is asked, the signals it finds on disk, and
  the order its set is written in.
-/
structure Call where
  write : Write
  existing : Option (Finset String)
  order : HashOrder

def writeMerged
    (file : Option String)
    (call : Call)
    (mem : StateSnapshot)
    (fieldsFromDisk : Bool) : Option String :=
  let disk := (loadState file).getD StateSnapshot.default
  some
    ((merged disk mem fieldsFromDisk call.existing).serialize
      call.order)

/- The snapshot of a drain: its keys and nothing else. -/
def seenOnly
    (keys : List String)
    (baselined : Bool) : StateSnapshot :=
  { StateSnapshot.default with
    seenSignals := keys.toFinset
    baselined := baselined }

/- The file after a call. -/
def writeCall
    (file : Option String)
    (call : Call) : Option String :=
  match call.write with
  | .checkpoint state => writeMerged file call state false
  | .markSeen keys =>
      if keys.isEmpty then file
      else writeMerged file call (seenOnly keys false) true
  | .baseline keys =>
      writeMerged file call (seenOnly keys true) true
  | .recordModVersion version =>
      if ((loadState file).bind
          StateSnapshot.modVersion) = some version then file
      else
        writeMerged file call
          { StateSnapshot.default with
            modVersion := some version } true
  | .markModStaleNoted installed =>
      writeMerged file call
        { StateSnapshot.default with
          modStaleNoted := some installed } true
  | .reopenColdStart =>
      match loadState file with
      | none => file
      | some snap =>
          if snap.baselined then
            some
              ({ snap with baselined := false }.serialize
                call.order)
          else file

/- Runs of calls on one file. -/
def stateMachine : StepMachine (Option String) Call Unit :=
  { step := fun file call => (writeCall file call, ()) }

end Attend
