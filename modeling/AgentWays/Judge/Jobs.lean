import AgentWays.Lib.KeyMap
import AgentWays.Lib.Interleave
import Mathlib.Data.String.Basic

/-
  The handoff of judge jobs to a host, and the session's
  engine, each call split at its file operations.

  A gate writes a job, waits for its answer and removes what
  is left of it; a host takes jobs and stores answers. The
  text of a file is given by a codec, and every file appears
  whole, so a temporary file is its call's alone and not
  part of the store. The clock counts milliseconds.

  `history` is what the calls returned, newest first; no
  call reads it.

  Key definitions include:
    * `JudgeJobs.Store`
    * `JudgeJobs.Call`
    * `JudgeJobs.act`
    * `JudgeJobs.session`
-/

------------------------------------------------------------
-- Data
------------------------------------------------------------

namespace JudgeJobs

/- How a value is written to a file and read back. -/
structure Codec (V T : Type) where
  encode : V → T
  decode : T → Option V
  decode_encode : ∀ v, decode (encode v) = some v

structure JudgeJob where
  model : String
  system : String
  prompt : String
  maxTokens : Nat
  timeoutMs : Nat
deriving DecidableEq

inductive Provider
| anthropic
| openrouter
| claudeCode
deriving DecidableEq

structure SessionEngine where
  engine : Option String
  reason : String
  provider : Option Provider
deriving DecidableEq

/- What the files of a session are written with. -/
structure Codecs (A T : Type) where
  job : Codec JudgeJob T
  answer : Codec A T
  engine : Codec SessionEngine T

/- What a gate's wait for its answer came to. -/
inductive Waited (A : Type)
| answered (answer : A)
| unclaimed
| silent (taken : Bool)
deriving DecidableEq

/-
  What a call returned. A wait that has returned says too
  whether the gate had found the job gone.
-/
inductive Return (A : Type)
| took (id : String) (job : JudgeJob)
| answered (id : String) (answer : A)
| waited (id : String) (result : Waited A) (claimed : Bool)
| finished (id : String)
| resolved (engine : SessionEngine)
deriving DecidableEq

structure JobFile (T : Type) where
  text : T
  modified : Nat

/-
  The session's files: the jobs pending, the jobs taken, the
  answers and the resolution, and whether a host registered.
  `minted` are the job ids in use.
-/
structure Store (A T : Type) where
  now : Nat
  host : Bool
  minted : List String
  jobs : KeyMap String (JobFile T)
  taken : KeyMap String (JobFile T)
  answers : KeyMap String T
  resolution : Option T
  history : List (Return A)

/- How long a job stays claimable past its own deadline. -/
def staleGrace : Nat := 1500

/- An id as the gates make them: digits and dashes. -/
def validId
    (id : String) : Bool :=
  !id.toList.isEmpty &&
    id.toList.all (fun c => c.isDigit ∨ c = '-')

end JudgeJobs

------------------------------------------------------------
-- Changes
------------------------------------------------------------

namespace JudgeJobs

variable {A T : Type}

def Store.returned
    (s : Store A T)
    (r : Return A) : Store A T :=
  { s with history := r :: s.history }

def Store.mint
    (s : Store A T)
    (id : String) : Store A T :=
  { s with minted := id :: s.minted }

def Store.placeJob
    (s : Store A T)
    (id : String)
    (text : T) : Store A T :=
  { s with
    jobs :=
      s.jobs.insert id { text := text, modified := s.now } }

def Store.removeJob
    (s : Store A T)
    (id : String) : Store A T :=
  { s with jobs := s.jobs.erase id }

/- The rename that claims a job. -/
def Store.claim
    (s : Store A T)
    (id : String)
    (file : JobFile T) : Store A T :=
  { s with
    jobs := s.jobs.erase id
    taken := s.taken.insert id file }

def Store.removeTaken
    (s : Store A T)
    (id : String) : Store A T :=
  { s with taken := s.taken.erase id }

def Store.placeAnswer
    (s : Store A T)
    (id : String)
    (text : T) : Store A T :=
  { s with answers := s.answers.insert id text }

def Store.removeAnswer
    (s : Store A T)
    (id : String) : Store A T :=
  { s with answers := s.answers.erase id }

def Store.publish
    (s : Store A T)
    (text : T) : Store A T :=
  { s with resolution := some text }

end JudgeJobs

------------------------------------------------------------
-- Calls
------------------------------------------------------------

namespace JudgeJobs

/- A step as it goes, or its file operation's error. -/
inductive Choice
| go
| fail
deriving DecidableEq

/- A gate: its job's id, and the times it waits by. -/
structure Gate where
  id : String
  claimBy : Nat
  deadline : Nat
deriving DecidableEq

/- The places of a call, from its start to its result. -/
inductive Call (A : Type)
-- write_job
| writing (gate : Gate) (job : JudgeJob)
| placing (gate : Gate) (job : JudgeJob)
| writeFailed
-- wait_answer
| reading (gate : Gate) (claimed : Bool)
| claimDue (gate : Gate) (claimed : Bool)
| withdrawing (gate : Gate)
| deadlineDue (gate : Gate) (claimed : Bool)
| lookTaken (gate : Gate) (claimed : Bool)
| lookAnswer (gate : Gate) (claimed : Bool)
-- finish
| finishJob (gate : Gate)
| finishTaken (gate : Gate)
| finishAnswer (gate : Gate)
| finished
-- take
| listing
| scanning (pending : List String)
| aging (id : String) (job : JudgeJob) (pending : List String)
| dropping (id : String) (pending : List String)
| renaming (id : String) (job : JudgeJob)
    (pending : List String)
| took (id : String) (job : JudgeJob)
| tookNone
-- answer
| answering (id : String) (answer : A)
| storing (id : String) (answer : A)
| answered
| noJob
| answerFailed
-- resolve_once
| resolving (resolve : Bool → SessionEngine)
| deciding (resolve : Bool → SessionEngine)
| linking (mine : SessionEngine)
| rereading
| resolved (engine : SessionEngine)
| unkept (engine : SessionEngine)
| unresolved

variable {A T : Type}

/- One step of a gate. -/
def gate
    (codecs : Codecs A T)
    (s : Store A T)
    (call : Call A)
    (choice : Choice) : Option (Store A T × Call A) :=
  match call, choice with
  | .writing g job, .go => some (s.mint g.id, .placing g job)
  | .placing g job, .go =>
      some
        (s.placeJob g.id (codecs.job.encode job),
          .reading g false)
  | .placing _ _, .fail => some (s, .writeFailed)
  | .reading g claimed, .go =>
      match (s.answers.get? g.id).bind codecs.answer.decode with
      | some a =>
          some
            (s.returned (.waited g.id (.answered a) claimed),
              .finishJob g)
      | none => some (s, .claimDue g claimed)
  | .claimDue g claimed, .go =>
      if !claimed ∧ g.claimBy ≤ s.now then
        some (s, .withdrawing g)
      else some (s, .deadlineDue g claimed)
  | .withdrawing g, .go =>
      if (s.jobs.get? g.id).isSome then
        some
          ((s.removeJob g.id).returned
              (.waited g.id .unclaimed true),
            .finishJob g)
      else some (s, .deadlineDue g true)
  | .deadlineDue g claimed, .go =>
      if g.deadline ≤ s.now then some (s, .lookTaken g claimed)
      else some (s, .reading g claimed)
  | .lookTaken g claimed, .go =>
      if (s.taken.get? g.id).isSome then
        some
          (s.returned (.waited g.id (.silent true) claimed),
            .finishJob g)
      else some (s, .lookAnswer g claimed)
  | .lookAnswer g claimed, .go =>
      some
        (s.returned
            (.waited g.id
              (.silent (s.answers.get? g.id).isSome) claimed),
          .finishJob g)
  | .finishJob g, .go => some (s.removeJob g.id, .finishTaken g)
  | .finishTaken g, .go =>
      some (s.removeTaken g.id, .finishAnswer g)
  | .finishAnswer g, .go =>
      some
        ((s.removeAnswer g.id).returned (.finished g.id),
          .finished)
  | _, _ => none

/- The jobs pending, oldest first. -/
def pendingIds
    (s : Store A T) : List String :=
  s.jobs.keys.filter (fun id => id.toList.head? ≠ some '.')

/- One step of a host. -/
def host
    (codecs : Codecs A T)
    (s : Store A T)
    (call : Call A)
    (choice : Choice) : Option (Store A T × Call A) :=
  match call, choice with
  | .listing, .go => some (s, .scanning (pendingIds s))
  | .scanning [], .go => some (s, .tookNone)
  | .scanning (id :: pending), .go =>
      match s.jobs.get? id with
      | none => some (s, .scanning pending)
      | some file =>
          match codecs.job.decode file.text with
          | none => some (s, .dropping id pending)
          | some job => some (s, .aging id job pending)
  | .dropping id pending, .go =>
      some (s.removeJob id, .scanning pending)
  | .aging id job pending, .go =>
      if (s.jobs.get? id).any
          (fun file =>
            job.timeoutMs + staleGrace < s.now - file.modified) then
        some (s, .dropping id pending)
      else some (s, .renaming id job pending)
  | .renaming id job pending, .go =>
      match s.jobs.get? id with
      | none => some (s, .scanning pending)
      | some file =>
          some
            ((s.claim id file).returned (.took id job),
              .took id job)
  | .answering id a, .go =>
      if validId id ∧ (s.taken.get? id).isSome then
        some (s, .storing id a)
      else some (s, .noJob)
  | .storing id a, .go =>
      some
        ((s.placeAnswer id (codecs.answer.encode a)).returned
            (.answered id a),
          .answered)
  | .storing _ _, .fail => some (s, .answerFailed)
  | _, _ => none

/- One step of a request for the session's engine. -/
def resolveOnce
    (codecs : Codecs A T)
    (s : Store A T)
    (call : Call A)
    (choice : Choice) : Option (Store A T × Call A) :=
  match call, choice with
  | .resolving resolve, .go =>
      match s.resolution.bind codecs.engine.decode with
      | some e => some (s.returned (.resolved e), .resolved e)
      | none => some (s, .deciding resolve)
  | .deciding resolve, .go =>
      if (resolve s.host).engine.isNone then
        some (s, .unkept (resolve s.host))
      else some (s, .linking (resolve s.host))
  | .linking mine, .go =>
      match s.resolution with
      | none =>
          some
            ((s.publish (codecs.engine.encode mine)).returned
                (.resolved mine),
              .resolved mine)
      | some _ => some (s, .rereading)
  | .linking _, .fail => some (s, .unresolved)
  | .rereading, .go =>
      match s.resolution.bind codecs.engine.decode with
      | some e => some (s.returned (.resolved e), .resolved e)
      | none => some (s, .unresolved)
  | _, _ => none

/- One step of any call. -/
def act
    (codecs : Codecs A T)
    (s : Store A T)
    (call : Call A)
    (choice : Choice) : Option (Store A T × Call A) :=
  (gate codecs s call choice).or
    ((host codecs s call choice).or
      (resolveOnce codecs s call choice))

/- The calls that are made. -/
inductive Request (A : Type)
| gate (gate : Gate) (job : JudgeJob)
| take
| answer (id : String) (answer : A)
| resolveOnce (resolve : Bool → SessionEngine)

def Request.call : Request A → Call A
| .gate g job => .writing g job
| .take => .listing
| .answer id a => .answering id a
| .resolveOnce resolve => .resolving resolve

/- What happens beside the calls. -/
inductive World
| tick (d : Nat)
| registerHost

def Store.world
    (s : Store A T) : World → Store A T
| .tick d => { s with now := s.now + d }
| .registerHost => { s with host := true }

abbrev Calls (A T : Type) := Interleave.Crew (Store A T) (Call A)

abbrev Move (A : Type) := Interleave.Move (Request A) Choice World

/- A session under any interleaving of its calls. -/
def session
    (codecs : Codecs A T) :
    StepMachine (Calls A T) (Move A) Unit :=
  Interleave.machine Request.call (act codecs) Store.world

/- A session whose state may hold a resolution already. -/
def initial
    (resolution : Option T) : Calls A T where
  shared :=
    { now := 0
      host := false
      minted := []
      jobs := .empty
      taken := .empty
      answers := .empty
      resolution := resolution
      history := [] }
  calls := []

end JudgeJobs
