import AgentWays.Chat.Route
import Mathlib.Data.List.DropRight

/-
  Messages held after Enter before they are sent: the queue,
  and the pane that holds into it, sends from it and takes
  back from it. What the message bus answers to a send and
  the disk to a write are parameters of the act.

  Key definitions include:
    * `Chat.Held`, `Chat.Pending`
    * `Chat.Pending.hold`
    * `Chat.Pane`, `Chat.Act`
    * `Chat.Pane.step`
-/

------------------------------------------------------------
-- Held Messages
------------------------------------------------------------

namespace Chat

open RustText

/- A kept file's path. -/
abbrev Path := Text

/- `Source`: how an entry came to be in the feed. -/
inductive Source
| enter
| parked (origins : List Path)
| kept
    (path : Path)
    (draft viewKnown cutShort maybeSent : Bool)
deriving DecidableEq, Repr

/- `Refused`: a send that did not go. -/
structure Refused where
  quiet : Bool
deriving DecidableEq, Repr

structure Held where
  id : Nat
  text : Text
  tab : Tab
  dest : Text
  label : Text
  due : Nat
  refused : Option Refused
  touched : Nat
  source : Source
deriving DecidableEq, Repr

def Held.isDraft
    (h : Held) : Bool :=
  match h.source with
  | .parked _ => true
  | .kept _ draft _ _ _ => draft
  | .enter => false

def Held.sendable
    (h : Held) : Bool :=
  h.source == .enter

/- Still counting down. -/
def Held.counting
    (h : Held) : Bool :=
  h.refused.isNone

/- Restored from a file that did not note its view. -/
def Held.viewUnknown
    (h : Held) : Bool :=
  match h.source with
  | .kept _ _ viewKnown _ _ => !viewKnown
  | _ => false

/- The kept files an entry's text came from. -/
def Held.paths
    (h : Held) : List Path :=
  match h.source with
  | .enter => []
  | .parked origins => origins
  | .kept path _ _ _ _ => [path]

/- Restored from a kept file. -/
def Held.restored
    (h : Held) : Bool :=
  match h.source with
  | .kept _ _ _ _ _ => true
  | _ => false

def Held.isParked
    (h : Held) : Bool :=
  match h.source with
  | .parked _ => true
  | _ => false

/- `parked_origins`. -/
def Held.parkedOrigins
    (h : Held) : List Path :=
  match h.source with
  | .parked origins => origins
  | _ => []

------------------------------------------------------------
-- The Queue
------------------------------------------------------------

structure Pending where
  held : List Held
  nextId : Nat
  writes : Nat
deriving DecidableEq, Repr

/- What `hold` did with a message. -/
inductive Hold
| now
| held (id : Nat)
deriving DecidableEq, Repr

/- A message with one more line. -/
def Held.join
    (text : Text)
    (due touched : Nat)
    (h : Held) : Held :=
  { h with
    text := h.text ++ '\n' :: text
    due := due
    touched := touched }

/- The first message counting down for a route, joined. -/
def joinFirst
    (text dest : Text)
    (due touched : Nat) :
    List Held → Option (Nat × List Held)
| [] => none
| h :: rest =>
    if h.counting && h.dest == dest then
      some (h.id, h.join text due touched :: rest)
    else
      (joinFirst text dest due touched rest).map
        fun found => (found.1, h :: found.2)

namespace Pending

def hold
    (p : Pending)
    (text : Text)
    (tab : Tab)
    (dest label : Text)
    (now delay : Nat) : Pending × Hold :=
  let writes := p.writes + 1
  let due := now + delay
  match joinFirst text dest due writes p.held with
  | some (id, held) =>
      ({ p with held := held, writes := writes }, .held id)
  | none =>
      if delay = 0 then ({ p with writes := writes }, .now)
      else
        let id := p.nextId + 1
        ({ held := p.held ++
            [{ id := id, text := text, tab := tab, dest := dest,
               label := label, due := due, refused := none,
               touched := writes, source := .enter }]
           nextId := id
           writes := writes }, .held id)

/- Back in its place, before the first of a later number. -/
def refuse
    (p : Pending)
    (h : Held)
    (refused : Refused) : Pending :=
  let writes := p.writes + 1
  let back :=
    { h with refused := some refused, touched := writes }
  { p with
    held := p.held.takeWhile (fun o => decide (o.id ≤ h.id)) ++
      back ::
        p.held.dropWhile (fun o => decide (o.id ≤ h.id))
    writes := writes }

/- The message written to last, the latest of equals. -/
def newest
    (p : Pending) : Option (Held × Nat) :=
  p.held.zipIdx.foldl
    (fun best h =>
      match best with
      | none => some h
      | some b =>
          if b.1.touched ≤ h.1.touched then some h
          else some b)
    none

def recallNewest
    (p : Pending) : Option (Held × Pending) :=
  p.newest.map fun h =>
    (h.1, { p with held := p.held.eraseIdx h.2 })

def «recall»
    (p : Pending)
    (id : Nat) : Option (Held × Pending) :=
  (p.held.find? (fun h => h.id == id)).map fun h =>
    (h, { p with held := p.held.eraseP (fun o => o.id == id) })

/- `take_where`: what is picked, and what is left. -/
def takeWhere
    (p : Pending)
    (pick : Held → Bool) : List Held × Pending :=
  (p.held.filter pick,
    { p with held := p.held.filter (fun h => !pick h) })

/- An entry that never counts down. -/
def add
    (p : Pending)
    (h : Held)
    (last : Bool) : Pending :=
  let id := p.nextId + 1
  let writes := p.writes + 1
  { held := p.held ++
      [{ h with
         id := id
         touched := if last then writes else 0
         refused := some { quiet := false } }]
    nextId := id
    writes := writes }

end Pending

/- `with_draft`: the text recalled, then what was typed. -/
def withDraft
    (recalled draft : Text) : Text :=
  if draft = [] then recalled
  else recalled ++ '\n' :: draft

------------------------------------------------------------
-- The Pane
------------------------------------------------------------

/- The channels listed, and the name a route is shown by. -/
structure World where
  names : List Text
  flagLabel : Text → Tab → Option Text

/- What the bus made of a send. -/
inductive Answer
| taken
| quiet (status : Text)
| failed (status : Text)
deriving DecidableEq, Repr

/- Why a message is back in the feed. -/
inductive Refusal
| gone (channel : Text)
| elsewhere (label : Text)
| quiet (status : Text)
| failed (label status : Text)
deriving DecidableEq, Repr

/- What follows the first `: ` of a status. -/
def afterColon : Text → Option Text
| ':' :: ' ' :: rest => some rest
| _ :: rest => afterColon rest
| [] => none

def Refusal.why : Refusal → Text
| .gone channel =>
    "not sent: #".toList ++ channel ++ " is gone".toList
| .elsewhere label =>
    "not sent: it no longer goes to ".toList ++ label
| .quiet what =>
    "not sent: ".toList ++ what ++
      "; recall it and Enter sends it anyway".toList
| .failed label status =>
    "not sent to ".toList ++ label ++ ": ".toList ++ status

/- How an entry left the queue. -/
inductive Way
| sent (fg : Tab)
| recalled
| back
| kept
| discarded
deriving DecidableEq, Repr

/- What the pane did, for whoever watches it. -/
inductive Event
| held (id : Nat) (text : Text) (tab : Tab) (dest : Text)
| left (way : Way) (h : Held)
| refused (why : Refusal) (h : Held)
| settled (paths : List Path)
deriving DecidableEq, Repr

structure Pane where
  world : World
  foreground : Tab
  box : Text
  boxOrigins : List Path
  sendAnyway : Option (Text × Tab)
  pending : Pending
  delay : Nat
  dryRun : Bool
  journal : List Event

/- A text claimed from an earlier chat's kept file. -/
structure Claimed where
  path : Path
  text : Text
  tab : Option Tab
  dest : Text
  label : Text
  draft : Bool
  sending : Bool
  cutShort : Bool
deriving DecidableEq, Repr

/- What the bus answers to each message and to the box. -/
structure Answers where
  held : Nat → Answer
  box : Answer

/- What the disk answers to each entry and to the box. -/
structure Written where
  held : Nat → Bool
  box : Option Path

inductive Act
| typed (text : Text)
| world (w : World)
| delay (d : Nat)
| shown (t : Tab)
| enter (now : Nat) (answers : Answers)
| sendNow (now : Nat) (answers : Answers)
| tick (now : Nat) (guarded : Bool) (answers : Answers)
| sendAll (answers : Answers)
| recallNewest
| recallEntry (n : Nat)
| keepRest (written : Written)
| keepDrafts (written : Written)
| restore (claimed : List Claimed)
| discard

/- `trim_end`. -/
def trimEnd
    (text : Text) : Text :=
  text.rdropWhile isWhitespace

namespace Pane

section Steps

variable (lower : Text → Text)

def noteAll
    (p : Pane)
    (events : List Event) : Pane :=
  { p with journal := p.journal ++ events }

def note
    (p : Pane)
    (e : Event) : Pane :=
  p.noteAll [e]

def withQueue
    (p : Pane)
    (q : Pending) : Pane :=
  { p with pending := q }

/- Kept files removed; a dry run removes nothing. -/
def settle
    (p : Pane)
    (paths : List Path) : Pane :=
  if p.dryRun then p else p.note (.settled paths)

/- `settle_box`. -/
def settleBox
    (p : Pane) : Pane :=
  { p.settle p.boxOrigins with boxOrigins := [] }

def normalTab
    (p : Pane) : Tab :=
  normalize p.foreground p.world.names

/- `draft`: what is typed, trimmed, when it is anything. -/
def draft
    (p : Pane) : Option Text :=
  if trimEnd p.box = [] then none else some (trimEnd p.box)

def labelOf
    (p : Pane)
    (text : Text)
    (fg : Tab) : Text :=
  (p.world.flagLabel text fg).getD ('#' :: sendScope fg)

/- `route_of`: no route for a slash command. -/
def routeOf
    (p : Pane)
    (text : Text)
    (fg : Tab) : Text × Text :=
  ((destination lower text fg).getD [], p.labelOf text fg)

------------------------------------------------------------
-- Sends
------------------------------------------------------------

/- `refuse`. -/
def refuse
    (p : Pane)
    (h : Held)
    (why : Refusal)
    (quiet : Bool) : Pane :=
  (p.withQueue (p.pending.refuse h ⟨quiet⟩)).note
    (.refused why h)

/- Why a route no longer resolves as it did. -/
def lostRoute
    (h : Held)
    (fg : Tab) : Refusal :=
  match h.tab with
  | .channel c =>
      if fg ≠ h.tab then .gone c else .elsewhere h.label
  | _ => .elsewhere h.label

/-
  `send_held_noted`: a message off the queue, sent where it
  was held for or put back.
-/
def sendHeld
    (answer : Answer)
    (p : Pane)
    (h : Held) : Pane :=
  let fg := normalize h.tab p.world.names
  if destination lower h.text fg = some h.dest then
    match answer with
    | .taken => p.note (.left (.sent fg) h)
    | .quiet status =>
        { p with sendAnyway := none }.refuse h
          (match afterColon status with
          | some what => .quiet what
          | none => .failed h.label status) true
    | .failed status =>
        -- An offer left from the box is taken for this one's.
        let quiet := p.sendAnyway.isSome
        { p with sendAnyway := none }.refuse h
          (match quiet, afterColon status with
          | true, some what => .quiet what
          | _, _ => .failed h.label status) quiet
  else p.refuse h (lostRoute h fg) false

/- One entry of `send_each`, if it is still there. -/
def sendOne
    (answers : Answers)
    (p : Pane)
    (id : Nat) : Pane :=
  match p.pending.recall id with
  | none => p
  | some (h, q) =>
      (p.withQueue q).sendHeld lower (answers.held id) h

/- `send_each`: each entry picked, oldest first. -/
def sendEach
    (which : Held → Bool)
    (answers : Answers)
    (p : Pane) : Pane :=
  ((p.pending.held.filter which).map Held.id).foldl
    (sendOne lower answers) p

def sendDue
    (now : Nat)
    (answers : Answers)
    (p : Pane) : Pane :=
  p.sendEach lower
    (fun h => h.counting && decide (h.due ≤ now)) answers

/- `send`: the box as it stands. -/
def send
    (answer : Answer)
    (p : Pane) : Pane :=
  let text := p.box
  let fg := p.normalTab
  let p := { p with sendAnyway := none }
  match answer with
  | .taken => { p with box := [] }.settleBox
  | .quiet _ => { p with sendAnyway := some (text, fg) }
  | .failed _ => p

/- `hold_draft`: false leaves the draft to be sent at once. -/
def holdDraft
    (fg : Tab)
    (now : Nat)
    (answers : Answers)
    (p : Pane) : Pane × Bool :=
  if p.delay = 0 ∧ p.pending.held = [] then (p, false)
  else
    let text := trimEnd p.box
    if text = [] || !fg.composes then (p, false)
    else
      match destination lower text fg with
      | none => (p, false)
      | some dest =>
          match p.pending.hold text fg dest
              (p.labelOf text fg) now p.delay with
          | (q, .now) => (p.withQueue q, false)
          | (q, .held id) =>
              (({ p.withQueue q with
                  sendAnyway := none
                  box := [] }.settleBox.note
                (.held id text fg dest)).sendDue
                  lower now answers, true)

def enter
    (now : Nat)
    (answers : Answers)
    (p : Pane) : Pane :=
  let fg := p.normalTab
  if p.sendAnyway = some (p.box, fg) then p.send answers.box
  else
    match p.holdDraft lower fg now answers with
    | (p, true) => p
    | (p, false) => p.send answers.box

/- `send_now`. -/
def sendNow
    (now : Nat)
    (answers : Answers)
    (p : Pane) : Pane :=
  let fg := p.normalTab
  let text := trimEnd p.box
  let dest := destination lower text fg
  if !p.pending.held.any Held.sendable || !fg.composes ||
      (dest.isNone && text ≠ []) then p.send answers.box
  else
    let p := { p with sendAnyway := none }
    match dest.filter (fun _ => decide (text ≠ [])) with
    | none => p.sendEach lower Held.sendable answers
    | some dest =>
        match p.pending.hold text fg dest
            (p.labelOf text fg) now 0 with
        | (q, .now) => (p.withQueue q).send answers.box
        | (q, .held id) =>
            ({ p.withQueue q with box := [] }.settleBox.note
              (.held id text fg dest)).sendOne lower answers id

------------------------------------------------------------
-- Drafts And Recalls
------------------------------------------------------------

/- `draft_back`: the shown view's draft into an empty box. -/
def draftBack
    (p : Pane) : Pane :=
  if p.box ≠ [] || !p.foreground.composes then p
  else
    match p.pending.held.find? (fun h =>
        h.isDraft && h.tab == p.foreground &&
          !h.viewUnknown) with
    | none => p
    | some found =>
        match p.pending.recall found.id with
        | none => p
        | some (h, q) =>
            { p.withQueue q with
              boxOrigins := p.boxOrigins ++ h.paths
              box := h.text }.note (.left .back h)

/- `set_tab`. -/
def setTab
    (t : Tab)
    (p : Pane) : Pane :=
  if t = p.foreground then p
  else
    { p with sendAnyway := none, foreground := t }.draftBack

/- `park_draft`: the box's draft as an entry of its view. -/
def parkDraft
    (p : Pane) : Pane :=
  match p.draft with
  | none => p
  | some text =>
      let route := p.routeOf lower text p.foreground
      { p.withQueue (p.pending.add
          { id := 0, text := text, tab := p.foreground,
            dest := route.1, label := route.2, due := 0,
            refused := none, touched := 0,
            source := .parked p.boxOrigins } false) with
        boxOrigins := []
        box := [] }

/- `recalled`: shown in its own view, then in the box. -/
def recalled
    (p : Pane)
    (h : Held) : Pane :=
  let p := p.note (.left .recalled h)
  let p :=
    if !h.viewUnknown ∧
        normalize h.tab p.world.names = h.tab ∧
        p.normalTab ≠ h.tab then
      (p.parkDraft lower).setTab h.tab
    else p
  let box := withDraft h.text p.box
  { p with
    sendAnyway :=
      if h.refused = some { quiet := true } ∧
          box = h.text then
        some (h.text, h.tab)
      else none
    boxOrigins := p.boxOrigins ++ h.paths
    box := box }

/- `recall_newest`. -/
def recallNewest
    (p : Pane) : Pane :=
  match p.pending.recallNewest with
  | none => p
  | some (h, q) => (p.withQueue q).recalled lower h

/- `recall_entry`: a click on the `n`th message waiting. -/
def recallEntry
    (n : Nat)
    (p : Pane) : Pane :=
  match p.pending.held[n]? with
  | none => p
  | some found =>
      match p.pending.recall found.id with
      | none => p
      | some (h, q) => (p.withQueue q).recalled lower h

------------------------------------------------------------
-- Keeping And Restoring
------------------------------------------------------------

/- One entry kept, when its file could be written. -/
def keepOne
    (written : Written)
    (p : Pane)
    (id : Nat) : Pane :=
  match p.pending.held.find? (fun h => h.id == id) with
  | none => p
  | some h =>
      if written.held id then
        ((p.withQueue
          (p.pending.takeWhere (fun o => o.id == id)).2).note
            (.left .kept h)).settle h.parkedOrigins
      else p

/- The box's draft kept: its new file is the one it has. -/
def keepBox
    (written : Written)
    (p : Pane) : Pane :=
  match p.draft, written.box with
  | some _, some path =>
      { p.settle p.boxOrigins with boxOrigins := [path] }
  | _, _ => p

/- Whether every text `keep` picked was written. -/
def keptAll
    (which : Held → Bool)
    (written : Written)
    (p : Pane) : Bool :=
  ((p.pending.held.filter which).all
    fun h => written.held h.id) &&
    (p.draft.isNone || written.box.isSome)

/- `keep`. -/
def keep
    (which : Held → Bool)
    (written : Written)
    (p : Pane) : Pane :=
  if p.dryRun then
    let taken := p.pending.takeWhere which
    (p.withQueue taken.2).noteAll
      (taken.1.map (Event.left .kept))
  else
    let done :=
      (((p.pending.held.filter which).map Held.id).foldl
        (keepOne written) p).keepBox written
    if p.keptAll which written then
      { done with boxOrigins := [] }
    else done

/- `discard_pending`. -/
def discard
    (p : Pane) : Pane :=
  let origins :=
    p.boxOrigins ++ p.pending.held.flatMap Held.parkedOrigins
  { (p.withQueue { p.pending with held := [] }).noteAll
      (p.pending.held.map (Event.left .discarded)) with
    boxOrigins := [] }.settle origins

/- A view that is there, to write in. -/
def live
    (p : Pane)
    (tab : Option Tab) : Bool :=
  match tab with
  | none => false
  | some t =>
      t.composes && decide (normalize t p.world.names = t)

/- `rposition`: the last item a test picks. -/
def lastIdx
    (pick : Claimed → Bool)
    (claimed : List Claimed) : Option Nat :=
  (claimed.reverse.findIdx? pick).map
    fun i => claimed.length - 1 - i

def addClaimed
    (p : Pane)
    (c : Claimed) : Pane :=
  p.withQueue (p.pending.add
    { id := 0, text := c.text, tab := c.tab.getD .merged,
      dest := c.dest, label := c.label, due := 0,
      refused := none, touched := 0,
      source := .kept c.path c.draft c.tab.isSome c.cutShort
        c.sending } true)

/- The newest draft in the box of its own view. -/
def boxClaimed
    (p : Pane)
    (c : Claimed) : Pane :=
  let p := p.setTab (c.tab.getD .merged)
  { p with
    box := c.text
    boxOrigins := p.boxOrigins ++ [c.path] }

/- `restore_unsent`, of what was claimed. -/
def restore
    (claimed : List Claimed)
    (p : Pane) : Pane :=
  let boxed :=
    if p.box = [] then
      lastIdx
        (fun c => c.draft && !c.cutShort && p.live c.tab)
        claimed
    else none
  match boxed.bind (fun i => claimed[i]?) with
  | none => claimed.foldl addClaimed p
  | some c =>
      (claimed.eraseIdx (boxed.getD 0)).foldl addClaimed
        (p.boxClaimed c)

------------------------------------------------------------
-- Steps
------------------------------------------------------------

def step
    (p : Pane) : Act → Pane
| .typed text => { p with box := text }
| .world w => { p with world := w }
| .delay d => { p with delay := d }
| .shown t => p.setTab t
| .enter now answers => p.enter lower now answers
| .sendNow now answers => p.sendNow lower now answers
| .tick now guarded answers =>
    if guarded then p else p.sendDue lower now answers
| .sendAll answers =>
    p.sendEach lower Held.sendable answers
| .recallNewest => p.recallNewest lower
| .recallEntry n => p.recallEntry lower n
| .keepRest written =>
    p.keep (fun h => !h.restored) written
| .keepDrafts written => p.keep Held.isParked written
| .restore claimed => p.restore claimed
| .discard => p.discard

end Steps

end Pane

end Chat
