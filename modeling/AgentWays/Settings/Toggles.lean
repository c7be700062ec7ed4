import AgentWays.Lib.RustText
import AgentWays.Lib.SegPattern
import AgentWays.Lib.SortDedup
import AgentWays.Lib.TopRanked
import Mathlib.Data.List.MinMax
import Mathlib.Data.Prod.Lex
import Mathlib.Data.String.Basic

/-
  The toggles of a project: which ways a key switches, which
  key of several wins, and what lint says of a key written
  for the rule before patterns.

  Key definitions include:
    * `Toggles.toggleMatches`
    * `Toggles.winningToggle`, `Toggles.wayToggledOff`
    * `Toggles.tiedToggles`
    * `Toggles.overlaps`
    * `Toggles.oldStarAdvice`
-/

------------------------------------------------------------
-- Patterns
------------------------------------------------------------

namespace Toggles

open RustText SegPattern

/- A segment of a key or of a way's id. -/
abbrev Segment := List Char

/- A toggle: its key, and whether it enables. -/
abbrev Toggle := String × Bool

def segments
    (s : String) : List Segment :=
  s.toList.splitOn '/'

def piece
    (s : Segment) : Piece Segment :=
  if s = "**".toList then .many
  else if s = "*".toList then .one
  else .lit s

def pattern
    (key : String) : List (Piece Segment) :=
  (segments key).map piece

/- `is_toggle_pattern`. -/
def isTogglePattern
    (key : String) : Bool :=
  (segments key).any
    fun s => s == "*".toList || s == "**".toList

/- `toggle_matches`. -/
def toggleMatches
    (key wayId : String) : Bool :=
  covers (pattern key) (segments wayId)

/- `overlaps`: whether two keys match a way in common. -/
def overlaps
    (a b : String) : Bool :=
  meets (pattern a) (pattern b)

------------------------------------------------------------
-- The Winning Toggle
------------------------------------------------------------

/- An exact key, then more literals, then fewer `**`. -/
abbrev Rank := Bool ×ₗ ℕ ×ₗ ℕᵒᵈ

/- `toggle_rank`. -/
def toggleRank
    (key : String) : Rank :=
  let literal :=
    (segments key).countP
      fun s => s ≠ "*".toList && s ≠ "**".toList
  let doubles := (segments key).countP (· = "**".toList)
  toLex (!isTogglePattern key,
    toLex (literal, OrderDual.toDual doubles))

/- `top_toggles`: those matching at the highest rank. -/
def topToggles
    (toggles : List Toggle)
    (wayId : String) : List Toggle :=
  TopRanked.tops (fun t => toggleRank t.1)
    (toggles.filter fun t => toggleMatches t.1 wayId)

/- Off before on, then the least key. -/
def toggleOrder
    (t : Toggle) : Bool ×ₗ String :=
  toLex (t.2, t.1)

/- `winning_toggle`. -/
def winningToggle
    (toggles : List Toggle)
    (wayId : String) : Option Toggle :=
  (topToggles toggles wayId).argmin toggleOrder

/- `way_toggled_off`. -/
def wayToggledOff
    (toggles : List Toggle)
    (wayId : String) : Bool :=
  (winningToggle toggles wayId).any fun t => !t.2

/- `disabling_toggle`, over both lists of the config. -/
def disablingToggle
    (enabledWays disabledWays : List String)
    (wayId : String) : Option String :=
  (winningToggle
    (enabledWays.map (fun k => (k, true)) ++
      disabledWays.map (fun k => (k, false))) wayId).bind
    fun t => if t.2 then none else some t.1

/- `tied_toggles`. -/
def tiedToggles
    (toggles : List Toggle)
    (wayId : String) : List String :=
  let top := topToggles toggles wayId
  if top.any (fun t => t.2) && top.any (fun t => !t.2) then
    SortDedup.sorted (top.map Prod.fst)
  else []

/- `ties`: each set of tied keys, with its first way. -/
def ties
    (toggles : List Toggle)
    (ids : List String) : List (List String × String) :=
  ids.foldl
    (fun out id =>
      let keys := tiedToggles toggles id
      if !keys.isEmpty && !out.any (fun t => t.1 == keys) then
        out ++ [(keys, id)]
      else out)
    []

------------------------------------------------------------
-- The Rule Before Patterns
------------------------------------------------------------

/- `pre_pattern_rank`. -/
def prePatternRank
    (key wayId : String) : Option Nat :=
  match stripSuffix key "/*" with
  | none => if key = wayId then some (2 ^ 64 - 1) else none
  | some dir =>
      if wayId == dir ||
          (stripPrefix wayId dir).any
            (fun r => decide (1 < r.length) &&
              startsWith r "/") then
        some dir.utf8ByteSize
      else none

/- `pre_pattern_toggle`: the first of the greatest rank. -/
def prePatternToggle
    (toggles : List Toggle)
    (wayId : String) : Option Bool :=
  (toggles.foldl
    (fun (best : Option (Nat × Bool)) t =>
      match prePatternRank t.1 wayId, best with
      | none, _ => best
      | some rank, none => some (rank, t.2)
      | some rank, some b =>
          if b.1 < rank then some (rank, t.2) else some b)
    none).map Prod.snd

------------------------------------------------------------
-- Advice On Old Keys
------------------------------------------------------------

/- The directory of a key `dir/*`, when it is one. -/
def starDir
    (key : String) : Option String :=
  (stripSuffix key "/*").filter
    fun d => d ≠ "" && !contains d "*"

/- A way at a directory, or under it. -/
def under
    (dir id : String) : Bool :=
  id == dir ||
    (stripPrefix id dir).any (fun r => startsWith r "/")

def below
    (dir id : String) : Bool :=
  (stripPrefix id dir).any (fun r => startsWith r "/")

/- The value a file gives a key, by its first entry. -/
def valueOf
    (toggles : List Toggle)
    (key : String) : Option Bool :=
  (toggles.find? (fun t => t.1 == key)).map Prod.snd

/- The other keys that bear on a directory's ways. -/
def othersOn
    (key dir : String)
    (toggles : List Toggle)
    (keys : List String)
    (ids : Option (List String)) : List String :=
  keys.filter fun k =>
    k ≠ key &&
      !(!isTogglePattern k && (valueOf toggles k).isSome) &&
      match ids with
      | some ids =>
          ids.any fun id =>
            under dir id &&
              (toggleMatches k id ||
                (prePatternRank k id).isSome)
      | none => overlaps k dir || overlaps k (dir ++ "/**")

/- What lint says of a key `dir/*`. -/
inductive Advice
| sets
| outranks (lost : Bool) (together : List String)
| unchecked (together : List String)
| noWay
| noReplacement (lost : Bool) (together : List String)
| remove (note : String)
| replace
    (coversDir hasChildren : Bool)
    (add : List Toggle)
    (note : String)
deriving DecidableEq, Repr

def onOff
    (on : Bool) : String :=
  if on then "on" else "off"

/- What is to be written for the key, and said of `dir`. -/
def replacement
    (dir : String)
    (on : Bool)
    (toggles : List Toggle)
    (keys : List String)
    (dirIsWay hasChildren : Bool) :
    List Toggle × String × Bool :=
  let sub :=
    if hasChildren then [(dir ++ "/**", on)] else []
  if keys.contains dir then
    match valueOf toggles dir with
    | some own =>
        if own = on then (sub, "", dirIsWay)
        else if dirIsWay then
          (sub,
            "; the existing `" ++ dir ++ ": " ++
              (if own then "true" else "false") ++
              "` stays, so " ++ dir ++ " itself stays " ++
              onOff own, false)
        else (sub, "", false)
    | none =>
        if dirIsWay then
          (sub,
            "; the existing `" ++ dir ++
              "` key sets no `enabled`, so " ++ dir ++
              " itself is not switched by it", false)
        else (sub, "", false)
  else if dirIsWay then ((dir, on) :: sub, "", true)
  else (sub, "", false)

/- The file with the key taken out and others put in. -/
def rewritten
    (key : String)
    (toggles add : List Toggle) : List Toggle :=
  toggles.filter (fun t => t.1 ≠ key) ++ add

/- `old_star_advice`. -/
def oldStarAdvice
    (key : String)
    (toggles : List Toggle)
    (keys : List String)
    (ids : Option (List String)) : Option Advice :=
  (starDir key).map fun dir =>
    match valueOf toggles key with
    | none => .sets
    | some on =>
        let sub := dir ++ "/**"
        let ids := ids.filter (fun ids => !ids.isEmpty)
        let dirIsWay := ids.all (fun ids => ids.contains dir)
        let others := othersOn key dir toggles keys ids
        if keys.contains sub then
          .outranks dirIsWay
            (sub :: others.filter (fun k => k ≠ sub))
        else
          match ids with
          | none => .unchecked others
          | some ids =>
              let hasChildren := ids.any (below dir)
              if !dirIsWay && !hasChildren then .noWay
              else
                let r :=
                  replacement dir on toggles keys dirIsWay
                    hasChildren
                let after := rewritten key toggles r.1
                let statesKept :=
                  (ids.filter (under dir)).all fun id =>
                    (prePatternToggle toggles id ==
                      some false) == wayToggledOff after id
                let before := ties toggles ids
                let tiesKept :=
                  (ties after ids).all fun t =>
                    before.any (fun b => b.1 == t.1)
                if !(statesKept && tiesKept) then
                  .noReplacement dirIsWay others
                else if r.1.isEmpty then .remove r.2.1
                else
                  .replace r.2.2 hasChildren r.1 r.2.1

/- The keys to read together, as lint lists them. -/
def together
    (others : List String) : String :=
  if others.isEmpty then ""
  else
    ", so read it together with " ++
      ", ".intercalate
        (others.map fun k => "`" ++ k ++ "`")

def lostOf
    (dir : String)
    (dirIsWay : Bool) : String :=
  if dirIsWay then dir ++ " itself or the ways deeper down"
  else "the ways deeper down"

def scopeOf
    (dir : String)
    (coversDir hasChildren : Bool) : String :=
  if coversDir then
    if hasChildren then dir ++ " and every way under it"
    else dir ++ ", which has no ways under it"
  else "every way under " ++ dir

/- The line lint prints. -/
def Advice.said
    (dir : String)
    (a : Advice) : String :=
  let head := "`/*` matches only the ways directly under " ++ dir
  let sub := dir ++ "/**"
  match a with
  | .sets =>
      head ++ "; this key sets no `enabled`, so it switches " ++
        "nothing; remove it"
  | .outranks lost others =>
      head ++ ", and on those ways it outranks `" ++ sub ++
        "`; it no longer covers " ++ lostOf dir lost ++
        together others
  | .unchecked others =>
      head ++ "; it no longer covers " ++ lostOf dir true ++
        ", and with no shipped ways found no replacement is " ++
        "checked" ++ together others
  | .noWay =>
      head ++ "; no way sits at or under " ++ dir ++
        ", so it switches nothing; remove it"
  | .noReplacement lost others =>
      head ++ "; it no longer covers " ++ lostOf dir lost ++
        ", and no replacement of this key alone keeps every " ++
        "way as it was" ++ together others
  | .remove note =>
      head ++ "; no way sits under " ++ dir ++ ", and the `" ++
        dir ++ "` key already in the file covers it, so " ++
        "remove this key" ++ note
  | .replace coversDir hasChildren add note =>
      let named :=
        add.map fun t =>
          "`" ++ t.1 ++ ": " ++
            (if t.2 then "true" else "false") ++ "`"
      head ++ "; for " ++ scopeOf dir coversDir hasChildren ++
        ", replace this key with " ++
        " plus ".intercalate named ++ note

end Toggles
