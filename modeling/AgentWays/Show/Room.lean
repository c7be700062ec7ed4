import AgentWays.Show.Budget

/-
  One hook's context keeps to its cap, and a call that shows
  nothing leaves the room as it was, but where a check's way
  fails while the check holds back room for its sections:
  that room stays held back.

  Key definitions include:
    * `Show.pulled`
    * `Show.KeepsCap`
    * `Show.Delivery.leaks`

  Main declarations:
    * `Show.keepsCap_iff`
-/

------------------------------------------------------------
-- What A Hook Keeps
------------------------------------------------------------

namespace Show

/- A check that comes to the budget, and pulls in its way. -/
def CheckCall.pulls
    (c : CheckCall) : Bool :=
  match c.passes with
  | .ok true => !c.wayHasFired
  | _ => false

/- What becomes of the way that a check pulls in. -/
def pulled
    (b : ContextBudget)
    (c : CheckCall) : Option (Except String Shown) :=
  if c.pulls then
    some (wayScored (b.reserve c.following) c.way).2
  else none

/- A check whose way fails, once room is held back for it. -/
def Delivery.leaks
    (d : Delivery) : Bool :=
  match d.call with
  | .way _ => false
  | .check c =>
      c.pulls &&
        match c.way.fireable with
        | .error _ => true
        | .ok _ => false

/-
  A hook's text has at most the cap's units, or is the first
  unit alone; a check and its way are shown together or not
  at all; and what shows nothing leaves the room as it was.
-/
structure KeepsCap
    (cap : Nat)
    (deliveries : List Delivery) : Prop where
  room :
    contextChars
          (trimEnd
            (lane.final (.new cap) deliveries).context) ≤ cap ∨
      ∃ unit,
        (lane.final (.new cap) deliveries).units = [unit] ∧
          trimEnd (lane.final (.new cap) deliveries).context =
            trimEnd unit
  withheld :
    ∀ t ∈ lane.trace (.new cap) deliveries, ∀ c shown,
      t.input.call = .check c →
        pulled t.before.budget c = some (.ok shown) →
          shown.outcome = .heldContextCap → t.output = ""
  together :
    ∀ t ∈ lane.trace (.new cap) deliveries, ∀ c shown,
      t.input.call = .check c →
        pulled t.before.budget c = some (.ok shown) →
          shown.body ≠ "" →
            t.output = shown.body ++ "\n" ++ c.sections
  nothing :
    ∀ t ∈ lane.trace (.new cap) deliveries,
      t.output = "" →
        t.after.budget.used = t.before.budget.used ∧
          t.after.budget.reserved = t.before.budget.reserved

end Show

------------------------------------------------------------
-- Texts
------------------------------------------------------------

namespace Show

theorem contextChars_append
    (s t : String) :
    contextChars (s ++ t) = contextChars s + contextChars t := by
  simp [contextChars, Utf16.encode_append]

@[simp] theorem contextChars_empty :
    contextChars "" = 0 := by
  decide

theorem contextChars_ofList_append
    (a b : List Char) :
    contextChars (String.ofList (a ++ b)) =
      contextChars (String.ofList a) +
        contextChars (String.ofList b) := by
  rw [String.ofList_append, contextChars_append]

/- A text of some characters has some units. -/
theorem contextChars_pos
    {s : String}
    (hSome : s ≠ "") :
    0 < contextChars s := by
  have hChars : s.toList ≠ [] := by
    simpa using hSome
  rcases List.exists_cons_of_ne_nil hChars with
    ⟨c, rest, hList⟩
  have hUnits : 0 < (Utf16.unitsOf c.toNat).length := by
    unfold Utf16.unitsOf
    split <;> simp
  simp only [contextChars, Utf16.encode, Utf16.ofChars,
    Utf16.ofCodePoints, hList, List.map_cons, List.flatMap_cons,
    List.length_append]
  omega

/- A trimmed text is a text's beginning. -/
theorem contextChars_trimEnd_le
    (s : String) :
    contextChars (trimEnd s) ≤ contextChars s := by
  have hSuffix :
      s.toList.reverse.dropWhile RustText.isWhitespace <:+
        s.toList.reverse :=
    List.dropWhile_suffix _
  rcases hSuffix with ⟨blank, hBlank⟩
  have hText :
      s =
        String.ofList
          ((s.toList.reverse.dropWhile
              RustText.isWhitespace).reverse ++
            blank.reverse) := by
    rw [← List.reverse_append, hBlank, List.reverse_reverse,
      String.ofList_toList]
  unfold trimEnd
  conv_rhs => rw [hText]
  rw [contextChars_ofList_append]
  omega

theorem trimEnd_append_separator
    (s : String) :
    trimEnd (s ++ "\n\n") = trimEnd s := by
  have hNewline : RustText.isWhitespace '\n' = true := by
    decide
  have hSeparator : "\n\n".toList = ['\n', '\n'] := by
    decide
  unfold trimEnd
  rw [String.toList_append, hSeparator, List.reverse_append]
  simp [hNewline]

end Show

------------------------------------------------------------
-- One Way
------------------------------------------------------------

namespace Show

variable {b b' : ContextBudget} {w : WayCall} {c : CheckCall}

/- A way fails, is held, or is charged whole, where it fits. -/
theorem wayScored_cases
    (b : ContextBudget)
    (w : WayCall) :
    (∃ e, w.fireable = .error e ∧
        wayScored b w = (b, .error e)) ∨
      (∃ body, w.fireable = .ok body) ∧
        ((∃ outcome, outcome ≠ .heldContextCap ∧
            wayScored b w = (b, .ok (.held outcome))) ∨
          wayScored b w =
              (b.refuse, .ok (.held .heldContextCap)) ∨
            ∃ shown, shown.outcome ≠ .heldContextCap ∧
              b.fitsChars (contextChars shown.body) = true ∧
                wayScored b w =
                  (b.charge shown.body, .ok shown)) := by
  unfold wayScored
  cases w.fireable with
  | error e => exact Or.inl ⟨e, rfl, rfl⟩
  | ok found =>
      refine Or.inr ⟨⟨found, rfl⟩, ?_⟩
      cases found with
      | none =>
          exact
            Or.inl ⟨.notFireable, by decide, rfl⟩
      | some body =>
          simp only
          split
          · exact Or.inl ⟨.heldRefire, by decide, rfl⟩
          · split
            · exact Or.inr (Or.inl rfl)
            · split
              · exact Or.inl ⟨.heldRefire, by decide, rfl⟩
              · unfold ContextBudget.admitText
                by_cases hFits :
                    b.fitsChars
                        (contextChars
                          (renderWay body w.macroOutput)) =
                      true
                · refine
                    Or.inr
                      (Or.inr
                        ⟨{ body := renderWay body w.macroOutput
                           outcome :=
                             if w.locked = .reFire then
                               .redisclosed
                             else .fired }, ?_, hFits, ?_⟩)
                  · simp only
                    split <;> decide
                  · rw [if_pos hFits]
                    rfl
                · rw [if_neg hFits]
                  exact Or.inr (Or.inl rfl)

theorem fitsChars_iff
    (b : ContextBudget)
    (n : Nat) :
    b.fitsChars n = true ↔
      b.used = 0 ∨ b.used + n + b.reserved ≤ b.cap := by
  simp [ContextBudget.fitsChars]

/- What is shown is charged, and had room or was first. -/
structure Charged
    (b b' : ContextBudget)
    (text : String) : Prop where
  cap : b'.cap = b.cap
  used : b'.used = b.used + contextChars text
  room : text ≠ "" → b.used = 0 ∨ b'.used ≤ b.cap

/- What shows nothing, and charges nothing. -/
theorem charged_nothing
    (hCap : b'.cap = b.cap)
    (hUsed : b'.used = b.used) :
    Charged b b' "" :=
  ⟨hCap, by rw [hUsed, contextChars_empty, Nat.add_zero],
    fun hSome => absurd rfl hSome⟩

theorem charged_of_fits
    {text : String}
    (hFits : b.fitsChars (contextChars text) = true) :
    Charged b (b.charge text) text := by
  refine ⟨rfl, rfl, fun _ => ?_⟩
  rcases (fitsChars_iff b _).mp hFits with hFirst | hRoom
  · exact Or.inl hFirst
  · refine Or.inr ?_
    simp only [ContextBudget.charge]
    omega

theorem charged_captureShowWay
    (b : ContextBudget)
    (w : WayCall) :
    Charged b (captureShowWay b w).1 (captureShowWay b w).2.body ∧
      (captureShowWay b w).1.reserved = b.reserved := by
  unfold captureShowWay
  rcases wayScored_cases b w with
    ⟨e, -, hWay⟩ | ⟨-, ⟨outcome, -, hWay⟩ | hWay |
      ⟨shown, -, hFits, hWay⟩⟩
  · rw [hWay]
    exact ⟨charged_nothing rfl rfl, rfl⟩
  · rw [hWay]
    exact ⟨charged_nothing rfl rfl, rfl⟩
  · rw [hWay]
    exact ⟨charged_nothing rfl rfl, rfl⟩
  · rw [hWay]
    exact ⟨charged_of_fits hFits, rfl⟩

end Show

------------------------------------------------------------
-- One Check
------------------------------------------------------------

namespace Show

variable {b b' : ContextBudget} {c : CheckCall} {n : Nat}

/- Sections alone are withheld, or charged where they fit. -/
theorem checkAlone_cases
    (b : ContextBudget)
    (n : Nat)
    (c : CheckCall) :
    (∃ b', b'.used = b.used ∧ b'.cap = b.cap ∧
        b'.reserved = b.reserved ∧
          checkAlone b n c = (b', .ok "")) ∨
      b.refusals ≤ n ∧
        b.fitsChars (contextChars c.sections) = true ∧
          checkAlone b n c =
            (b.charge c.sections, .ok c.sections) := by
  unfold checkAlone
  by_cases hRefused : n < b.refusals
  · rw [if_pos hRefused]
    exact Or.inl ⟨b, rfl, rfl, rfl, rfl⟩
  · rw [if_neg hRefused]
    unfold ContextBudget.admitText
    by_cases hFits :
        b.fitsChars (contextChars c.sections) = true
    · rw [if_pos hFits]
      exact Or.inr ⟨Nat.not_lt.mp hRefused, hFits, rfl⟩
    · rw [if_neg hFits]
      exact Or.inl ⟨b.refuse, rfl, rfl, rfl, rfl⟩

/-
  A check is turned away, fails with its way, goes out with
  its way, or stands alone.
-/
inductive CheckCase
    (b : ContextBudget)
    (c : CheckCall) : Prop
| away
    (hPulls : c.pulls = false)
    (hSame :
      checkWithin b c = (b, .ok "") ∨
        ∃ e, checkWithin b c = (b, .error e))
| failed
    (e : String)
    (hPulls : c.pulls = true)
    (hWay : c.way.fireable = .error e)
    (hPulled : pulled b c = some (.error e))
    (hCheck :
      checkWithin b c = (b.reserve c.following, .error e))
| pair
    (shown : Shown)
    (hWay : ∃ body, c.way.fireable = .ok body)
    (hPulled : pulled b c = some (.ok shown))
    (hBody : shown.body ≠ "")
    (hFits :
      (b.reserve c.following).fitsChars
          (contextChars shown.body) =
        true)
    (hCheck :
      checkWithin b c =
        (((b.reserve c.following).charge
            shown.body).commitReservation,
          .ok (shown.body ++ "\n" ++ c.sections)))
| afterWay
    (shown : Shown)
    (b' : ContextBudget)
    (hWay : ∃ body, c.way.fireable = .ok body)
    (hPulled : pulled b c = some (.ok shown))
    (hBody : shown.body = "")
    (hUsed : b'.used = b.used)
    (hCap : b'.cap = b.cap)
    (hReserved : b'.reserved = 0)
    (hRefusals :
      shown.outcome = .heldContextCap → b.refusals < b'.refusals)
    (hCheck : checkWithin b c = checkAlone b' b.refusals c)
| alone
    (hPulls : c.pulls = false)
    (hCheck : checkWithin b c = checkAlone b b.refusals c)

theorem checkCase
    (b : ContextBudget)
    (c : CheckCall) :
    CheckCase b c := by
  cases hPasses : c.passes with
  | error e =>
      refine .away ?_ (Or.inr ⟨e, ?_⟩)
      · simp [CheckCall.pulls, hPasses]
      · simp [checkWithin, hPasses]
  | ok passes =>
      cases passes with
      | false =>
          refine .away ?_ (Or.inl ?_)
          · simp [CheckCall.pulls, hPasses]
          · simp [checkWithin, hPasses]
      | true =>
          by_cases hFired : c.wayHasFired = true
          · refine .alone ?_ ?_
            · simp [CheckCall.pulls, hPasses, hFired]
            · simp [checkWithin, hPasses, hFired]
          · have hPulls : c.pulls = true := by
              simp [CheckCall.pulls, hPasses, hFired]
            have hPulled :
                pulled b c =
                  some
                    (wayScored (b.reserve c.following)
                      c.way).2 := by
              rw [pulled, if_pos hPulls]
            have hFails
                {b' : ContextBudget}
                {e : String}
                (hShown :
                  wayScored (b.reserve c.following) c.way =
                    (b', .error e)) :
                checkWithin b c = (b', .error e) := by
              simp only [checkWithin, hPasses, if_neg hFired,
                hShown]
            have hShows
                {b' : ContextBudget}
                {shown : Shown}
                (hShown :
                  wayScored (b.reserve c.following) c.way =
                    (b', .ok shown)) :
                checkWithin b c =
                  if shown.body = "" then
                    checkAlone b'.cancelReservation b.refusals c
                  else
                    (b'.commitReservation,
                      .ok
                        (shown.body ++ "\n" ++
                          c.sections)) := by
              simp only [checkWithin, hPasses, if_neg hFired,
                hShown]
            rcases wayScored_cases (b.reserve c.following)
              c.way with
              ⟨e, hWay, hShown⟩ |
                ⟨hWay, ⟨outcome, hOther, hShown⟩ | hShown |
                  ⟨shown, hOther, hFits, hShown⟩⟩
            · have hCheck := hFails hShown
              rw [hShown] at hPulled
              exact .failed e hPulls hWay hPulled hCheck
            · have hCheck := hShows hShown
              rw [hShown] at hPulled
              exact
                .afterWay (.held outcome)
                  (b.reserve c.following).cancelReservation hWay
                  hPulled rfl rfl rfl rfl
                  (fun hSame => absurd hSame hOther) hCheck
            · have hCheck := hShows hShown
              rw [hShown] at hPulled
              exact
                .afterWay (.held .heldContextCap)
                  (b.reserve c.following).refuse.cancelReservation
                  hWay hPulled rfl rfl rfl rfl
                  (fun _ => Nat.lt_succ_self _) hCheck
            · have hCheck := hShows hShown
              rw [hShown] at hPulled
              by_cases hBody : shown.body = ""
              · rw [if_pos hBody] at hCheck
                refine
                  .afterWay shown
                    ((b.reserve c.following).charge
                      shown.body).cancelReservation
                    hWay hPulled hBody ?_ rfl rfl
                    (fun hSame => absurd hSame hOther) hCheck
                simp [ContextBudget.cancelReservation,
                  ContextBudget.charge, ContextBudget.reserve,
                  hBody]
              · rw [if_neg hBody] at hCheck
                exact
                  .pair shown hWay hPulled hBody hFits hCheck

end Show

------------------------------------------------------------
-- One Call
------------------------------------------------------------

namespace Show

variable {b b' : ContextBudget} {c : CheckCall}
variable {d : Delivery} {shown : Shown}

/- Sections alone are charged, by a budget like the check's. -/
theorem charged_checkAlone
    {n : Nat}
    {text : String}
    {b'' : ContextBudget}
    (hUsed : b'.used = b.used)
    (hCap : b'.cap = b.cap)
    (hCheck : checkAlone b' n c = (b'', .ok text)) :
    Charged b b'' text ∧ b''.reserved = b'.reserved := by
  rcases checkAlone_cases b' n c with
    ⟨b₁, hUsed₁, hCap₁, hReserved₁, hSame⟩ | ⟨-, hFits, hSame⟩
  · rw [hSame] at hCheck
    cases hCheck
    exact
      ⟨charged_nothing (hCap₁.trans hCap) (hUsed₁.trans hUsed),
        hReserved₁⟩
  · rw [hSame] at hCheck
    cases hCheck
    have hCharged := charged_of_fits hFits
    refine ⟨⟨hCap, ?_, ?_⟩, rfl⟩
    · rw [hCharged.used, hUsed]
    · rw [← hUsed, ← hCap]
      exact hCharged.room

theorem checkAlone_ok
    (b : ContextBudget)
    (n : Nat)
    (c : CheckCall) :
    ∃ b' text, checkAlone b n c = (b', .ok text) := by
  rcases checkAlone_cases b n c with
    ⟨b', -, -, -, hSame⟩ | ⟨-, -, hSame⟩
  · exact ⟨b', "", hSame⟩
  · exact ⟨_, _, hSame⟩

theorem charged_captureShowCheck
    (b : ContextBudget)
    (c : CheckCall) :
    Charged b (captureShowCheck b c).1
      (captureShowCheck b c).2 := by
  unfold captureShowCheck
  cases checkCase b c with
  | away hPulls hSame =>
      rcases hSame with hSame | ⟨e, hSame⟩ <;> rw [hSame] <;>
        exact charged_nothing rfl rfl
  | failed e hPulls hWay hPulled hCheck =>
      rw [hCheck]
      exact charged_nothing rfl rfl
  | pair shown hWay hPulled hBody hFits hCheck =>
      rw [hCheck]
      have hRoom := (fitsChars_iff _ _).mp hFits
      have hPair :
          contextChars (shown.body ++ "\n" ++ c.sections) =
            contextChars shown.body +
              contextChars c.following := by
        rw [String.append_assoc, contextChars_append]
        rfl
      refine ⟨rfl, ?_, fun _ => ?_⟩
      · rw [hPair]
        simp only [ContextBudget.commitReservation,
          ContextBudget.charge, ContextBudget.reserve,
          Nat.add_assoc]
      · rcases hRoom with hFirst | hRoom
        · exact Or.inl hFirst
        · exact Or.inr hRoom
  | afterWay shown b' hWay hPulled hBody hUsed hCap hReserved
      hRefusals hCheck =>
      rcases checkAlone_ok b' b.refusals c with
        ⟨b'', text, hSame⟩
      rw [hCheck, hSame]
      exact (charged_checkAlone hUsed hCap hSame).1
  | alone hPulls hCheck =>
      rcases checkAlone_ok b b.refusals c with
        ⟨b'', text, hSame⟩
      rw [hCheck, hSame]
      exact (charged_checkAlone rfl rfl hSame).1

/- A call charges what it shows, and nothing else. -/
theorem charged_capture
    (b : ContextBudget)
    (call : Call) :
    Charged b (capture b call).1 (capture b call).2 := by
  cases call with
  | way w => exact (charged_captureShowWay b w).1
  | check c => exact charged_captureShowCheck b c

/- A check that leaks shows nothing, and holds back room. -/
theorem capture_of_leaks
    (hLeaks : d.leaks = true)
    (b : ContextBudget) :
    ∃ c, d.call = .check c ∧
      capture b d.call = (b.reserve c.following, "") := by
  unfold Delivery.leaks at hLeaks
  cases hCall : d.call with
  | way w =>
      rw [hCall] at hLeaks
      cases hLeaks
  | check c =>
      rw [hCall] at hLeaks
      simp only [Bool.and_eq_true] at hLeaks
      rcases hLeaks with ⟨hPulls, hFails⟩
      refine ⟨c, rfl, ?_⟩
      unfold capture captureShowCheck
      cases checkCase b c with
      | away hNot hSame =>
          rw [hPulls] at hNot
          cases hNot
      | failed e hPulls' hWay hPulled hCheck =>
          simp only [hCheck]
      | pair shown hWay hPulled hBody hFits hCheck =>
          rcases hWay with ⟨body, hWay⟩
          rw [hWay] at hFails
          cases hFails
      | afterWay shown b' hWay hPulled hBody hUsed hCap
          hReserved hRefusals hCheck =>
          rcases hWay with ⟨body, hWay⟩
          rw [hWay] at hFails
          cases hFails
      | alone hNot hCheck =>
          rw [hPulls] at hNot
          cases hNot

/- Any other call leaves no room held back. -/
theorem reserved_capture
    (hKeeps : d.leaks = false)
    (hNone : b.reserved = 0) :
    (capture b d.call).1.reserved = 0 := by
  unfold Delivery.leaks at hKeeps
  cases hCall : d.call with
  | way w =>
      exact (charged_captureShowWay b w).2.trans hNone
  | check c =>
      rw [hCall] at hKeeps
      unfold capture captureShowCheck
      cases checkCase b c with
      | away hPulls hSame =>
          rcases hSame with hSame | ⟨e, hSame⟩ <;>
            simp only [hSame, hNone]
      | failed e hPulls hWay hPulled hCheck =>
          simp only [hPulls, hWay, Bool.and_self,
            Bool.true_eq_false] at hKeeps
      | pair shown hWay hPulled hBody hFits hCheck =>
          simp only [hCheck]
          rfl
      | afterWay shown b' hWay hPulled hBody hUsed hCap
          hReserved hRefusals hCheck =>
          rcases checkAlone_ok b' b.refusals c with
            ⟨b'', text, hSame⟩
          simp only [hCheck, hSame]
          exact
            (charged_checkAlone hUsed hCap hSame).2.trans
              hReserved
      | alone hPulls hCheck =>
          rcases checkAlone_ok b b.refusals c with
            ⟨b'', text, hSame⟩
          simp only [hCheck, hSame]
          exact
            (charged_checkAlone rfl rfl hSame).2.trans hNone

/- A check whose way is refused for the cap is not shown. -/
theorem captureShowCheck_withheld
    (hPulled : pulled b c = some (.ok shown))
    (hHeld : shown.outcome = .heldContextCap)
    (hBody : shown.body = "") :
    (captureShowCheck b c).2 = "" := by
  unfold captureShowCheck
  cases checkCase b c with
  | away hPulls hSame =>
      rcases hSame with hSame | ⟨e, hSame⟩ <;> rw [hSame]
  | failed e hPulls hWay hOther hCheck => rw [hCheck]
  | pair shown' hWay hOther hSome hFits hCheck =>
      rw [hOther] at hPulled
      cases hPulled
      exact absurd hBody hSome
  | afterWay shown' b' hWay hOther hNone hUsed hCap hReserved
      hRefusals hCheck =>
      rw [hOther] at hPulled
      cases hPulled
      rw [hCheck, checkAlone, if_pos (hRefusals hHeld)]
  | alone hPulls hCheck =>
      rw [pulled, hPulls] at hPulled
      cases hPulled

/- A way that is shown is shown with the sections. -/
theorem captureShowCheck_together
    (hPulled : pulled b c = some (.ok shown))
    (hSome : shown.body ≠ "") :
    (captureShowCheck b c).2 =
      shown.body ++ "\n" ++ c.sections := by
  unfold captureShowCheck
  cases checkCase b c with
  | away hPulls hSame =>
      rw [pulled, hPulls] at hPulled
      cases hPulled
  | failed e hPulls hWay hOther hCheck =>
      rw [hOther] at hPulled
      cases hPulled
  | pair shown' hWay hOther hBody hFits hCheck =>
      rw [hOther] at hPulled
      cases hPulled
      rw [hCheck]
  | afterWay shown' b' hWay hOther hNone hUsed hCap hReserved
      hRefusals hCheck =>
      rw [hOther] at hPulled
      cases hPulled
      exact absurd hNone hSome
  | alone hPulls hCheck =>
      rw [pulled, hPulls] at hPulled
      cases hPulled

/- A way that is refused for the cap has no body. -/
theorem body_of_heldContextCap
    (hPulled : pulled b c = some (.ok shown))
    (hHeld : shown.outcome = .heldContextCap) :
    shown.body = "" := by
  unfold pulled at hPulled
  split at hPulled
  · rcases wayScored_cases (b.reserve c.following) c.way with
      ⟨e, -, hWay⟩ | ⟨-, ⟨outcome, hOther, hWay⟩ | hWay |
        ⟨shown', hOther, -, hWay⟩⟩
    · rw [hWay] at hPulled
      cases hPulled
    · rw [hWay] at hPulled
      cases hPulled
      rfl
    · rw [hWay] at hPulled
      cases hPulled
      rfl
    · rw [hWay] at hPulled
      cases hPulled
      exact absurd hHeld hOther
  · cases hPulled

end Show

------------------------------------------------------------
-- Every Run
------------------------------------------------------------

namespace Show

variable {s : Lane} {d : Delivery} {cap : Nat}
variable {deliveries : List Delivery}

/-
  What holds of a hook's text: what it has is charged, and
  it keeps to the cap, or is one unit.
-/
structure Lane.Ok
    (cap : Nat)
    (s : Lane) : Prop where
  capped : s.budget.cap = cap
  used : s.budget.used = contextChars s.context
  bare : s.context = "" → s.units = []
  room :
    contextChars (trimEnd s.context) ≤ cap ∨
      ∃ unit,
        s.units = [unit] ∧ trimEnd s.context = trimEnd unit

theorem ok_new
    (cap : Nat) :
    (Lane.new cap).Ok cap where
  capped := rfl
  used := contextChars_empty.symm
  bare _ := rfl
  room := by
    have hLe := contextChars_trimEnd_le ""
    rw [contextChars_empty] at hLe
    exact Or.inl (Nat.le_trans hLe (Nat.zero_le cap))

theorem Lane.deliver_eq
    (s : Lane)
    (d : Delivery) :
    (s.deliver d).2 = (capture s.budget d.call).2 ∧
      (s.deliver d).1.budget.reserved =
        (capture s.budget d.call).1.reserved := by
  unfold Lane.deliver
  simp only
  split
  · exact ⟨rfl, rfl⟩
  · split <;> exact ⟨rfl, rfl⟩

/- One more unit is the first, or had room. -/
theorem Lane.Ok.deliver
    (hOk : s.Ok cap)
    (d : Delivery) :
    (s.deliver d).1.Ok cap := by
  have hCharged := charged_capture s.budget d.call
  unfold Lane.deliver
  simp only
  generalize capture s.budget d.call = r at hCharged ⊢
  rcases r with ⟨b, text⟩
  simp only at hCharged ⊢
  split
  · rename_i hNone
    subst hNone
    refine ⟨hCharged.cap.trans hOk.capped, ?_, hOk.bare, hOk.room⟩
    rw [hCharged.used, hOk.used, contextChars_empty,
      Nat.add_zero]
  · rename_i hSome
    have hUsed :
        b.used = contextChars (s.context ++ text) := by
      rw [hCharged.used, hOk.used, contextChars_append]
    have hRoom :
        contextChars (trimEnd (s.context ++ text)) ≤ cap ∨
          ∃ unit,
            s.units ++ [text] = [unit] ∧
              trimEnd (s.context ++ text) = trimEnd unit := by
      rcases hCharged.room hSome with hFirst | hFits
      · -- nothing was shown before it
        have hEmpty : s.context = "" := by
          by_contra hNot
          have hPos := contextChars_pos hNot
          rw [← hOk.used] at hPos
          omega
        refine Or.inr ⟨text, ?_, ?_⟩
        · rw [hOk.bare hEmpty, List.nil_append]
        · rw [hEmpty, String.empty_append]
      · refine Or.inl ?_
        rw [hUsed, hOk.capped] at hFits
        exact (contextChars_trimEnd_le _).trans hFits
    have hFilled :
        ∀ rest : String, s.context ++ text ++ rest ≠ "" := by
      intro rest hEmpty
      have hChars := congrArg contextChars hEmpty
      rw [contextChars_append, contextChars_append,
        contextChars_empty] at hChars
      have hPos := contextChars_pos hSome
      omega
    split
    · refine ⟨hCharged.cap.trans hOk.capped, ?_, ?_, ?_⟩
      · simp only [ContextBudget.charge]
        rw [contextChars_append, hUsed]
      · intro hEmpty
        exact absurd hEmpty (hFilled _)
      · simp only [trimEnd_append_separator]
        exact hRoom
    · refine ⟨hCharged.cap.trans hOk.capped, hUsed, ?_, hRoom⟩
      intro hEmpty
      have hNot := hFilled ""
      rw [String.append_empty] at hNot
      exact absurd hEmpty hNot

theorem ok_final
    (cap : Nat)
    (deliveries : List Delivery) :
    (lane.final (.new cap) deliveries).Ok cap := by
  have hRun :
      ∀ (deliveries : List Delivery) (s : Lane), s.Ok cap →
        (lane.final s deliveries).Ok cap := by
    intro deliveries
    induction deliveries with
    | nil => exact fun s hOk => hOk
    | cons d rest ih =>
        exact fun s hOk => ih _ (hOk.deliver d)
  exact hRun deliveries _ (ok_new cap)

/- A turn's check is shown with its way, or without it. -/
theorem output_of_check
    {t : StepMachine.Turn Lane Delivery String}
    (hMember : t ∈ lane.trace (.new cap) deliveries)
    {c : CheckCall}
    (hCall : t.input.call = .check c) :
    t.output = (captureShowCheck t.before.budget c).2 := by
  rcases List.append_of_mem hMember with
    ⟨earlier, later, hTrace⟩
  rcases StepMachine.trace_eq_append_cons hTrace with
    ⟨first, second, -, -, hTurn, -⟩
  have hOutput := (t.before.deliver_eq t.input).1
  rw [hCall] at hOutput
  rw [hTurn] at hOutput ⊢
  exact hOutput

/- While no call leaks, no room is held back between calls. -/
theorem reserved_of_mem_trace
    (hKeeps : ∀ d ∈ deliveries, d.leaks = false)
    {t : StepMachine.Turn Lane Delivery String}
    (hMember : t ∈ lane.trace (.new cap) deliveries) :
    t.before.budget.reserved = 0 ∧
      t.after.budget.reserved = 0 := by
  refine
    StepMachine.invariant_of_mem_trace
      (fun s : Lane => s.budget.reserved = 0)
      (fun _ d => d.leaks = false) ?_ ?_ rfl hMember
  · intro s d hNone hKept
    exact
      (s.deliver_eq d).2.trans (reserved_capture hKept hNone)
  · intro t hTurn
    rcases List.append_of_mem hTurn with
      ⟨earlier, later, hTrace⟩
    rcases StepMachine.trace_eq_append_cons hTrace with
      ⟨first, second, hInputs, -, -, -⟩
    exact hKeeps t.input (by rw [hInputs]; simp)

/- What shows nothing charges nothing. -/
theorem used_of_nothing
    {t : StepMachine.Turn Lane Delivery String}
    (hMember : t ∈ lane.trace (.new cap) deliveries)
    (hNone : t.output = "") :
    t.after.budget.used = t.before.budget.used := by
  rcases List.append_of_mem hMember with
    ⟨earlier, later, hTrace⟩
  rcases StepMachine.trace_eq_append_cons hTrace with
    ⟨first, second, -, -, hTurn, -⟩
  have hCharged :=
    charged_capture t.before.budget t.input.call
  have hOutput : (t.before.deliver t.input).2 = "" := by
    rw [hTurn] at hNone ⊢
    exact hNone
  have hAfter : t.after = (t.before.deliver t.input).1 := by
    rw [hTurn]
    rfl
  rw [(t.before.deliver_eq t.input).1] at hOutput
  rw [hOutput] at hCharged
  rw [hAfter, Lane.deliver]
  simp only [hOutput, if_true]
  rw [hCharged.used, contextChars_empty, Nat.add_zero]

/- The first call that leaks leaves less room than there was. -/
theorem not_nothing_of_leaks
    {first second : List Delivery}
    (hFirst : ∀ e ∈ first, e.leaks = false)
    (hLeaks : d.leaks = true)
    (hNothing :
      ∀ t ∈ lane.trace (.new cap) (first ++ d :: second),
        t.output = "" →
          t.after.budget.used = t.before.budget.used ∧
            t.after.budget.reserved =
              t.before.budget.reserved) :
    False := by
  have hBefore :
      ∀ (first : List Delivery) (s : Lane),
        (∀ e ∈ first, e.leaks = false) →
          s.budget.reserved = 0 →
            (lane.final s first).budget.reserved = 0 := by
    intro first
    induction first with
    | nil => exact fun s _ hNone => hNone
    | cons e rest ih =>
        intro s hKept hNone
        refine
          ih _ (fun e hIn => hKept e (List.mem_cons_of_mem _ hIn))
            ?_
        exact
          (s.deliver_eq e).2.trans
            (reserved_capture (hKept e (by simp)) hNone)
  have hNone := hBefore first (.new cap) hFirst rfl
  rcases capture_of_leaks hLeaks
    (lane.final (.new cap) first).budget with
    ⟨c, -, hCapture⟩
  have hMember :
      lane.turn (lane.final (.new cap) first) d ∈
        lane.trace (.new cap) (first ++ d :: second) := by
    rw [StepMachine.trace_append]
    simp
  have hDeliver :=
    (lane.final (.new cap) first).deliver_eq d
  rw [hCapture] at hDeliver
  have hSame := (hNothing _ hMember hDeliver.1).2
  have hHeld :
      contextChars c.following =
        (lane.final (.new cap) first).budget.reserved :=
    hDeliver.2.symm.trans hSame
  rw [hNone] at hHeld
  have hPos : 0 < contextChars c.following := by
    apply contextChars_pos
    simp [CheckCall.following]
  omega

/-
  One hook's context keeps to its cap, whatever is shown,
  and every call that shows nothing leaves the room as it
  was, exactly where no check's way fails while the check
  holds back room.
-/
theorem keepsCap_iff
    (cap : Nat)
    (deliveries : List Delivery) :
    KeepsCap cap deliveries ↔
      ∀ d ∈ deliveries, d.leaks = false := by
  constructor
  · intro hKeeps d hMember
    by_contra hSome
    -- the first of the calls that leak
    have hFind :
        (deliveries.find? Delivery.leaks).isSome = true := by
      rw [List.find?_isSome]
      exact ⟨d, hMember, by simpa using hSome⟩
    rcases Option.isSome_iff_exists.mp hFind with ⟨e, hE⟩
    rw [List.find?_eq_some_iff_append] at hE
    rcases hE with ⟨hLeaks, first, second, rfl, hFirst⟩
    exact
      not_nothing_of_leaks
        (fun e hIn => by simpa using hFirst e hIn) hLeaks
        hKeeps.nothing
  · intro hNone
    refine ⟨(ok_final cap deliveries).room, ?_, ?_, ?_⟩
    · intro t hMember c shown hCall hPulled hHeld
      rw [output_of_check hMember hCall]
      exact
        captureShowCheck_withheld hPulled hHeld
          (body_of_heldContextCap hPulled hHeld)
    · intro t hMember c shown hCall hPulled hSome
      rw [output_of_check hMember hCall]
      exact captureShowCheck_together hPulled hSome
    · intro t hMember hOutput
      rcases reserved_of_mem_trace hNone hMember with
        ⟨hBefore, hAfter⟩
      exact
        ⟨used_of_nothing hMember hOutput,
          hAfter.trans hBefore.symm⟩

/- A check whose way's file cannot be read. -/
def unreadable : Delivery where
  call :=
    .check
      { passes := .ok true
        sections := "check"
        wayHasFired := false
        way :=
          { fireable := .error "not UTF-8"
            before := .firstFire
            macroOutput := .none
            locked := .firstFire } }
  separated := false

theorem not_keepsCap :
    ¬ ∀ cap deliveries, KeepsCap cap deliveries := by
  intro hClaim
  have hNothing := (hClaim 10000 [unreadable]).nothing
  have hTurn :=
    hNothing (lane.turn (.new 10000) unreadable) (by simp)
      (by decide)
  exact absurd hTurn.2 (by decide)

end Show
