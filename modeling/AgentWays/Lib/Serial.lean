import Mathlib.Data.List.Basic
import Mathlib.Data.List.Nodup

/-
  Calls that take effect one after another.

  A call that has taken effect on a store did so at one
  moment, whatever else went on around it. The calls that
  have are then in some order, and the store is what their
  effects make of it in that order, each of them possible in
  its place.

  Key definitions include:
    * `Serial.replay`
    * `Serial`

  The rules are:
    * `Serial.begin`
    * `Serial.quiet`
    * `Serial.commit`
-/

------------------------------------------------------------
-- Orders
------------------------------------------------------------

variable {κ δ : Type}

/- The store once the calls of an order have taken effect. -/
def Serial.replay
    (effect : κ → Option (δ → Option δ))
    (calls : List κ) : List Nat → δ → Option δ
| [], d => some d
| i :: rest, d =>
    match calls[i]?.bind effect with
    | none => none
    | some f => (f d).bind (Serial.replay effect calls rest)

/- An order of the calls that have taken effect. -/
structure Serial
    (effect : κ → Option (δ → Option δ))
    (first : δ)
    (calls : List κ)
    (d : δ)
    (order : List Nat) : Prop where
  once : order.Nodup
  mem :
    ∀ i, i ∈ order ↔
      ∃ c, calls[i]? = some c ∧ (effect c).isSome
  run : Serial.replay effect calls order first = some d

namespace Serial

variable {effect : κ → Option (δ → Option δ)}
variable {first d d' : δ} {calls calls' : List κ}
variable {order : List Nat} {i : Nat} {call call' : κ}

/- Only the effects of an order's calls matter to it. -/
theorem replay_congr
    (hSame :
      ∀ j ∈ order,
        calls[j]?.bind effect = calls'[j]?.bind effect) :
    replay effect calls order first =
      replay effect calls' order first := by
  induction order generalizing first with
  | nil => rfl
  | cons j rest ih =>
      have hRest :
          replay effect calls rest =
            replay effect calls' rest := by
        funext d
        exact
          ih (fun k hMember =>
            hSame k (List.mem_cons_of_mem _ hMember))
      simp only [replay, hSame j List.mem_cons_self, hRest]

theorem replay_concat
    {f : δ → Option δ}
    (hRun : replay effect calls order first = some d)
    (hEffect : calls[i]?.bind effect = some f) :
    replay effect calls (order ++ [i]) first = f d := by
  induction order generalizing first with
  | nil =>
      cases hRun
      simp [replay, hEffect]
  | cons j rest ih =>
      rw [List.cons_append]
      simp only [replay] at hRun ⊢
      cases hHead : calls[j]?.bind effect with
      | none =>
          rw [hHead] at hRun
          cases hRun
      | some g =>
          simp only [hHead] at hRun ⊢
          cases hNext : g first with
          | none =>
              rw [hNext] at hRun
              cases hRun
          | some next =>
              rw [hNext, Option.bind_some] at hRun
              rw [Option.bind_some]
              exact ih hRun

theorem serial_nil :
    Serial effect first [] first [] :=
  ⟨List.nodup_nil, by simp, rfl⟩

/- A call starts, and has taken no effect. -/
theorem begin
    (hSerial : Serial effect first calls d order)
    (hNone : effect call = none) :
    Serial effect first (calls ++ [call]) d order := by
  have hBound : ∀ j ∈ order, j < calls.length := by
    intro j hMember
    rcases (hSerial.mem j).mp hMember with ⟨c, hCall, -⟩
    exact (List.getElem?_eq_some_iff.mp hCall).1
  refine ⟨hSerial.once, ?_, ?_⟩
  · intro j
    rw [hSerial.mem j]
    constructor
    · rintro ⟨c, hCall, hSome⟩
      have hAt := (List.getElem?_eq_some_iff.mp hCall).1
      exact
        ⟨c, by rw [List.getElem?_append_left hAt]; exact hCall,
          hSome⟩
    · rintro ⟨c, hCall, hSome⟩
      rw [List.getElem?_append] at hCall
      split at hCall
      · exact ⟨c, hCall, hSome⟩
      · rw [List.getElem?_singleton] at hCall
        split at hCall
        · cases hCall
          rw [hNone] at hSome
          cases hSome
        · cases hCall
  · rw [← hSerial.run]
    apply replay_congr
    intro j hMember
    rw [List.getElem?_append_left (hBound j hMember)]

/- What a call's place shows of it after a step. -/
theorem bind_set
    (hCall : calls[i]? = some call)
    (j : Nat) :
    (calls.set i call')[j]?.bind effect =
      if j = i then effect call' else calls[j]?.bind effect := by
  have hBound := (List.getElem?_eq_some_iff.mp hCall).1
  by_cases hJ : j = i
  · rw [if_pos hJ, hJ, List.getElem?_set_self hBound]
    rfl
  · rw [if_neg hJ, List.getElem?_set_ne (Ne.symm hJ)]

theorem mem_iff_bind
    (calls : List κ)
    (j : Nat) :
    (∃ c, calls[j]? = some c ∧ (effect c).isSome) ↔
      (calls[j]?.bind effect).isSome := by
  cases calls[j]? <;> simp

/- A call's step takes no effect, and keeps one it has taken. -/
theorem quiet
    (hSerial : Serial effect first calls d order)
    (hCall : calls[i]? = some call)
    (hSame : effect call' = effect call) :
    Serial effect first (calls.set i call') d order := by
  have hBind :
      ∀ j : Nat,
        (calls.set i call')[j]?.bind effect =
          calls[j]?.bind effect := by
    intro j
    rw [bind_set hCall]
    split
    · rename_i hJ
      rw [hJ, hCall, hSame]
      rfl
    · rfl
  refine ⟨hSerial.once, ?_, ?_⟩
  · intro j
    rw [mem_iff_bind, hBind, ← mem_iff_bind calls]
    exact hSerial.mem j
  · rw [← hSerial.run]
    exact replay_congr (fun j _ => hBind j)

/- A call takes effect: it is the last in the order. -/
theorem commit
    {f : δ → Option δ}
    (hSerial : Serial effect first calls d order)
    (hCall : calls[i]? = some call)
    (hNone : effect call = none)
    (hEffect : effect call' = some f)
    (hNext : f d = some d') :
    Serial effect first (calls.set i call') d'
      (order ++ [i]) := by
  have hNew : i ∉ order := by
    intro hMember
    rw [hSerial.mem, mem_iff_bind, hCall] at hMember
    simp [hNone] at hMember
  refine ⟨?_, ?_, ?_⟩
  · exact
      List.nodup_append.mpr
        ⟨hSerial.once, by simp, by
          rintro j hOld k hK rfl
          rw [List.mem_singleton.mp hK] at hOld
          exact hNew hOld⟩
  · intro j
    rw [mem_iff_bind, bind_set hCall, List.mem_append,
      List.mem_singleton]
    by_cases hJ : j = i
    · simp [hJ, hEffect]
    · rw [if_neg hJ, ← mem_iff_bind, ← hSerial.mem]
      simp [hJ]
  · rw [← hNext]
    apply replay_concat
    · rw [← hSerial.run]
      apply replay_congr
      intro j hMember
      rw [bind_set hCall, if_neg]
      rintro rfl
      exact hNew hMember
    · rw [bind_set hCall, if_pos rfl, hEffect]

end Serial
