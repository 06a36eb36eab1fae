import RankRunner.Proofs.Ensures
import RankRunner.Call

/-! # Cases with a fixed outcome

The function of a steady case ends in the same way whenever it is called, and does not ask the run
to stop. What a call of it comes to, and the status it stands for, can be read off the ending. -/

namespace RankRunner

open Effect

/-- The exit code that a call comes to, or what stops it. -/
def Ending.outcome : Ending → Except Failure Int
  | .returns .null => .ok 0
  | .returns v =>
    match v.toInt with
    | .ok n => .ok (if 0 ≤ n ∧ n < Case.exitCodes then n else 1)
    | .error r => .error (.raised r)
  | .raises f => if f.isAssertion then .ok 1 else .error f

namespace Case

/-- The outcome of the first call. -/
def outcome (c : Case) : Except Failure Int :=
  match c.action with
  | none => .ok 0
  | some a => (a.deed 0).ending.outcome

/-- The status that the outcome stands for: anything raised but a failed assertion aborts. -/
def verdict (c : Case) : Status :=
  match c.outcome with
  | .ok n => ⟨n⟩
  | .error _ => .aborted

/-- The calls that are recorded when the function is called once. -/
def calls (c : Case) : List Call := c.action.toList.map fun a => .body a.key c.id

/-- The function ends in the same way at each call, neither asks the run to stop nor is hit by a
signal, and raises nothing that stops the runner itself. -/
structure Steady (c : Case) : Prop where
  ending : ∀ a ∈ c.action, ∀ n, (a.deed n).ending = (a.deed 0).ending
  request : ∀ a ∈ c.action, ∀ n, (a.deed n).request = false
  signal : ∀ a ∈ c.action, ∀ n, (a.deed n).signal = none
  fatal : ∀ a ∈ c.action, ∀ f, (a.deed 0).ending = .raises f → f.isFatal = false

/-- A steady case that does not kill the process in which it runs. -/
structure Surviving (c : Case) : Prop extends Steady c where
  survives : ∀ a ∈ c.action, ∀ n, (a.deed n).killSelf = none

end Case

theorem Value.toInt_isFatal {v : Value} {r : Raised} (h : v.toInt = .error r) :
    r.isFatal = false := by
  unfold toInt at h
  split at h
  · cases h
  · cases h
  · split at h
    · cases h
    · split at h <;> cases h <;> rfl
  · split at h <;> cases h <;> rfl
  · cases h
    rfl

/-- What is returned is no reason to stop the runner itself. -/
theorem Ending.isFatal_of_returns {v : Value} {f : Failure}
    (h : (Ending.returns v).outcome = .error f) : f.isFatal = false := by
  unfold outcome at h
  split at h
  · cases h
  · next hv =>
    cases hv
    split at h
    · cases h
    · next hint =>
      cases h
      exact Value.toInt_isFatal hint
  · next hv => cases hv

theorem Ending.outcome_range {e : Ending} {n : Int} (h : e.outcome = .ok n) :
    0 ≤ n ∧ n < Case.exitCodes := by
  unfold outcome at h
  split at h
  · cases h
    decide
  · split at h
    · cases h
      split
      · assumption
      · decide
    · cases h
  · split at h
    · cases h
      decide
    · cases h

/-- What a call of an action keeps, if the signals keep it that come with the deed. -/
theorem Action.ensures_perform {σ : Type} {a : Action} {id : String} {h : Host σ}
    {R : Host σ → Prop} {E : Failure → Host σ → Prop}
    (start : ∀ shown calls, R { h with
      clock := h.clock.advance (a.deed (h.timesCalled a.key)).advance, shown, calls })
    (request : ∀ t, R t → R { t with interruption := t.interruption.request })
    (signal : ∀ n ∈ (a.deed (h.timesCalled a.key)).signal, ∀ t, R t →
      Ensures (Host.deliver n) (fun _ => R) E t)
    (raises : ∀ f, (a.deed (h.timesCalled a.key)).ending = .raises f → ∀ t, R t → E f t) :
    Ensures (a.perform id) (fun _ => R) E h := by
  simp only [perform, ensures_bind, ensures_get, Host.record, ensures_modify]
  generalize a.deed (h.timesCalled a.key) = d at start signal raises ⊢
  obtain ⟨advance, print, asks, signal?, kill, ending⟩ := d
  -- to print and to ask the run to stop comes before a signal and the ending
  cases signal? with
  | none =>
    cases ending with
    | returns v =>
      cases asks with
      | false => cases print <;> exact start ..
      | true => cases print <;> exact request _ (start ..)
    | raises f =>
      cases asks with
      | false => cases print <;> exact raises f rfl _ (start ..)
      | true => cases print <;> exact raises f rfl _ (request _ (start ..))
  | some n =>
    have hsignal {x : Effect (Host σ) Value} (hx : ∀ t, R t → Ensures x (fun _ => R) E t)
        (t : Host σ) (ht : R t) : Ensures (do Host.deliver n; x) (fun _ => R) E t :=
      ensures_bind.2 ((signal n rfl t ht).mono (fun _ u hu => hx u hu) fun _ _ he => he)
    cases ending with
    | returns v =>
      have hx : ∀ t, R t → Ensures (pure v : Effect (Host σ) Value) (fun _ => R) E t :=
        fun _ ht => ht
      cases asks with
      | false => cases print <;> exact hsignal hx _ (start ..)
      | true => cases print <;> exact hsignal hx _ (request _ (start ..))
    | raises f =>
      have hx : ∀ t, R t → Ensures (throw f : Effect (Host σ) Value) (fun _ => R) E t :=
        raises f rfl
      cases asks with
      | false => cases print <;> exact hsignal hx _ (start ..)
      | true => cases print <;> exact hsignal hx _ (request _ (start ..))

namespace Case

variable {c : Case}

theorem outcome_range {n : Int} (h : c.outcome = .ok n) : 0 ≤ n ∧ n < exitCodes := by
  unfold outcome at h
  split at h
  · cases h
    decide
  · exact Ending.outcome_range h

theorem verdict_range (c : Case) : 0 ≤ c.verdict.code ∧ c.verdict.code < exitCodes := by
  unfold verdict
  cases ho : c.outcome with
  | ok n => exact outcome_range ho
  | error f => exact (by decide : 0 ≤ Status.aborted.code ∧ Status.aborted.code < exitCodes)

theorem Steady.isFatal (hs : c.Steady) {f : Failure} (h : c.outcome = .error f) :
    f.isFatal = false := by
  unfold outcome at h
  cases ha : c.action with
  | none => rw [ha] at h; cases h
  | some a =>
    rw [ha] at h
    dsimp only at h
    cases he : (a.deed 0).ending with
    | returns v =>
      rw [he] at h
      exact Ending.isFatal_of_returns h
    | raises f' =>
      rw [he, Ending.outcome] at h
      split at h
      · cases h
      · cases h
        exact hs.fatal a ha _ he

theorem surviving_of_deed {key : Nat} {d : Deed} (ha : c.action = some ⟨key, [d]⟩)
    (hrequest : d.request = false) (hsignal : d.signal = none) (hkill : d.killSelf = none)
    (hfatal : ∀ f, d.ending = .raises f → f.isFatal = false) : c.Surviving := by
  have hdeed (n : Nat) : Action.deed ⟨key, [d]⟩ n = d := Action.deed_of_le (Nat.le_add_left 1 n)
  have hof (P : Action → Prop) (h : P ⟨key, [d]⟩) : ∀ a ∈ c.action, P a := by
    rintro a hmem
    cases ha.symm.trans hmem
    exact h
  refine ⟨⟨hof _ fun n => ?_, hof _ fun n => ?_, hof _ fun n => ?_, hof _ fun f => ?_⟩,
    hof _ fun n => ?_⟩
  · rw [hdeed, hdeed]
  · rw [hdeed, hrequest]
  · rw [hdeed, hsignal]
  · rw [hdeed]
    exact hfatal f
  · rw [hdeed, hkill]

variable {σ : Type} {h : Host σ} {E : Failure → Host σ → Prop}

/-- What an action of a steady case does in one call. -/
theorem Steady.ensures_perform (hs : c.Steady) {a : Action} (ha : c.action = some a)
    {Q : Value → Host σ → Prop}
    (hQ : ∀ clock shown, match (a.deed 0).ending with
      | .returns v => Q v { h with clock, shown, calls := h.calls ++ c.calls }
      | .raises f => E f { h with clock, shown, calls := h.calls ++ c.calls }) :
    Ensures (a.perform c.id) Q E h := by
  have hcalls : h.calls ++ [Call.body a.key c.id] = h.calls ++ c.calls := by simp [calls, ha]
  have hend (h' : Host σ) (hh : ∃ clock shown,
      h' = { h with clock, shown, calls := h.calls ++ c.calls }) :
      Ensures (match (a.deed 0).ending with
        | .returns v => pure v
        | .raises f => throw f) Q E h' := by
    obtain ⟨clock, shown, rfl⟩ := hh
    have := hQ clock shown
    cases he : (a.deed 0).ending with
    | returns v => rwa [he] at this
    | raises f => rwa [he] at this
  simp only [Action.perform, ensures_bind, ensures_get, Host.record, ensures_modify, hcalls,
    hs.request a ha, hs.signal a ha, hs.ending a ha, Bool.false_eq_true, if_false]
  cases (a.deed (h.timesCalled a.key)).print with
  | none => exact hend _ ⟨_, _, rfl⟩
  | some text => exact hend _ ⟨_, _, rfl⟩

theorem ensures_codeOf {v : Value} {Q : Int → Host σ → Prop}
    (hQ : ∀ shown, match (Ending.returns v).outcome with
      | .ok n => Q n { h with shown }
      | .error f => E f { h with shown }) : Ensures (c.codeOf v) Q E h := by
  have hnum (hv : v ≠ .null) : Ensures (do
      let n ← Effect.ofExcept v.toInt
      if 0 ≤ n ∧ n < exitCodes then return n
      Host.warn s!"{c.id}: exit status {n} out of range, counted as failure"
      return Status.failure.code) Q E h := by
    have hout : (Ending.returns v).outcome = match v.toInt with
        | .ok n => .ok (if 0 ≤ n ∧ n < exitCodes then n else 1)
        | .error r => .error (.raised r) := by
      cases v <;> first | rfl | exact absurd rfl hv
    simp only [hout] at hQ
    cases hn : v.toInt with
    | error r =>
      rw [hn] at hQ
      exact hQ h.shown
    | ok n =>
      simp only [hn] at hQ
      simp only [Effect.ofExcept, ensures_pure, ensures_bind, ensures_ite, Host.ensures_warn]
      split
      · next hr =>
        rw [if_pos hr] at hQ
        exact hQ h.shown
      · next hr =>
        rw [if_neg hr] at hQ
        exact hQ _
  cases v with
  | null => exact hQ h.shown
  | bool | int | float | text | list | dict => exact hnum (by simp)

/-- What a call of a case keeps, if its action does. -/
theorem ensures_call {R : Host σ → Prop} (start : R h)
    (perform : ∀ a ∈ c.action, Ensures (a.perform c.id) (fun _ => R) E h)
    (unaffected : ∀ t shown, R t → R { t with shown })
    (returns : ∀ v f, (Ending.returns v).outcome = .error f → ∀ t, R t → E f t)
    (asserts : ∀ f t, E f t → R t) : Ensures c.call (fun _ => R) E h := by
  unfold call
  cases ha : c.action with
  | none => exact start
  | some a =>
    simp only [ensures_bind, ensures_attempt]
    refine (perform a ha).mono (fun v t ht => ensures_codeOf fun shown => ?_) fun f t he => ?_
    · have ht' := unaffected t shown ht
      cases ho : (Ending.returns v).outcome with
      | ok n => exact ht'
      | error f => exact returns v f ho _ ht'
    · rw [ensures_ite]
      split
      · exact asserts f t he
      · exact he

/-- What a call of a steady case comes to. -/
theorem Steady.ensures_call (hs : c.Steady) {Q : Int → Host σ → Prop}
    (hQ : ∀ clock shown, match c.outcome with
      | .ok n => Q n { h with clock, shown, calls := h.calls ++ c.calls }
      | .error f => E f { h with clock, shown, calls := h.calls ++ c.calls }) :
    Ensures c.call Q E h := by
  unfold call
  cases ha : c.action with
  | none =>
    have hcalls : h.calls ++ c.calls = h.calls := by simp [calls, ha]
    have := hQ h.clock h.shown
    simp only [hcalls, outcome, ha] at this
    exact this
  | some a =>
    simp only [outcome, ha] at hQ
    rw [ensures_bind, ensures_attempt]
    refine hs.ensures_perform ha fun clock shown => ?_
    cases he : (a.deed 0).ending with
    | returns v =>
      simp only [he] at hQ
      exact ensures_codeOf fun shown => hQ clock shown
    | raises f =>
      have := hQ clock shown
      simp only [he, Ending.outcome] at this
      dsimp only
      split
      · next hf =>
        rw [if_pos hf] at this
        exact this
      · next hf =>
        rw [if_neg hf] at this
        exact this

end Case
end RankRunner
