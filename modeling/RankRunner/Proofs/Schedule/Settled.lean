import RankRunner.Proofs.Expected
import RankRunner.Proofs.Schedule.Simple
import RankRunner.Schedule.Inline

/-! # A simple schedule of steady cases

A case is settled when it has its final status. A simple schedule of steady cases settles all of
them, and calls exactly those that are due, each once (`ensures_schedule_settled`). -/

namespace RankRunner

open Effect Siblings

/-- What becomes of a case that is run in the runner itself. -/
def Case.called (t t' : Timestamp) (status : Status) (c : Case) : Case :=
  { c with start := some t, stop := some t', status }

namespace Schedule

variable {σ : Type} {l₀ l : Siblings Case} {c₀ c : Case} {r : Int} {k : Nat}

section Settled

open Classical

structure Settled (l₀ : Siblings Case) (c₀ c : Case) : Prop where
  id : c.id = c₀.id
  rank : c.rank = c₀.rank
  notRun : c.notRun = false
  pid : c.pid = none
  status : c.status = if l₀.Ready Case.Good c₀ then c₀.verdict else .skipped

theorem Settled.result (h : Settled l₀ c₀ c) : c.result = c₀.expected l₀ True := by
  simp only [Case.result, Case.expected, h.id, h.status, h.notRun, true_and]

/-- A settled case succeeded exactly if it passes. -/
theorem Settled.succeeded_iff (h : Settled l₀ c₀ c) (hn : l₀.ids.Nodup) (hc₀ : c₀ ∈ l₀.items) :
    c.succeeded = true ↔ l₀.Passes Case.Good c₀.id := by
  have hs : c.succeeded = true ↔ c.result.status = .success := by
    simp [Item.succeeded, h.notRun, Case.result]
  rw [hs, h.result, Case.expected_success_iff hn hc₀, true_and]

end Settled

section Inline

variable {s : Scope Case σ} {Q : Unit → Scope Case σ → Prop} {E : Failure → Scope Case σ → Prop}

/-- A case gets the status for what its call comes to, and the times that the clock shows. Only what
stops the runner itself is passed on. -/
theorem ensures_runInline_of_call (hc : s.list.items[k]? = some c)
    (h : Ensures c.call
      (fun code t => ∀ shown, Q ()
        { list := s.list.modify k (·.called s.host.clock.reading t.clock.reading ⟨code⟩)
          host := { t with clock := t.clock.tick, shown } })
      (fun f t => if f.isFatal then
          E f { list := s.list.modify k (·.stamped s.host.clock.reading), host := t }
        else ∀ shown, Q ()
          { list := s.list.modify k (·.called s.host.clock.reading t.clock.reading .aborted)
            host := { t with clock := t.clock.tick, shown } })
      { s.host with clock := s.host.clock.tick }) : Ensures (runInline k) Q E s := by
  simp only [runInline, ensures_bind, Scope.ensures_at?, hc, Scope.ensures_stampStart,
    Scope.ensures_onHost, ensures_attempt]
  have hrest (t : Host σ) (status : Status) (shown : Shown) (hQ : ∀ shown, Q ()
      { list := s.list.modify k (·.called s.host.clock.reading t.clock.reading status)
        host := { t with clock := t.clock.tick, shown } }) : Ensures (do
      Scope.modifyAt k ({ · with status })
      Scope.stampStop k
      Scope.showCase k) Q E
      { list := s.list.modify k (·.stamped s.host.clock.reading), host := { t with shown } } := by
    simp only [ensures_bind, Scope.ensures_modifyAt, Scope.ensures_stampStop, modify_modify]
    rw [Scope.ensures_showCase (modify_getElem? hc)]
    exact hQ _
  refine h.mono (fun code t hQ => ?_) fun f t hf => ?_
  · simp only [Case.statusOf, ensures_bind, ensures_ite, Host.ensures_warn, ensures_pure]
    split
    · exact hrest t _ _ hQ
    · exact hrest t _ t.shown hQ
  · split at hf
    · next hfatal =>
      rw [if_pos hfatal]
      exact hf
    · next hfatal =>
      rw [if_neg hfatal]
      simp only [ensures_bind, Host.ensures_warn, ensures_pure]
      exact hrest t _ _ hf

/-- A steady case is called once, and gets the status that its outcome stands for. -/
theorem ensures_runInline (hc : s.list.items[k]? = some c) (hs : c.Steady)
    (hQ : ∀ clock shown t t', Q ()
      { list := s.list.modify k (·.called t t' c.verdict)
        host := { s.host with clock, shown, calls := s.host.calls ++ c.calls } }) :
    Ensures (runInline k) Q E s := by
  refine ensures_runInline_of_call hc (hs.ensures_call fun clock shown => ?_)
  cases ho : c.outcome with
  | ok n =>
    have hv : c.verdict = ⟨n⟩ := by rw [Case.verdict, ho]
    exact fun shown => hv ▸ hQ _ shown _ _
  | error f =>
    have hv : c.verdict = .aborted := by rw [Case.verdict, ho]
    simp only [hs.isFatal ho, Bool.false_eq_true, if_false]
    exact fun shown => hv ▸ hQ _ shown _ _

end Inline

/-- What a simple schedule does with steady cases. -/
theorem dispatchRule_runInline (hr : l₀.Ranked) (hidle : ∀ c ∈ l₀.items, c.Idle)
    (hsteady : ∀ c ∈ l₀.items, c.Steady) {E : Failure → Scope Case σ → Prop} (calls : List Call) :
    DispatchRule runInline Case.Good (Settled l₀)
      (fun done h => h.requested = false ∧ h.calls = calls ++ done.flatMap (·.calls)) l₀ E where
  id_eq _ _ h := h.id
  rank_eq _ _ h := h.rank
  succeeded_iff _ hc₀ _ h := h.succeeded_iff hr.nodup hc₀
  skip c hc hready := ⟨rfl, rfl, (hidle c hc).notRun, (hidle c hc).pid, (if_neg hready).symm⟩
  calm _ _ h := h.1
  unaffected _ _ _ h := h
  dispatch k c done s hc₀ hc hready hK := by
    have hmem := List.mem_of_getElem? hc₀
    refine ensures_runInline hc (hsteady c hmem) fun clock shown t t' => ⟨⟨hK.1, ?_⟩, _, rfl, ?_⟩
    · rw [List.flatMap_append, List.flatMap_singleton, ← List.append_assoc, ← hK.2]
    · exact ⟨rfl, rfl, (hidle c hmem).notRun, (hidle c hmem).pid, (if_pos hready).symm⟩

/-- A simple schedule settles steady cases, and calls those that are due. -/
theorem ensures_schedule_settled (hr : l₀.Ranked) (hidle : ∀ c ∈ l₀.items, c.Idle)
    (hsteady : ∀ c ∈ l₀.items, c.Steady) {E : Failure → Scope Case σ → Prop} {h : Host σ}
    (hcalm : h.requested = false) :
    Ensures (schedule runInline) (fun _ t => List.Forall₂ (Settled l₀) l₀.items t.list.items ∧
      t.host.requested = false ∧ t.host.calls.Perm (h.calls ++ l₀.dueCalls)) E ⟨l₀, h⟩ := by
  refine ((dispatchRule_runInline hr hidle hsteady h.calls).ensures_schedule hr
    ⟨hcalm, by simp⟩).mono (fun _ t ht => ?_) fun _ _ h => h
  obtain ⟨hall, done, ⟨hcalm', hcalls⟩, hperm⟩ := ht
  refine ⟨hall, hcalm', ?_⟩
  rw [hcalls]
  exact (hperm.flatMap_right _).append_left _

end Schedule
end RankRunner
