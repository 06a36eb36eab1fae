import RankRunner.Execution
import RankRunner.Proofs.Ensures
import RankRunner.Proofs.Schedule.Children

/-! # Rules for groups and runs

What becomes of a group and of a run, given what becomes of the cases of a group. A run that is
asked to stop does not end well: it bails out, and to bail out is a fault. -/

namespace RankRunner

open Effect

variable {σ : Type} {launcher : Launcher σ} {regime : Regime}

/-- What becomes of a group that was entered, whose cases could not be scheduled to the end. -/
def Group.entered (t : Timestamp) (cases : Siblings Case) (g : Group) : Group :=
  { g with start := some t, cases }

/-- What becomes of a group that was entered. -/
def Group.ran (t t' : Timestamp) (cases : Siblings Case) (g : Group) : Group :=
  account { g with start := some t, stop := some t', cases }

/-- What becomes of a run whose groups were scheduled. -/
def Run.closed (t t' : Timestamp) (groups : Siblings Group) (r : Run) : Run :=
  aggregate { r with start := some t, stop := some t', groups }

/-- To bail out never ends well. -/
theorem Schedule.ensures_bailOut {reason : String} {s : Scope Case σ} :
    Ensures (bailOut launcher reason) (fun _ _ => False) (fun _ _ => True) s :=
  fails_bind fun _ _ => fails_bind fun _ _ => fails_bind fun _ _ => fails_bind fun _ _ =>
    fails_bind fun _ _ => trivial

namespace Execution

section Groups

variable {s : Scope Group σ} {pos : Nat} {g : Group}

theorem ensures_onCases {α : Type} {x : Effect (Scope Case σ) α} {Q : α → Scope Group σ → Prop}
    {E : Failure → Scope Group σ → Prop} (hg : s.list.items[pos]? = some g) :
    Ensures (onCases pos x) Q E s ↔ Ensures x
      (fun a t => Q a { list := s.list.modify pos ({ · with cases := t.list }), host := t.host })
      (fun f t => E f { list := s.list.modify pos ({ · with cases := t.list }), host := t.host })
      ⟨g.cases, s.host⟩ := by
  rw [onCases, ensures_zoom, hg]
  rfl

/-- What becomes of a group and of the run, however the schedule of the cases ends. The group gets
the times that the clock shows. A run that is asked to stop bails out, unless it cannot tell why. -/
theorem ensures_runGroup_stamped {Q : Unit → Scope Group σ → Prop}
    {E : Failure → Scope Group σ → Prop} (hg : s.list.items[pos]? = some g)
    (hcases : ∀ shown, Ensures (runCases regime launcher)
      (fun _ t => ∀ shown, if t.host.requested then
          (∀ reason, t.host.interruption.describe = .ok reason →
            Ensures (Schedule.bailOut launcher reason) (fun _ _ => False)
              (fun f u => E f
                { list := s.list.modify pos fun g =>
                    { g.ran s.host.clock.reading t.host.clock.reading t.list with cases := u.list }
                  host := u.host })
              { t with host := { t.host with clock := t.host.clock.tick, shown } }) ∧
          ∀ r, t.host.interruption.describe = .error r → E (.raised r)
            { list :=
                s.list.modify pos (·.ran s.host.clock.reading t.host.clock.reading t.list)
              host := { t.host with clock := t.host.clock.tick, shown } }
        else Q ()
          { list := s.list.modify pos (·.ran s.host.clock.reading t.host.clock.reading t.list)
            host := { t.host with clock := t.host.clock.tick, shown } })
      (fun f t => E f
        { list := s.list.modify pos (·.entered s.host.clock.reading t.list), host := t.host })
      ⟨g.cases, { s.host with clock := s.host.clock.tick, shown }⟩) :
    Ensures (runGroup regime launcher pos) Q E s := by
  have hstart := Siblings.modify_getElem? (f := WorkItem.update
    ({ · with start := some s.host.clock.reading })) hg
  simp only [runGroup, ensures_bind, Scope.ensures_at?, hg, Scope.ensures_onHost, ensures_get,
    Host.ensures_say, Scope.ensures_stampStart]
  rw [ensures_onCases hstart]
  refine (hcases _).mono (fun _ t ht => ?_) fun f t ht => ?_
  · simp only [Scope.ensures_stampStop, Scope.ensures_modifyAt, Siblings.modify_modify,
      Scope.ensures_at?, Siblings.modify_getElem? hg, ensures_bind, Scope.ensures_onHost,
      ensures_get, Host.ensures_say, Scope.ensures_requested]
    split
    · next hreq =>
      obtain ⟨hbail, hraise⟩ := (if_pos hreq).mp (ht _)
      rw [ensures_bind, ensures_get, ensures_bind, ensures_ofExcept]
      refine ⟨fun reason hreason => ?_, fun r hr => hraise r hr⟩
      rw [ensures_onCases (Siblings.modify_getElem? hg)]
      refine (hbail reason hreason).mono (fun _ _ h => h.elim) fun f u hu => ?_
      simp only [Siblings.modify_modify]
      exact hu
    · next hreq => exact (if_neg hreq).mp (ht _)
  · simp only [Siblings.modify_modify]
    exact ht

/-- What becomes of a group and of the run, where it does not matter what the clock shows. -/
theorem ensures_runGroup_ending {Q : Unit → Scope Group σ → Prop}
    {E : Failure → Scope Group σ → Prop} (hg : s.list.items[pos]? = some g)
    (hcases : ∀ clock shown t₁, Ensures (runCases regime launcher)
      (fun _ t => ∀ clock shown t₂, if t.host.requested then
          (∀ reason, t.host.interruption.describe = .ok reason →
            Ensures (Schedule.bailOut launcher reason) (fun _ _ => False)
              (fun f u => E f
                { list := s.list.modify pos fun g => { g.ran t₁ t₂ t.list with cases := u.list }
                  host := u.host }) { t with host := { t.host with clock, shown } }) ∧
          ∀ r, t.host.interruption.describe = .error r → E (.raised r)
            { list := s.list.modify pos (·.ran t₁ t₂ t.list)
              host := { t.host with clock, shown } }
        else Q ()
          { list := s.list.modify pos (·.ran t₁ t₂ t.list)
            host := { t.host with clock, shown } })
      (fun f t => E f { list := s.list.modify pos (·.entered t₁ t.list), host := t.host })
      ⟨g.cases, { s.host with clock, shown }⟩) :
    Ensures (runGroup regime launcher pos) Q E s :=
  ensures_runGroup_stamped hg fun shown =>
    (hcases _ shown _).mono (fun _ _ ht shown => ht _ shown _) fun _ _ ht => ht

/-- A group that is run is accounted for, unless the run is asked to stop meanwhile. -/
theorem ensures_runGroup {Q : Unit → Scope Group σ → Prop} {E : Failure → Scope Group σ → Prop}
    (hg : s.list.items[pos]? = some g)
    (hcases : ∀ clock shown, Ensures (runCases regime launcher)
      (fun _ t => if t.host.requested then ∀ f s, E f s else ∀ clock shown t₁ t₂, Q ()
        { list := s.list.modify pos (·.ran t₁ t₂ t.list)
          host := { t.host with clock, shown } })
      (fun _ _ => ∀ f s, E f s) ⟨g.cases, { s.host with clock, shown }⟩) :
    Ensures (runGroup regime launcher pos) Q E s := by
  refine ensures_runGroup_ending hg fun clock shown t₁ =>
    (hcases clock shown).mono (fun _ t ht clock shown t₂ => ?_) fun f t ht => ht f _
  split at ht
  · next hreq =>
    rw [if_pos hreq]
    refine ⟨fun reason _ => ?_, fun r _ => ht _ _⟩
    exact Schedule.ensures_bailOut.mono (fun _ _ h => h) fun f u _ => ht f _
  · next hreq =>
    rw [if_neg hreq]
    exact ht clock shown t₁ t₂

end Groups

section Runs

variable {s : Session σ} {E : Failure → Session σ → Prop}

/-- What becomes of a run whose groups have been scheduled. To be asked to stop meanwhile is a
fault, unless the run cannot tell why. -/
theorem ensures_dispatch {Q : Unit → Session σ → Prop}
    (hgroups : Ensures (Schedule.schedule (runGroup regime launcher))
      (fun _ t => if t.host.requested then
          (∀ reason, t.host.interruption.describe = .ok reason → E (.fault (.cancelled reason))
            { run := { s.run with groups := t.list }, host := t.host }) ∧
          ∀ r, t.host.interruption.describe = .error r → E (.raised r)
            { run := { s.run with groups := t.list }, host := t.host }
        else Q () { run := { s.run with groups := t.list }, host := t.host })
      (fun f t => E f { run := { s.run with groups := t.list }, host := t.host })
      ⟨s.run.groups, s.host⟩) :
    Ensures (dispatch regime launcher) Q E s := by
  simp only [dispatch, Session.onGroups, ensures_bind, ensures_zoom, ensures_get]
  refine hgroups.mono (fun _ t ht => ?_) fun f t ht => ht
  split
  · next hreq =>
    rw [ensures_bind, ensures_ofExcept]
    exact (if_pos hreq).mp ht
  · next hreq => exact (if_neg hreq).mp ht

/-- A run that cannot be ranked ends before anything is installed or dispatched. -/
theorem runSuiteUnder_of_fault {handling : Handling σ} {launcher : Launcher σ} {regime : Regime}
    {r r' : Run} {f : Fault} {h : Host σ} (hseq : r.sequence = (r', some f)) :
    (runSuiteUnder handling regime launcher).run ⟨r, h⟩ = .error (.fault f) ⟨r', h⟩ := by
  simp only [runSuiteUnder, sequence, EStateM.run_bind, EStateM.run_get, hseq, EStateM.run_set]
  rfl

/-- However the schedule of the groups ends, the run is closed. It gets the times that the clock
shows. -/
theorem ensures_runSuite_stamped {Q : Nat → Session σ → Prop} {r : Run}
    (hseq : s.run.sequence = (r, none))
    (hgroups : ∀ shown, Ensures (Schedule.schedule (runGroup regime launcher))
      (fun _ t =>
        let closed := r.closed s.host.clock.reading t.host.clock.reading t.list
        let host := { t.host with clock := t.host.clock.tick }
        if t.host.requested then
          (∀ reason, t.host.interruption.describe = .ok reason →
            E (.fault (.cancelled reason)) ⟨closed, host⟩) ∧
          ∀ q, t.host.interruption.describe = .error q → E (.raised q) ⟨closed, host⟩
        else Q closed.exitCode ⟨closed, host⟩)
      (fun f t => E f ⟨r.closed s.host.clock.reading t.host.clock.reading t.list,
        { t.host with clock := t.host.clock.tick }⟩)
      ⟨r.groups, { s.host with clock := s.host.clock.tick, shown }⟩) :
    Ensures (runSuite regime launcher) Q E s := by
  simp only [runSuite, runSuiteUnder, close, sequence, ensures_bind, ensures_get, ensures_set, hseq,
    ensures_pure, Session.onHost, ensures_zoom, Host.ensures_say, Host.ensures_now,
    ensures_modify, ensures_ensuring]
  exact ensures_dispatch ((hgroups _).mono (fun _ t ht => ht) fun f t ht => ht)

/-- The end of a run, where it does not matter what the clock shows. -/
theorem ensures_runSuite_ending {Q : Nat → Session σ → Prop} {r : Run}
    (hseq : s.run.sequence = (r, none))
    (hgroups : ∀ clock shown t₁, Ensures (Schedule.schedule (runGroup regime launcher))
      (fun _ t => ∀ clock t₂, if t.host.requested then
          (∀ reason, t.host.interruption.describe = .ok reason → E (.fault (.cancelled reason))
            ⟨r.closed t₁ t₂ t.list, { t.host with clock }⟩) ∧
          ∀ q, t.host.interruption.describe = .error q → E (.raised q)
            ⟨r.closed t₁ t₂ t.list, { t.host with clock }⟩
        else Q (r.closed t₁ t₂ t.list).exitCode ⟨r.closed t₁ t₂ t.list, { t.host with clock }⟩)
      (fun f t => ∀ clock t₂, E f ⟨r.closed t₁ t₂ t.list, { t.host with clock }⟩)
      ⟨r.groups, { s.host with clock, shown }⟩) :
    Ensures (runSuite regime launcher) Q E s :=
  ensures_runSuite_stamped hseq fun shown =>
    (hgroups _ shown _).mono (fun _ _ ht => ht _ _) fun _ _ ht => ht _ _

/-- A run that ends well was not asked to stop when its groups had been scheduled. -/
theorem ensures_runSuite {Q : Nat → Session σ → Prop} {r : Run}
    (hseq : s.run.sequence = (r, none))
    (hgroups : ∀ clock shown, Ensures (Schedule.schedule (runGroup regime launcher))
      (fun _ t => if t.host.requested then ∀ f s, E f s else ∀ clock t₁ t₂,
        Q (r.closed t₁ t₂ t.list).exitCode ⟨r.closed t₁ t₂ t.list, { t.host with clock }⟩)
      (fun _ _ => ∀ f s, E f s) ⟨r.groups, { s.host with clock, shown }⟩) :
    Ensures (runSuite regime launcher) Q E s := by
  refine ensures_runSuite_ending hseq fun clock shown t₁ =>
    (hgroups clock shown).mono (fun _ t ht clock t₂ => ?_) fun f t ht _ _ => ht f _
  split at ht
  · next hreq =>
    rw [if_pos hreq]
    exact ⟨fun reason _ => ht _ _, fun q _ => ht _ _⟩
  · next hreq =>
    rw [if_neg hreq]
    exact ht clock t₁ t₂

end Runs

end Execution
end RankRunner
