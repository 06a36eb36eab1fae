import RankRunner.Proofs.Accounting
import RankRunner.Proofs.Execution.Rules
import RankRunner.Proofs.Execution.Simple
import RankRunner.Proofs.Schedule.TimedChunks
import RankRunner.Proofs.Siblings.Groups

/-! # The times of a run

If the clock goes forward, the times of a run that answers nest: those of its groups lie within
those of the run, and those of the cases of a group within those of the group. Groups follow each
other, in the order of their ranks and then of their declaration, and so do the ranks of the cases
of a group. What was skipped has no times (`runSuite_timed`). -/

namespace RankRunner

open Effect Siblings

namespace Group

/-- A group that was dispatched: its cases were dispatched or skipped while it ran, rank after
rank. -/
def Nested (g : Group) : Prop :=
  ∃ x y, g.start = some x ∧ g.stop = some y ∧
    g.cases.Timed False (fun _ => True) (·.status = .skipped) x y

/-- A group that was skipped: its cases were skipped along. -/
def Omitted (g : Group) : Prop :=
  ∀ c ∈ g.cases.items, c.toItem.Unstamped ∧ c.status = .skipped

/-- To count the cases of the group again does not change whether it succeeded. -/
def Settled (g : Group) : Prop := g.account.succeeded = g.succeeded

theorem conservative_account : Conservative account :=
  ⟨fun _ => rfl, fun _ => rfl, fun _ => rfl⟩

theorem settled_account (g : Group) : g.account.Settled := by rw [Settled, account_account]

theorem settled_skip (g : Group) : Settled (WorkItem.skip g) := by
  have hskipped : (WorkItem.skip g).succeeded = false := rfl
  rw [Settled, hskipped, Item.succeeded, account_status]
  split <;> rfl

theorem omitted_skip {g : Group} (hnew : ∀ c ∈ g.cases.items, c.toItem.Unstamped) :
    Omitted (WorkItem.skip g) :=
  List.forall_mem_map.2 fun c hc => ⟨⟨(hnew c hc).start, (hnew c hc).stop⟩, rfl⟩

end Group

/-- The groups of the run were dispatched or skipped while it ran, one after the other. -/
def Run.Nested (r : Run) : Prop :=
  ∃ x y, r.start = some x ∧ r.stop = some y ∧ x ≤ y ∧
    r.groups.Timed True Group.Nested Group.Omitted x y

namespace Execution

variable {σ : Type} {launcher : Launcher σ} {T : Case → Prop} {inv : σ → Prop} {g : Group}
  {pos : Nat} {c : Case} {h : Host σ}

section Simple

variable {s : Scope Case σ}

/-- A case that is run in the runner itself takes its time. -/
theorem ensures_runInline_timed (hc : s.list.items[pos]? = some c) (hcall : c.Timely)
    (hinv : inv s.host.backend) (hclock : s.host.clock.Forward) :
    Ensures (Schedule.runInline pos) (fun _ t => ∃ f, t.list = s.list.modify pos f ∧
        Conservative f ∧ inv t.host.backend ∧ s.host.clock.Later t.host.clock ∧
        (f c).toItem.Spans s.host.clock.reading t.host.clock.reading ∧ True)
      (fun _ _ => True) s := by
  have hafter {t : Host σ} (hbackend : t.backend = s.host.backend)
      (hlater : s.host.clock.tick.Later t.clock) (status : Status) :
      ∃ f, s.list.modify pos (·.called s.host.clock.reading t.clock.reading status) =
          s.list.modify pos f ∧ Conservative f ∧ inv t.backend ∧
        s.host.clock.Later t.clock.tick ∧
        (f c).toItem.Spans s.host.clock.reading t.clock.tick.reading ∧ True := by
    have hbefore := hclock.later_tick.trans hlater
    exact ⟨_, rfl, ⟨fun _ => rfl, fun _ => rfl, fun _ => rfl⟩, hbackend ▸ hinv, hbefore.tick,
      ⟨_, _, rfl, rfl, le_refl _, hbefore.reading_le, hlater.forward.reading_le⟩, trivial⟩
  refine Schedule.ensures_runInline_of_call hc (((hcall.ensures_call (by exact hclock.tick)).and
    Case.ensures_call_backend).mono (fun code t ht shown => hafter ht.2 ht.1 _) fun f t ht => ?_)
  split
  · trivial
  · exact fun shown => hafter ht.2 ht.1 _

end Simple

section Runs

variable (numbered : launcher.Numbered inv) (timely : launcher.Timely T) (regime : Regime)
include numbered timely

/-- However the cases of a group are scheduled, they are timed. -/
theorem ensures_runCases_timed (hg : g.Poised) (hnew : ∀ c ∈ g.cases.items, c.toItem.Unstamped)
    (hcases : ∀ c ∈ g.cases.items, if regime.sandboxed then T c else c.Timely)
    (hinv : inv h.backend) (hclock : h.clock.Forward) :
    Ensures (runCases regime launcher) (fun _ t => t.host.requested = true ∨
        inv t.host.backend ∧ h.clock.Later t.host.clock ∧
          t.list.Timed False (fun _ => True) (·.status = .skipped) h.clock.reading
            t.host.clock.reading)
      (fun _ _ => True) ⟨g.cases, h⟩ := by
  rw [runCases]
  cases hmode : regime.sandboxed with
  | true =>
    simp only [hmode, if_true] at hcases
    exact Schedule.ensures_scheduleChunks_timed numbered timely hg.ranked hnew hg.idle hcases
      regime.limit_pos hg.outstanding hinv hclock
  | false =>
    simp only [hmode, Bool.false_eq_true, if_false] at hcases
    refine (Schedule.ensures_schedule_timed (D := fun _ => True) (S := (·.status = .skipped))
      hg.ranked hnew (fun _ _ => rfl) (fun k c hc s hat hinv hclock =>
        ensures_runInline_timed hat (hcases c hc) hinv hclock) hinv hclock).mono
      (fun _ t ht => ht.imp_right ?_) fun _ _ h => h
    rintro ⟨hinv, hlater, htimed⟩
    exact ⟨hinv, hlater, htimed.overlapping⟩

/-- A group takes its time, which holds that of its cases. -/
theorem ensures_runGroup_timed {s : Scope Group σ} (hat : s.list.items[pos]? = some g)
    (hg : g.Poised) (hnew : ∀ c ∈ g.cases.items, c.toItem.Unstamped)
    (hcases : ∀ c ∈ g.cases.items, if regime.sandboxed then T c else c.Timely)
    (hinv : inv s.host.backend) (hclock : s.host.clock.Forward) :
    Ensures (runGroup regime launcher pos) (fun _ t => ∃ f, t.list = s.list.modify pos f ∧
        Conservative f ∧ inv t.host.backend ∧ s.host.clock.Later t.host.clock ∧
        (f g).toItem.Spans s.host.clock.reading t.host.clock.reading ∧
        (f g).Nested ∧ (f g).Settled)
      (fun _ _ => True) s := by
  refine ensures_runGroup_stamped hat fun shown => (ensures_runCases_timed numbered timely regime hg
    hnew hcases (h := { s.host with clock := s.host.clock.tick, shown }) hinv hclock.tick).mono
    (fun _ t ht shown => ?_) fun _ _ _ => trivial
  split
  · exact ⟨fun _ _ => Schedule.ensures_bailOut, fun _ _ => trivial⟩
  · next hreq =>
    obtain ⟨hinv', hlater, htimed⟩ := ht.resolve_left hreq
    have hbefore := hclock.later_tick.trans hlater
    refine ⟨_, rfl, ⟨fun _ => rfl, fun _ => rfl, fun _ => rfl⟩, hinv', hbefore.tick,
      ⟨_, _, rfl, rfl, le_refl _, hbefore.reading_le, hlater.forward.reading_le⟩,
      ⟨_, _, rfl, rfl, ?_⟩, Group.settled_account _⟩
    exact htimed.mono hclock.reading_le (le_refl _)

theorem ensures_runSuite_timed {r r' : Run} (hr : r.Fresh) (hseq : r.sequence = (r', none))
    (hinv : inv h.backend) (hclock : h.clock.Forward)
    (hcases : ∀ g ∈ r'.groups.items, ∀ c ∈ g.cases.items,
      if regime.sandboxed then T c else c.Timely) :
    Ensures (runSuite regime launcher) (fun _ s => s.run.Nested) (fun _ _ => True) ⟨r, h⟩ := by
  have hnew := hr.unstamped hseq
  refine ensures_runSuite_stamped hseq fun shown =>
    (Schedule.ensures_schedule_timed (D := fun g => g.Nested ∧ g.Settled)
      (S := fun g => g.Omitted ∧ g.Settled) (hr.ranked hseq).1 (fun g hg => (hnew g hg).1)
      (fun g hg => ⟨Group.omitted_skip (hnew g hg).2, g.settled_skip⟩)
      (fun k g hg s hat hinv hclock => ensures_runGroup_timed numbered timely regime hat
        (hr.poised hseq g hg) (hnew g hg).2 (hcases g hg) hinv hclock)
      (h := { h with clock := h.clock.tick, shown }) hinv hclock.tick).mono
      (fun _ t ht => ?_) fun _ _ _ => trivial
  dsimp only
  split
  · exact ⟨fun _ _ => trivial, fun _ _ => trivial⟩
  · next hreq =>
    obtain ⟨-, hlater, htimed⟩ := ht.resolve_left hreq
    refine ⟨_, _, rfl, rfl, (hclock.later_tick.trans hlater).reading_le, ?_⟩
    -- The groups are counted once more when the run is closed, which leaves who is due as it is.
    refine (htimed.map Group.conservative_account (fun _ => rfl) (fun _ => rfl) (fun g hg => ?_)
      (fun g hd => hd.1) fun g hs => hs.1).mono hclock.reading_le (le_refl _)
    cases hsat : t.list.satisfiesAll g.toItem with
    | true => exact (htimed.dispatched g hg hsat).2.2
    | false => exact (htimed.skipped g hg hsat).2.2

/-- A run that answers has stamped what it dispatched, and nothing else. Its groups ran one after
the other within the time of the run, by rank and then by declaration. The cases of a group that
was dispatched were started and stopped within the time of the group, and no case was started
before all cases of a lower rank had stopped. -/
theorem runSuite_timed {r : Run} (hr : r.Fresh) (hinv : inv h.backend)
    (hclock : h.clock.Forward)
    (hcases : ∀ g ∈ r.sequence.1.groups.items, ∀ c ∈ g.cases.items,
      if regime.sandboxed then T c else c.Timely)
    {code : Nat} {s : Session σ} (hrun : (runSuite regime launcher).run ⟨r, h⟩ = .ok code s) :
    s.run.Nested := by
  obtain ⟨r', fault, hseq⟩ : ∃ r' fault, r.sequence = (r', fault) := ⟨_, _, rfl⟩
  cases fault with
  | some f =>
    rw [runSuite, runSuiteUnder_of_fault hseq] at hrun
    cases hrun
  | none =>
    rw [hseq] at hcases
    exact (ensures_runSuite_timed numbered timely regime hr hseq hinv hclock hcases).of_ok hrun

end Runs

/-- The second child cannot be started, and the clock stands still at times. -/
def unevenHost : Host Forked where
  clock := ⟨5, ⟨[0, 3, 0, 0, 7], 2⟩⟩
  backend := { table := { failing := [(1, .system 11 "Resource temporarily unavailable")] } }

theorem runSuite_mixedRun_timed :
    ∃ s, (runSuite ⟨true, 2, Nat.two_pos⟩ Forked.launcher).run ⟨mixedRun, unevenHost⟩ = .ok 1 s ∧
      s.run.Nested := by
  obtain ⟨s, hs⟩ := exists_of_answers (x := runSuite ⟨true, 2, Nat.two_pos⟩ Forked.launcher)
    (n := 1) (s := ⟨mixedRun, unevenHost⟩) (by decide +kernel)
  exact ⟨s, hs, runSuite_timed Forked.numbered Forked.timely ⟨true, 2, Nat.two_pos⟩ mixedRun_fresh
    trivial (Clock.forward_of_step (by decide) (by decide)) (fun _ _ _ _ => trivial) hs⟩

end Execution
end RankRunner
