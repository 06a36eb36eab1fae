import RankRunner.Proofs.Execution.Follows
import RankRunner.Proofs.Launcher.Flag

/-! # Runs with a launcher that is made or given

As long as no signal arrives in a wait, it does not matter whose flag the waits of a launcher mark:
a run does the same with a launcher that is made for it as with one that is given to it. Where a
signal does arrive, the two part (`runSuite_made_or_given`). -/

namespace RankRunner

open Effect

namespace Effect

variable {S T α : Type} {inv : S → Prop} {f : S → T} {x : Effect S α} {y : Effect T α} {s : S}

/-- What an effect answers or fails with. -/
def outcome (x : Effect S α) (s : S) : Except Failure α :=
  match x.run s with
  | .ok a _ => .ok a
  | .error e _ => .error e

theorem Follows.outcome_ending (h : Follows inv f x y) (hs : inv s) :
    y.outcome (f s) = x.outcome s ∧ y.ending (f s) = f (x.ending s) := by
  have hx := h s hs
  unfold Ensures at hx
  unfold outcome ending
  cases hrun : x.run s with
  | ok a t =>
    rw [hrun] at hx
    rw [hx.1]
    exact ⟨rfl, rfl⟩
  | error e t =>
    rw [hrun] at hx
    rw [hx.1]
    exact ⟨rfl, rfl⟩

end Effect

/-- The event brings no signal. -/
def WaitEvent.Silent : WaitEvent → Prop
  | .signal _ | .late _ => False
  | .nothing | .fails _ | .status .. | .overtakes _ => True

namespace Forked

variable {h : Host Forked}

/-- No signal is to arrive in a wait, and no wait is marked. -/
structure Silent (i : Interruption) (b : Forked) : Prop where
  blocking : i.blocking = false
  late : i.late = none
  events : ∀ e ∈ b.table.events, e.Silent

/-- The launcher with a flag of its own. -/
def unshared (b : Forked) : Forked := { b with shares := false }

theorem Silent.lasting : Host.Lasting Silent where
  request _ _ hs := ⟨hs.blocking, hs.late, hs.events⟩
  signal _ _ _ hs := ⟨hs.blocking, hs.late, hs.events⟩

section Reflagged

variable (m : Interruption → Interruption) (b : Bool)

/-- The surroundings with another flag. -/
def reflagged (h : Host Forked) : Host Forked :=
  { h with interruption := m h.interruption, backend := { h.backend with shares := b } }

@[simp] theorem reflagged_table : (reflagged m b h).backend.table = h.backend.table := rfl

theorem follows_collect : Follows (Host.Holds Silent) (reflagged m b) collect collect := by
  refine follows_get fun h _ => ?_
  simp only [reflagged_table]
  cases h.backend.table.live with
  | nil => exact follows_throw _
  | cons child live =>
    refine Follows.bind ?_ fun _ => follows_pure _
    exact fun _ hs => ⟨rfl, hs.blocking, hs.late, hs.events⟩

/-- A wait in which no signal arrives does not touch the flag. -/
theorem follows_collectAny : Follows (Host.Holds Silent) (reflagged m b) collectAny collectAny := by
  refine follows_get fun h hs => ?_
  simp only [reflagged_table]
  have hevents := hs.events
  refine Follows.bind ?_ fun _ => ?_
  · refine fun _ ht => ⟨rfl, ht.blocking, ht.late, fun e he => ?_⟩
    exact hevents e (List.mem_of_mem_tail he)
  · cases hev : h.backend.table.events with
    | nil => exact follows_collect m b
    | cons e events =>
      have he := hevents e (hev ▸ List.mem_cons_self)
      cases e with
      | nothing => exact follows_collect m b
      | fails q => exact follows_throw _
      | status pid word => exact follows_pure _
      | signal n => exact he.elim
      | late n => exact he.elim
      | overtakes place =>
        refine Follows.bind ?_ fun _ => follows_collect m b
        exact fun _ ht => ⟨rfl, ht.blocking, ht.late, ht.events⟩

end Reflagged

namespace Silent

/-- Where no wait is marked, it makes no difference to take the mark away. -/
theorem onto_unblocked (hs : h.Holds Silent) :
    (reflagged ({ · with blocking := true }) true h).unblocked.onto unshared = h.onto unshared := by
  have hblocking : ({ h.interruption with blocking := false } : Interruption) = h.interruption := by
    rw [← show h.interruption.blocking = false from hs.blocking]
  simp only [Host.unblocked, Host.onto, reflagged, unshared, hblocking]

@[simp] theorem onto_unshared_table : (h.onto unshared).backend.table = h.backend.table := rfl

theorem follows_collectAny :
    Follows (Host.Holds Silent) (Host.onto unshared) collectAny collectAny :=
  Forked.follows_collectAny id false

/-- A wait that marks the flag does what one does that leaves it alone. -/
theorem follows_blockingCollect :
    Follows (Host.Holds Silent) (Host.onto unshared) blockingCollect blockingCollect := by
  intro h hs
  -- the wait without the mark stands between the marked one and the one with a flag of its own
  have hown := follows_collectAny h hs
  have hmarked := Forked.follows_collectAny ({ · with blocking := true }) true h hs
  unfold Ensures at hown hmarked ⊢
  rw [run_blockingCollect_own (h := h.onto unshared) rfl]
  by_cases hshares : h.backend.shares = true
  · have hblocked : reflagged ({ · with blocking := true }) true h = h.blocked := by
      simp only [reflagged, Host.blocked, ← hshares]
    rw [hblocked] at hmarked
    cases hrun : collectAny.run h with
    | ok done t =>
      rw [hrun] at hown hmarked
      rw [run_blockingCollect_of_ok hshares hmarked.1 hown.2.late]
      refine ⟨?_, rfl, hown.2.late, hown.2.events⟩
      rw [onto_unblocked hown.2, hown.1]
    | error f t =>
      rw [hrun] at hown hmarked
      rw [run_blockingCollect_of_error hshares hmarked.1]
      refine ⟨?_, rfl, hown.2.late, hown.2.events⟩
      rw [onto_unblocked hown.2, hown.1]
  · rwa [run_blockingCollect_own (Bool.eq_false_iff.2 hshares)]

theorem follows_waitAny : Follows (Host.Holds Silent) (Host.onto unshared) waitAny waitAny := by
  refine follows_blockingCollect.attempt.bind fun answer => ?_
  rcases answer with f | done
  · exact follows_ite (follows_pure none) (follows_throw f)
  · exact (follows_ofExcept _).bind fun _ => follows_pure _

theorem follows_collectOne (pid : Int) :
    Follows (Host.Holds Silent) (Host.onto unshared) (collectOne pid) (collectOne pid) := by
  refine follows_get fun h _ => ?_
  simp only [onto_unshared_table]
  cases h.backend.table.live.lookup pid with
  | none => exact follows_throw _
  | some word =>
    refine follows_ite (follows_throw _) (Follows.bind ?_ fun _ => follows_pure _)
    exact fun _ ht => ⟨rfl, ht.blocking, ht.late, ht.events⟩

theorem follows_wait (pid : Int) :
    Follows (Host.Holds Silent) (Host.onto unshared) (wait pid) (wait pid) :=
  follows_ite (follows_collectAny.bind fun _ => follows_ofExcept _)
    ((follows_collectOne pid).bind fun _ => follows_ofExcept _)

theorem follows_drainFrom (fuel : Nat) (n : Int) :
    Follows (Host.Holds Silent) (Host.onto unshared) (drainFrom fuel n) (drainFrom fuel n) := by
  induction fuel generalizing n with
  | zero => exact follows_pure n
  | succ fuel ih =>
    refine follows_collectAny.attempt.bind fun answer => ?_
    rcases answer with f | done
    · exact follows_ite (ih n) (follows_ite (follows_pure n) (follows_throw f))
    · exact ih (n + 1)

/-- What a case does as a child does not depend on whose flag the waits of its parent mark. -/
theorem childWord_onto (c : Case) (hs : h.Holds Silent) :
    childWord c (h.onto unshared) = childWord c h := by
  have hcall := c.follows_call lasting (g := unshared) h hs
  unfold Ensures at hcall
  unfold childWord
  have htimes : (h.onto unshared).timesCalled = h.timesCalled := rfl
  have hsignals : childSignals (h.onto unshared) = childSignals h := rfl
  simp only [htimes, hsignals]
  split
  · rfl
  · cases hrun : c.call.run h with
    | ok code t =>
      rw [hrun] at hcall
      rw [hcall.1]
    | error f t =>
      rw [hrun] at hcall
      rw [hcall.1]

theorem follows_start (siblings : Siblings Case) (c : Case) :
    Follows (Host.Holds Silent) (Host.onto unshared) (start siblings c) (start siblings c) := by
  refine follows_get fun h hs => Follows.bind ?_ fun _ => ?_
  · exact fun _ ht => ⟨rfl, ht.blocking, ht.late, ht.events⟩
  simp only [onto_unshared_table, childWord_onto c hs]
  cases h.backend.table.failing.lookup h.backend.table.attempts with
  | some r => exact follows_throw _
  | none =>
    refine Follows.bind ?_ fun _ => follows_pure _
    exact fun _ ht => ⟨rfl, ht.blocking, ht.late, ht.events⟩

theorem followedBy : launcher.FollowedBy Silent unshared launcher where
  toLasting := lasting
  start := follows_start
  wait := follows_wait
  waitAny := follows_waitAny
  kill _ := follows_pure ()
  drain := follows_get fun _ _ => follows_drainFrom _ 0
  patience _ := rfl

end Silent

/-- Without a signal in a wait, a run does the same with a launcher that is made for it as with one
that is given to it. They part at a signal in a wait, which breaks off the wait of the one that is
given, but lets the other one collect a child. -/
theorem runSuite_made_or_given (regime : Regime) (run : Run) (h : Host Forked)
    (hidle : h.interruption.blocking = false) (table : ProcessTable) (given : Forked)
    (hgiven : given.table = table) :
    let made : Host Forked := { h with backend := ofRun h.interruption table none }
    let lent : Host Forked := { h with backend := ofRun h.interruption table (some given) }
    (h.interruption.late = none → (∀ e ∈ table.events, e.Silent) →
      (Execution.runSuite regime launcher).outcome ⟨run, made⟩ =
          (Execution.runSuite regime launcher).outcome ⟨run, lent⟩ ∧
        ((Execution.runSuite regime launcher).ending ⟨run, made⟩).onto unshared =
          ((Execution.runSuite regime launcher).ending ⟨run, lent⟩).onto unshared) ∧
      ∀ n events, h.Hears n → table.events = .signal n :: events →
        waitAny.run lent =
            .error (.raised (.signalled n))
              { h with
                interruption := h.interruption.signal n
                backend := ⟨{ table with events }, true⟩ } ∧
          (h.interruption.requested = false →
            waitAny.run made =
              waitAny.run
                { h with
                  interruption := h.interruption.signal n
                  backend := ⟨{ table with events := .nothing :: events }, false⟩ }) := by
  subst hgiven
  intro made lent
  refine ⟨fun hlate hsilent => ?_, fun n events hn hev => ⟨?_, fun hreq => ?_⟩⟩
  · have hfollows := Silent.followedBy.runSuite regime
    have hmade := Follows.outcome_ending (s := ⟨run, made⟩) hfollows ⟨hidle, hlate, hsilent⟩
    have hlent := Follows.outcome_ending (s := ⟨run, lent⟩) hfollows ⟨hidle, hlate, hsilent⟩
    exact ⟨hmade.1.symm.trans hlent.1, hmade.2.symm.trans hlent.2⟩
  · exact run_waitAny_given hn hidle given hev
  · exact run_waitAny_made hn hidle hreq hev

/-- A run of one case, which passes. -/
def singleRun : Run where
  id := "run"
  groups := { items := [{ id := "g", cases := { items := [{ id := "a" }] } }] }

/-- A table in which an interrupt arrives in the first wait. -/
def disturbedTable : ProcessTable where
  events := [.signal 2]

theorem runSuite_made_or_given_singleRun :
    ((Execution.runSuite ⟨true, 1, Nat.one_pos⟩ launcher).outcome
          ⟨singleRun, { backend := ofRun {} {} none }⟩ =
        (Execution.runSuite ⟨true, 1, Nat.one_pos⟩ launcher).outcome
          ⟨singleRun, { backend := ofRun {} {} (some {}) }⟩ ∧
      ((Execution.runSuite ⟨true, 1, Nat.one_pos⟩ launcher).ending
          ⟨singleRun, { backend := ofRun {} {} none }⟩).onto unshared =
        ((Execution.runSuite ⟨true, 1, Nat.one_pos⟩ launcher).ending
          ⟨singleRun, { backend := ofRun {} {} (some {}) }⟩).onto unshared) ∧
      waitAny.run { backend := ofRun {} disturbedTable (some ⟨disturbedTable, false⟩) } =
          .error (.raised (.signalled 2))
            { interruption := Interruption.signal 2 {}
              backend := ⟨{ disturbedTable with events := [] }, true⟩ } ∧
        waitAny.run { backend := ofRun {} disturbedTable none } =
          waitAny.run
            { interruption := Interruption.signal 2 {}
              backend := ⟨{ disturbedTable with events := [.nothing] }, false⟩ } := by
  have hquiet := runSuite_made_or_given ⟨true, 1, Nat.one_pos⟩ singleRun { backend := {} } rfl {} {}
    rfl
  have hdisturbed := runSuite_made_or_given ⟨true, 1, Nat.one_pos⟩ singleRun { backend := {} } rfl
    disturbedTable ⟨disturbedTable, false⟩ rfl
  have hsignal := hdisturbed.2 2 [] (.inl rfl) rfl
  exact ⟨hquiet.1 rfl (fun _ he => absurd he List.not_mem_nil), hsignal.1, hsignal.2 rfl⟩

/-- The child that the interrupt finds running is aborted with a launcher that was given to the run,
and passes with one that was made for it. -/
theorem runSuite_singleRun_differs :
    ((Execution.runSuite ⟨true, 1, Nat.one_pos⟩ launcher).ending
      ⟨singleRun, { backend := ofRun {} disturbedTable none }⟩).run.cases.map (·.status) =
        [.success] ∧
    ((Execution.runSuite ⟨true, 1, Nat.one_pos⟩ launcher).ending
      ⟨singleRun,
        { backend := ofRun {} disturbedTable (some ⟨disturbedTable, false⟩) }⟩).run.cases.map
          (·.status) = [.aborted] := by
  constructor <;> decide +kernel

end Forked
end RankRunner
