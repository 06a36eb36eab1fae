import RankRunner.Launcher.Forked
import RankRunner.Proofs.Execution.Reference

/-! # Simple runs

A run without child processes of cases with fixed outcomes does what is expected: it enters
exactly the groups that are ready, calls exactly the cases that are ready, each once, and ends with
the expected results and the expected code. -/

namespace RankRunner.Execution

open Effect Siblings

variable {σ : Type} {launcher : Launcher σ} {regime : Regime}

theorem settles_simple (launcher : Launcher σ) (hregime : regime.sandboxed = false)
    (calls : List Call) :
    Settles Case.Steady regime launcher fun order h =>
      h.requested = false ∧ h.calls.Perm (calls ++ order.flatMap (·.cases.dueCalls)) where
  reranked _ _ h hs := hs.of_reranked h
  calm _ _ h := h.1
  unaffected _ _ _ _ h := h
  runCases g order h hg hsteady hK := by
    rw [runCases, if_neg (by simp [hregime])]
    refine (Schedule.ensures_schedule_settled hg.ranked hg.idle hsteady hK.1).mono
      (fun _ t ⟨hcases, hcalm, hcalls⟩ => ⟨⟨hcalm, ?_⟩, hcases⟩) fun _ _ h => h
    rw [List.flatMap_append, List.flatMap_singleton, ← List.append_assoc]
    exact hcalls.trans (hK.2.append_right _)

theorem runSuite_simple_expected (hregime : regime.sandboxed = false) {r : Run} (hr : r.Fresh)
    (hseq : r.sequence.2 = none) (hsteady : ∀ g ∈ r.groups.items, ∀ c ∈ g.cases.items, c.Steady)
    {h : Host σ} (hcalm : h.requested = false) :
    ∃ s, (runSuite regime launcher).run ⟨r, h⟩ = .ok r.expectedCode s ∧
      s.run.result = r.expected ∧ s.host.calls.Perm (h.calls ++ r.dueCalls) := by
  obtain ⟨s, order, hrun, hresult, ⟨_, hcalls⟩, hperm⟩ := (settles_simple launcher hregime
    h.calls).exists_run hr hseq hsteady ⟨hcalm, by simp⟩
  exact ⟨s, hrun, hresult, hcalls.trans (hperm.append_left _)⟩

/-- A case that does the same in each call. -/
def mixedCase (key : Nat) (id : String) (ending : Ending) (needs : List String) : Case :=
  .declare id (some ⟨key, [{ ending }]⟩) needs

/-- Cases that pass, fail, abort and are skipped, in a group on which another one depends. -/
def mixedRun : Run where
  id := "run"
  groups := { items := [
    { id := "g"
      cases := { items := [
        mixedCase 0 "passes" (.returns .null) [],
        mixedCase 1 "fails" (.returns (.int 300)) [],
        mixedCase 2 "aborts" (.raises (.raised ⟨"ValueError", []⟩)) ["passes"],
        mixedCase 3 "skipped" (.raises (.raised ⟨"AssertionError", []⟩)) ["fails"]] } },
    { toItem := Item.dependsOnAll { id := "h" } ["g"]
      cases := { items := [mixedCase 4 "passes" (.returns .null) []] } },
    { id := "i", cases := { items := [mixedCase 5 "passes" (.returns (.bool false)) []] } }] }

theorem mixedCase_fresh (key : Nat) (id : String) (ending : Ending) (needs : List String) :
    (mixedCase key id ending needs).Fresh :=
  Case.declare_fresh ..

theorem mixedCase_surviving {key : Nat} {id : String} {ending : Ending} {needs : List String}
    (h : ∀ f, ending = .raises f → f.isFatal = false) : (mixedCase key id ending needs).Surviving :=
  Case.surviving_of_deed rfl rfl rfl rfl h

theorem mixedRun_fresh : mixedRun.Fresh := by
  refine ⟨⟨by decide, fun g hg => ?_, rfl, rfl⟩, rfl, rfl, rfl⟩
  simp only [mixedRun, List.mem_cons, List.not_mem_nil, or_false] at hg
  rcases hg with rfl | rfl | rfl
  · refine ⟨.empty _, ⟨by decide, fun c hc => ?_, rfl, rfl⟩, rfl⟩
    simp only [List.mem_cons, List.not_mem_nil, or_false] at hc
    rcases hc with rfl | rfl | rfl | rfl <;> exact mixedCase_fresh ..
  · refine ⟨(Item.Fresh.empty _).dependsOnAll _, ⟨by decide, fun c hc => ?_, rfl, rfl⟩, rfl⟩
    cases List.mem_singleton.1 hc
    exact mixedCase_fresh ..
  · refine ⟨.empty _, ⟨by decide, fun c hc => ?_, rfl, rfl⟩, rfl⟩
    cases List.mem_singleton.1 hc
    exact mixedCase_fresh ..

theorem mixedRun_surviving :
    ∀ g ∈ mixedRun.groups.items, ∀ c ∈ g.cases.items, c.Surviving := by
  intro g hg c hc
  simp only [mixedRun, List.mem_cons, List.not_mem_nil, or_false] at hg
  rcases hg with rfl | rfl | rfl <;> simp only [List.mem_cons, List.not_mem_nil, or_false] at hc
  · rcases hc with rfl | rfl | rfl | rfl <;>
      refine mixedCase_surviving fun f hf => ?_ <;> cases hf <;> rfl
  · exact hc ▸ mixedCase_surviving fun f hf => by cases hf
  · exact hc ▸ mixedCase_surviving fun f hf => by cases hf

theorem runSuite_mixedRun_expected :
    ∃ s, (runSuite ⟨false, 1, Nat.one_pos⟩ Forked.launcher).run ⟨mixedRun, { backend := {} }⟩ =
        .ok mixedRun.expectedCode s ∧
      s.run.result = mixedRun.expected ∧ s.host.calls.Perm ([] ++ mixedRun.dueCalls) :=
  runSuite_simple_expected rfl mixedRun_fresh (by decide +kernel)
    (fun g hg c hc => (mixedRun_surviving g hg c hc).toSteady) rfl

end RankRunner.Execution
