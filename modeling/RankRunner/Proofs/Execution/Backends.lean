import RankRunner.Proofs.Execution.Simple
import RankRunner.Proofs.Launcher.ForkedFaithful
import RankRunner.Proofs.Launcher.InProcessFaithful
import RankRunner.Proofs.Schedule.Tended

/-! # The ways to dispatch cases agree

Whether cases with fixed outcomes are called by the runner, run in its own process on behalf of a
launcher, or run in child processes, and however many children may be alive at a time, a run ends
with the same results and the same exit code. -/

namespace RankRunner.Execution

open Effect Siblings

variable {σ : Type} {launcher : Launcher σ} {calm : Host σ → Prop}
  {pending : σ → Multiset (Int × Status)} {regime : Regime}

/-- With a faithful launcher the cases of a group are settled by a schedule in chunks. -/
theorem settles_of_faithful (faithful : launcher.Faithful calm pending)
    (hregime : regime.sandboxed = true) :
    Settles Case.Surviving regime launcher fun _ h => calm h ∧ pending h.backend = 0 where
  reranked _ _ h hs := hs.of_reranked h
  calm _ h hK := faithful.requested h hK.1
  unaffected _ h clock shown hK := ⟨faithful.unaffected h clock shown h.barriers hK.1, hK.2⟩
  runCases g _ h hg hsurvive hK := by
    rw [runCases, if_pos hregime]
    exact (Schedule.ensures_scheduleChunks_settled faithful hg.ranked hg.idle hsurvive
      regime.limit_pos hg.outstanding hK.1 hK.2).mono (fun _ _ ht => ⟨ht.2, ht.1⟩) fun _ _ h => h

theorem runSuite_backends_agree {simple inProcess forked : Regime}
    (hsimple : simple.sandboxed = false) (hinProcess : inProcess.sandboxed = true)
    (hforked : forked.sandboxed = true) {r : Run} (hr : r.Fresh) (hseq : r.sequence.2 = none)
    (hsurvive : ∀ g ∈ r.groups.items, ∀ c ∈ g.cases.items, c.Surviving) {h : Host σ}
    (hcalm : h.requested = false) {h₁ : Host InProcess} (hcalm₁ : h₁.requested = false)
    (hdone : h₁.backend.done = []) {h₂ : Host Forked} (hcalm₂ : Forked.Calm h₂)
    (hlive : h₂.backend.table.live = []) :
    ∃ code s s₁ s₂, (runSuite simple launcher).run ⟨r, h⟩ = .ok code s ∧
      (runSuite inProcess InProcess.launcher).run ⟨r, h₁⟩ = .ok code s₁ ∧
      (runSuite forked Forked.launcher).run ⟨r, h₂⟩ = .ok code s₂ ∧
      s₁.run.result = s.run.result ∧ s₂.run.result = s.run.result := by
  have hsteady := fun g hg c hc => (hsurvive g hg c hc).toSteady
  have hkept : InProcess.Calm h₁ := ⟨hcalm₁, fun d hd => by
    rw [hdone] at hd
    cases hd⟩
  have hnone₁ : InProcess.pending h₁.backend = 0 := by
    rw [InProcess.pending, hdone]
    rfl
  have hnone₂ : Forked.pending h₂.backend = 0 := by
    rw [Forked.pending, hlive]
    rfl
  obtain ⟨s, _, hrun, hresult, _⟩ := (settles_simple launcher hsimple
    h.calls).exists_run hr hseq hsteady ⟨hcalm, by simp⟩
  obtain ⟨s₁, _, hrun₁, hresult₁, _⟩ := (settles_of_faithful InProcess.faithful
    hinProcess).exists_run hr hseq hsurvive ⟨hkept, hnone₁⟩
  obtain ⟨s₂, _, hrun₂, hresult₂, _⟩ := (settles_of_faithful Forked.faithful
    hforked).exists_run hr hseq hsurvive ⟨hcalm₂, hnone₂⟩
  exact ⟨_, s, s₁, s₂, hrun, hrun₁, hrun₂, hresult₁.trans hresult.symm,
    hresult₂.trans hresult.symm⟩

/-- Children that overtake others, and a wait that is broken off. -/
def disturbedHost : Host Forked where
  backend := {
    table := { events := [.overtakes 1, .fails ⟨"InterruptedError", []⟩, .overtakes 1] }
    shares := true }

theorem disturbedHost_calm : Forked.Calm disturbedHost := by
  refine ⟨rfl, rfl, rfl, fun e he => ?_, fun x hx => by cases hx⟩
  simp only [disturbedHost, List.mem_cons, List.not_mem_nil, or_false] at he
  rcases he with rfl | rfl | rfl
  · trivial
  · rfl
  · trivial

theorem runSuite_mixedRun_backends_agree :
    ∃ code s s₁ s₂,
      (runSuite ⟨false, 1, Nat.one_pos⟩ Forked.launcher).run ⟨mixedRun, disturbedHost⟩ = .ok code s ∧
      (runSuite ⟨true, 1, Nat.one_pos⟩ InProcess.launcher).run ⟨mixedRun, { backend := {} }⟩ =
        .ok code s₁ ∧
      (runSuite ⟨true, 2, Nat.two_pos⟩ Forked.launcher).run ⟨mixedRun, disturbedHost⟩ = .ok code s₂ ∧
      s₁.run.result = s.run.result ∧ s₂.run.result = s.run.result :=
  runSuite_backends_agree rfl rfl rfl mixedRun_fresh (by decide +kernel) mixedRun_surviving rfl rfl
    rfl disturbedHost_calm rfl

end RankRunner.Execution
