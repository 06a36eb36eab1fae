import RankRunner.Proofs.Execution.Rules
import RankRunner.Proofs.Schedule.Settled
import RankRunner.Proofs.Siblings.Groups

/-! # Runs that do what is expected

If the cases of every group that is entered are settled, then a run ends with the expected results
and the expected code, whichever way the cases are dispatched (`Settles.exists_run`). -/

namespace RankRunner

open Effect Siblings

variable {σ : Type}

namespace Execution

variable {P : Case → Prop} {regime : Regime} {launcher : Launcher σ}
  {K : List Group → Host σ → Prop} {l₀ : Siblings Group} {g₀ g : Group} {r r' : Run}

/-- The cases of a group that is entered are settled if `P` holds of them, which brings the
surroundings from `K order` to `K (order ++ [g])`. -/
structure Settles (P : Case → Prop) (regime : Regime) (launcher : Launcher σ)
    (K : List Group → Host σ → Prop) : Prop where
  reranked : ∀ c c', WorkItem.Reranked c c' → P c → P c'
  calm : ∀ order h, K order h → h.requested = false
  unaffected : ∀ order h clock shown, K order h → K order { h with clock, shown }
  runCases : ∀ g order h, g.Poised → (∀ c ∈ g.cases.items, P c) → K order h →
    Ensures (runCases regime launcher) (fun _ t => K (order ++ [g]) t.host ∧
        List.Forall₂ (Schedule.Settled g.cases) g.cases.items t.list.items)
      (fun _ _ => False) ⟨g.cases, h⟩

section Finished

open Classical

/-- What becomes of a group. -/
structure Finished (l₀ : Siblings Group) (g₀ g : Group) : Prop where
  poised : g₀.Poised
  id : g.id = g₀.id
  rank : g.rank = g₀.rank
  notRun : g.notRun = false
  status : g.status =
    if l₀.Ready Group.Good g₀ then if g₀.Good then .success else .failure else .skipped
  cases : g.cases.items.map (·.result) =
    g₀.cases.items.map (·.expected g₀.cases (l₀.Ready Group.Good g₀))

theorem Finished.succeeded_iff (h : Finished l₀ g₀ g) (hn : l₀.ids.Nodup) (hg₀ : g₀ ∈ l₀.items) :
    g.succeeded = true ↔ l₀.Passes Group.Good g₀.id := by
  have hs : g.succeeded = true ↔ g.status = .success := by simp [Item.succeeded, h.notRun]
  rw [hs, h.status]
  refine Iff.trans ?_ (passes_iff hn hg₀).symm
  split
  · next hr =>
    split
    · next hg => exact iff_of_true rfl ⟨hg, hr⟩
    · next hg => exact iff_of_false (by decide) fun hp => hg hp.1
  · next hr => exact iff_of_false (by decide) fun hp => hr hp.2

theorem finished_skip (h : g₀.Poised) (hr : ¬ l₀.Ready Group.Good g₀) :
    Finished l₀ g₀ g₀.skip := by
  refine ⟨h, rfl, rfl, h.notRun, (if_neg hr).symm, ?_⟩
  simp only [Group.skip, List.map_map]
  refine List.map_congr_left fun c hc => ?_
  simp only [Function.comp, Case.result, Case.expected, hr, false_and, if_false]
  rw [(h.idle c hc).notRun]

/-- To count the cases of a group that was entered tells whether it is good. -/
theorem finished_ran (h : g₀.Poised) (hr : l₀.Ready Group.Good g₀) {cases : Siblings Case}
    (hcases : List.Forall₂ (Schedule.Settled g₀.cases) g₀.cases.items cases.items)
    (t t' : Timestamp) : Finished l₀ g₀ (g₀.ran t t' cases) := by
  have hresults : cases.items.map (·.result) =
      g₀.cases.items.map (·.expected g₀.cases (l₀.Ready Group.Good g₀)) := by
    rw [eq_true hr]
    exact List.map_eq_of_forall₂ hcases fun _ _ h => h.result
  refine ⟨h, rfl, rfl, h.notRun, ?_, hresults⟩
  simp only [Group.ran, Group.account, Group.recount_eq, hresults, if_pos hr, h.status]
  refine if_congr ?_ rfl rfl
  rw [Group.allPassed_expected_iff _ h.ranked.nodup]
  exact forall₂_congr fun c _ => and_iff_right hr

/-- To count the cases of a finished group once more makes a failure of one that was skipped, if
there is a case that was skipped. -/
theorem Finished.account (h : Finished l₀ g₀ g) : g.account.result = g₀.expected l₀ := by
  have hg₀ := h.poised.ranked.nodup
  have hstatus : g.account.status = (g₀.expected l₀).status := by
    have hall := Group.allPassed_expected_iff (l₀.Ready Group.Good g₀) hg₀
    simp only [Group.account, Group.recount_eq, h.cases, h.status, Group.expected]
    by_cases hr : l₀.Ready Group.Good g₀
    · have hgood : _ ↔ g₀.Good := hall.trans (forall₂_congr fun c _ => and_iff_right hr)
      rw [if_pos hr, if_pos hr]
      by_cases hg : g₀.Good
      · rw [if_pos hg, if_pos (hgood.2 hg)]
      · rw [if_neg hg, if_neg (mt hgood.1 hg)]
    · have hempty : _ ↔ g₀.cases.items = [] := hall.trans <| by
        rw [List.eq_nil_iff_forall_not_mem]
        exact forall₂_congr fun c _ => ⟨fun h => absurd h.1 hr, False.elim⟩
      rw [if_neg hr, if_neg hr]
      exact if_congr hempty rfl rfl
  have hsynopsis : g.account.synopsis = (g₀.expected l₀).synopsis := by
    rw [Group.account_synopsis, Group.recount_eq, h.cases]
    rfl
  rw [Group.result, hstatus, hsynopsis, Group.account_cases, h.cases]
  have hid : g.account.id = g₀.id := h.id
  have hnotRun : g.account.notRun = false := h.notRun
  rw [hid, hnotRun]
  rfl

/-- What becomes of a group, whose cases keep their ranks as well. -/
structure Concluded (l₀ : Siblings Group) (g₀ g : Group) : Prop extends Finished l₀ g₀ g where
  caseRanks : g.cases.items.map (·.rank) = g₀.cases.items.map (·.rank)

theorem concluded_skip (h : g₀.Poised) (hr : ¬ l₀.Ready Group.Good g₀) :
    Concluded l₀ g₀ g₀.skip := by
  refine ⟨finished_skip h hr, ?_⟩
  simp only [Group.skip, List.map_map]
  rfl

theorem concluded_ran (h : g₀.Poised) (hr : l₀.Ready Group.Good g₀) {cases : Siblings Case}
    (hcases : List.Forall₂ (Schedule.Settled g₀.cases) g₀.cases.items cases.items)
    (t t' : Timestamp) : Concluded l₀ g₀ (g₀.ran t t' cases) :=
  ⟨finished_ran h hr hcases t t', List.map_eq_of_forall₂ hcases fun _ _ h => h.rank⟩

/-- What becomes of a group in the end, after all has been counted: it has the expected results,
and the ranks are those that it had. -/
structure Realized (l₀ : Siblings Group) (g₀ g : Group) : Prop where
  result : g.result = g₀.expected l₀
  rank : g.rank = g₀.rank
  caseRanks : g.cases.items.map (·.rank) = g₀.cases.items.map (·.rank)

theorem Concluded.account (h : Concluded l₀ g₀ g) : Realized l₀ g₀ g.account :=
  ⟨h.toFinished.account, h.rank, h.caseRanks⟩

end Finished

namespace Settles

variable (settles : Settles P regime launcher K)
include settles

theorem dispatchRule (hr : l₀.Ranked)
    (hgroups : ∀ g ∈ l₀.items, g.Poised ∧ ∀ c ∈ g.cases.items, P c) :
    Schedule.DispatchRule (runGroup regime launcher) Group.Good (Concluded l₀) K l₀
      (fun _ _ => False) where
  id_eq _ _ h := h.id
  rank_eq _ _ h := h.rank
  succeeded_iff _ hg₀ _ h := h.succeeded_iff hr.nodup hg₀
  skip g hg hready := concluded_skip (hgroups g hg).1 hready
  calm := settles.calm
  unaffected order h shown hK := settles.unaffected order h h.clock shown hK
  dispatch k g order s hg₀ hg hready hK := by
    obtain ⟨hpoised, hP⟩ := hgroups g (List.mem_of_getElem? hg₀)
    refine ensures_runGroup hg fun clock shown => ?_
    refine (settles.runCases g order _ hpoised hP (settles.unaffected _ _ clock shown hK)).mono
      (fun _ t ⟨hK', hcases⟩ => ?_) fun _ _ h => h.elim
    rw [if_neg (by simp [settles.calm _ _ hK'])]
    exact fun clock shown t₁ t₂ =>
      ⟨settles.unaffected _ _ _ _ hK', _, rfl, concluded_ran hpoised hready hcases t₁ t₂⟩

open Classical in
/-- A run that has been ranked ends with the expected results, and enters the groups that are
ready, each once. -/
theorem ensures_runSuite_ranked (hseq : r.sequence = (r', none)) (hr : r'.groups.Ranked)
    (hgroups : ∀ g ∈ r'.groups.items, g.Poised ∧ ∀ c ∈ g.cases.items, P c) {h : Host σ}
    (hK : K [] h) : Ensures (runSuite regime launcher) (fun code s =>
      s.run.result = r'.expected ∧ code = s.run.exitCode ∧
      List.Forall₂ (Realized r'.groups) r'.groups.items s.run.groups.items ∧ ∃ order, K order s.host ∧
        order.Perm (r'.groups.items.filter (decide <| r'.groups.Ready Group.Good ·)))
      (fun _ _ => False) ⟨r, h⟩ := by
  refine ensures_runSuite hseq fun clock shown => ?_
  refine ((settles.dispatchRule hr hgroups).ensures_schedule hr
    (settles.unaffected _ _ clock shown hK)).mono (fun _ t ht => ?_) fun _ _ h => h.elim
  obtain ⟨hall, order, hK', hperm⟩ := ht
  rw [if_neg (by simp [settles.calm _ _ hK'])]
  intro clock t₁ t₂
  have hrealized : List.Forall₂ (Realized r'.groups) r'.groups.items
      (t.list.items.map Group.account) :=
    List.forall₂_map_right_iff.2 (hall.imp fun _ _ h => h.account)
  have hresults := List.map_eq_of_forall₂ hrealized fun _ _ h => h.result
  have hresult : (r'.closed t₁ t₂ t.list).result = r'.expected := by
    have htotal : (r'.closed t₁ t₂ t.list).synopsis =
        GroupResult.total ((t.list.items.map Group.account).map (·.result)) := by
      rw [GroupResult.total, List.foldl_map]
      rfl
    rw [Run.result, htotal, Run.closed, Run.aggregate_groups, hresults]
    rfl
  exact ⟨hresult, rfl, hrealized, order, settles.unaffected _ _ _ _ hK', hperm⟩

/-- A fresh run of such cases ends with the expected results and the expected code, its groups keep
the ranks that they get, and those that it enters are due. -/
theorem exists_run_realized (hr : r.Fresh) (hseq : r.sequence.2 = none)
    (hP : ∀ g ∈ r.groups.items, ∀ c ∈ g.cases.items, P c) {h : Host σ} (hK : K [] h) :
    ∃ s order, (runSuite regime launcher).run ⟨r, h⟩ = .ok r.expectedCode s ∧
      s.run.result = r.expected ∧
      List.Forall₂ (Realized r.sequence.1.groups) r.sequence.1.groups.items s.run.groups.items ∧
      K order s.host ∧ (order.flatMap (·.cases.dueCalls)).Perm r.dueCalls := by
  have hseq' : r.sequence = (r.sequence.1, none) := Prod.ext rfl hseq
  obtain ⟨hranked, hprepared⟩ := hr.ranked hseq'
  have hgroups : ∀ g' ∈ r.sequence.1.groups.items, g'.Poised ∧ ∀ c ∈ g'.cases.items, P c := by
    intro g' hg'
    obtain ⟨g, hg, hp⟩ := hprepared.exists_of_mem_right hg'
    refine ⟨hr.poised hseq' g' hg', fun c' hc' => ?_⟩
    obtain ⟨c, hc, hcc⟩ := hp.cases.exists_of_mem_right hc'
    exact settles.reranked c c' hcc (hP g hg c hc)
  obtain ⟨code, s, hrun, hresult, rfl, hrealized, order, hK', hperm⟩ :=
    (settles.ensures_runSuite_ranked hseq' hranked hgroups hK).exists_ok
  rw [Run.expected_congr hprepared] at hresult
  have hnodup (g) (hg : g ∈ r.groups.items) := (hr.groups.items g hg).cases.nodup
  refine ⟨s, order, ?_, hresult, hrealized, hK', ?_⟩
  · rw [hrun, Run.exitCode_eq_expectedCode hr.groups.nodup hnodup hresult]
  · rw [← Run.dueCalls_congr hprepared]
    exact hperm.flatMap_right _

theorem exists_run (hr : r.Fresh) (hseq : r.sequence.2 = none)
    (hP : ∀ g ∈ r.groups.items, ∀ c ∈ g.cases.items, P c) {h : Host σ} (hK : K [] h) :
    ∃ s order, (runSuite regime launcher).run ⟨r, h⟩ = .ok r.expectedCode s ∧
      s.run.result = r.expected ∧ K order s.host ∧
      (order.flatMap (·.cases.dueCalls)).Perm r.dueCalls := by
  obtain ⟨s, order, hrun, hresult, _, hrest⟩ := settles.exists_run_realized hr hseq hP hK
  exact ⟨s, order, hrun, hresult, hrest⟩

end Settles

end Execution
end RankRunner
