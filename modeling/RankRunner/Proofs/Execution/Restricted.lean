import RankRunner.CommandLine
import RankRunner.Proofs.Execution.Backends
import RankRunner.Proofs.Selection

/-! # To select groups does not change their results

A run of some groups that were selected by name, with everything that they depend on, ends for each
of its groups as the run of all groups does: with the same ranks, statuses and counters
(`buildRun_selection_agrees`). -/

namespace RankRunner

open Effect Siblings

variable {σ τ : Type}

theorem Run.addGroups_eq_ok {r : Run} {gs : List Group}
    (hn : (r.groups.ids ++ gs.map WorkItem.id).Nodup) : r.addGroups gs =
      .ok { r with groups := { r.groups with items := r.groups.items ++ gs } } := by
  induction gs generalizing r with
  | nil => rw [addGroups, List.append_nil]
  | cons g gs ih =>
    have hg : r.groups.get? (WorkItem.id g) = none := by
      refine get?_eq_none_iff.2 fun hmem => ?_
      exact (List.nodup_append.1 hn).2.2 _ hmem _ List.mem_cons_self rfl
    have hadd : r.groups.add g = .ok { r.groups with items := r.groups.items ++ [g] } := by
      rw [Siblings.add, hg]
    have hn' : (Siblings.ids { r.groups with items := r.groups.items ++ [g] } ++
        gs.map WorkItem.id).Nodup := by
      simpa [ids] using hn
    rw [addGroups, hadd]
    refine (ih (r := { r with groups := { r.groups with items := r.groups.items ++ [g] } })
      hn').trans ?_
    simp only [List.append_assoc, List.singleton_append]

namespace CommandLine

/-- The run that is built of the selected groups. -/
def runOf (selected : List Group) (config : Config) (id host : String) : Run where
  id
  groups := { items := selected }
  sandboxed := config.sandboxed
  maxParallel := config.maxParallel
  outfile := config.outfile
  format := config.format
  host

theorem buildRun_eq_ok {groups selected : List Group} {config : Config} (id host : String)
    (hselect : Selection.select groups config.groups = .ok selected)
    (hn : (selected.map (·.id)).Nodup) :
    buildRun groups config id host = .ok (runOf selected config id host) := by
  rw [buildRun, hselect]
  exact Run.addGroups_eq_ok hn

end CommandLine

namespace Execution

open CommandLine

variable {launcher : Launcher σ} {regime : Regime} {h : Host σ} {r : Run} {cs cs' : List Case}

/-- Cases have fixed outcomes, and are called by the runner while it is not asked to stop, or given
to a launcher that can be relied on. -/
inductive Reliable (launcher : Launcher σ) (regime : Regime) (cs : List Case) (h : Host σ) :
    Prop where
  | simple (mode : regime.sandboxed = false) (cases : ∀ c ∈ cs, c.Steady)
    (calm : h.requested = false)
  | sandboxed {calm : Host σ → Prop} {pending : σ → Multiset (Int × Status)}
    (mode : regime.sandboxed = true) (cases : ∀ c ∈ cs, c.Surviving)
    (faithful : launcher.Faithful calm pending) (quiet : calm h) (none : pending h.backend = 0)

theorem Reliable.of_subset (hrel : Reliable launcher regime cs h) (hsub : cs' ⊆ cs) :
    Reliable launcher regime cs' h := by
  cases hrel with
  | simple mode cases calm => exact .simple mode (fun c hc => cases c (hsub hc)) calm
  | sandboxed mode cases faithful quiet none =>
    exact .sandboxed mode (fun c hc => cases c (hsub hc)) faithful quiet none

/-- What a run makes of a group, in terms of how the groups were declared. -/
structure Made (l : Siblings Group) (g₀ g : Group) : Prop where
  result : g.result = g₀.expected l
  rank : ∃ n : Nat, g.rank = n ∧ IsGreatest {n | l.Chain n g₀.id} n
  caseRanks : g.cases.items.map (·.rank) = g₀.cases.sequence.1.items.map (·.rank)

theorem Settles.exists_made {P : Case → Prop} {K : List Group → Host σ → Prop}
    (settles : Settles P regime launcher K) (hr : r.Fresh) (hseq : r.sequence.2 = none)
    (hP : ∀ c ∈ r.cases, P c) (hK : K [] h) :
    ∃ s, (runSuite regime launcher).run ⟨r, h⟩ = .ok r.expectedCode s ∧
      List.Forall₂ (Made r.groups) r.groups.items s.run.groups.items := by
  obtain ⟨s, _, hrun, _, hrealized, _⟩ := settles.exists_run_realized hr hseq
    (fun g hg c hc => hP c (List.mem_flatMap.2 ⟨g, hg, hc⟩)) hK
  have hranked := (hr.groups.unranked fun _ hg => hg.item).sequenceGroups_rank hseq
  have hprepared := hranked.imp fun _ _ hp => hp.1
  refine ⟨s, hrun, (hranked.comp hrealized).imp ?_⟩
  rintro g₀ g ⟨g', ⟨hp, n, hrank, hgreatest⟩, hreal⟩
  refine ⟨?_, ⟨n, hreal.rank.trans hrank, hgreatest⟩, ?_⟩
  · exact hreal.result.trans (Group.expected_of_prepared hprepared hp)
  · rw [hreal.caseRanks, hp.eq]

theorem Reliable.exists_made (hrel : Reliable launcher regime r.cases h) (hr : r.Fresh)
    (hseq : r.sequence.2 = none) :
    ∃ s, (runSuite regime launcher).run ⟨r, h⟩ = .ok r.expectedCode s ∧
      List.Forall₂ (Made r.groups) r.groups.items s.run.groups.items := by
  cases hrel with
  | simple mode cases calm =>
    exact (settles_simple launcher mode h.calls).exists_made hr hseq cases ⟨calm, by simp⟩
  | sandboxed mode cases faithful quiet none =>
    exact (settles_of_faithful faithful mode).exists_made hr hseq cases ⟨quiet, none⟩

/-- Two runs make the same of a group, if the groups of one are a closed part of those of the
other. -/
theorem Made.eq {part l : Siblings Group} (closed : part.Closed l) (hn : l.ids.Nodup)
    {g₀ g g' : Group} (hg₀ : g₀ ∈ part.items) (hg : Made part g₀ g) (hg' : Made l g₀ g') :
    g.rank = g'.rank ∧ g.result = g'.result ∧
      g.cases.items.map (·.rank) = g'.cases.items.map (·.rank) := by
  refine ⟨?_, ?_, hg.caseRanks.trans hg'.caseRanks.symm⟩
  · obtain ⟨n, hrank, hgreatest⟩ := hg.rank
    obtain ⟨n', hrank', hgreatest'⟩ := hg'.rank
    have hchains : {n | part.Chain n g₀.id} = {n | l.Chain n g₀.id} :=
      Set.ext fun _ => closed.chain_iff hn (List.mem_map_of_mem hg₀)
    rw [hrank, hrank', hgreatest.unique (hchains ▸ hgreatest')]
  · rw [hg.result, hg'.result, closed.expected hn hg₀]

theorem runOf_fresh {groups : List Group} (hfresh : ∀ g ∈ groups, g.Fresh)
    (hids : (groups.map (·.id)).Nodup) (config : Config) (id host : String) :
    (runOf groups config id host).Fresh :=
  ⟨⟨hids, hfresh, rfl, rfl⟩, rfl, rfl, rfl⟩

/-- If all groups together can be ranked, then to select some of them by name changes neither their
ranks nor those of their cases, and not their results. -/
theorem buildRun_selection_agrees {groups : List Group} (hfresh : ∀ g ∈ groups, g.Fresh)
    (hids : (groups.map (·.id)).Nodup)
    (hseq : ({ items := groups } : Siblings Group).sequenceGroups.2 = none) {names : List String}
    (hnames : ∀ name ∈ names, name ∈ groups.map (·.id)) (config : Config) (id host : String)
    {launcher : Launcher σ} {regime : Regime} {h : Host σ}
    (hwhole : Reliable launcher regime (groups.flatMap (·.cases.items)) h)
    {launcher' : Launcher τ} {regime' : Regime} {h' : Host τ}
    (hpart : Reliable launcher' regime' (groups.flatMap (·.cases.items)) h') :
    ∃ whole part code code' s t,
      buildRun groups { config with groups := [] } id host = .ok whole ∧
      buildRun groups { config with groups := names } id host = .ok part ∧
      whole.groups.items = groups ∧ (∀ name ∈ names, name ∈ part.groups.ids) ∧
      (runSuite regime launcher).run ⟨whole, h⟩ = .ok code s ∧
      (runSuite regime' launcher').run ⟨part, h'⟩ = .ok code' t ∧
      t.run.groups.ids = part.groups.ids ∧
      ∀ g ∈ t.run.groups.items, ∃ g' ∈ s.run.groups.items,
        g.rank = g'.rank ∧ g.result = g'.result ∧
        g.cases.items.map (·.rank) = g'.cases.items.map (·.rank) := by
  let l : Siblings Group := { items := groups }
  have hunranked : l.Unranked := (⟨hids, hfresh, rfl, rfl⟩ : l.Fresh Group.Fresh).unranked
    fun _ hg => hg.item
  have hcases (g) (hg : g ∈ groups) : g.cases.Unranked :=
    (hfresh g hg).cases.unranked fun _ hc => hc.item
  obtain ⟨hrankable, hrankables⟩ := (hunranked.sequenceGroups_eq_none_iff hcases).1 hseq
  obtain ⟨selected, hselect, hnamed, closed⟩ :=
    Selection.select_closed hids hrankable.complete hnames
  have hids' : (selected.map (·.id)).Nodup := closed.nodup hids
  have hseq' : ({ items := selected } : Siblings Group).sequenceGroups.2 = none :=
    ((closed.unranked hunranked).sequenceGroups_eq_none_iff fun g hg => hcases g (closed.mem hg)).2
      ⟨closed.rankable hrankable, fun g hg => hrankables g (closed.mem hg)⟩
  obtain ⟨s, hs, hmade⟩ := hwhole.exists_made
    (r := runOf groups { config with groups := [] } id host) (runOf_fresh hfresh hids _ id host) hseq
  have hsub : selected.flatMap (·.cases.items) ⊆ groups.flatMap (·.cases.items) := fun c hc => by
    obtain ⟨g, hg, hc⟩ := List.mem_flatMap.1 hc
    exact List.mem_flatMap.2 ⟨g, closed.mem hg, hc⟩
  obtain ⟨t, ht, hmade'⟩ := (hpart.of_subset hsub).exists_made
    (r := runOf selected { config with groups := names } id host)
    (runOf_fresh (fun g hg => hfresh g (closed.mem hg)) hids' _ id host) hseq'
  refine ⟨_, _, _, _, s, t, buildRun_eq_ok id host rfl hids, buildRun_eq_ok id host hselect hids',
    rfl, hnamed, hs, ht, ?_, fun g hg => ?_⟩
  · refine List.map_eq_of_forall₂ hmade' fun g₀ g hg => ?_
    exact congrArg GroupResult.id hg.result
  · obtain ⟨g₀, hg₀, hg⟩ := hmade'.exists_of_mem_right hg
    obtain ⟨g', hg', hgm'⟩ := hmade.exists_of_mem_left (closed.mem hg₀)
    exact ⟨g', hg', hg.eq closed hids hg₀ hgm'⟩

def mixedConfig : Config :=
  ⟨"report.txt", "txt", 2, false, false, false, []⟩

theorem mixedRun_cases_surviving :
    ∀ c ∈ mixedRun.groups.items.flatMap (·.cases.items), c.Surviving := by
  intro c hc
  obtain ⟨g, hg, hc⟩ := List.mem_flatMap.1 hc
  exact mixedRun_surviving g hg c hc

/-- The group `h` is selected with the group on which it depends, and run in child processes. -/
theorem buildRun_mixedRun_agrees :
    ∃ whole part code code' s t,
      buildRun mixedRun.groups.items { mixedConfig with groups := [] } "run" "host" = .ok whole ∧
      buildRun mixedRun.groups.items { mixedConfig with groups := ["h"] } "run" "host" =
        .ok part ∧
      whole.groups.items = mixedRun.groups.items ∧ (∀ name ∈ ["h"], name ∈ part.groups.ids) ∧
      (runSuite ⟨false, 1, Nat.one_pos⟩ Forked.launcher).run ⟨whole, disturbedHost⟩ = .ok code s ∧
      (runSuite ⟨true, 2, Nat.two_pos⟩ Forked.launcher).run ⟨part, disturbedHost⟩ = .ok code' t ∧
      t.run.groups.ids = part.groups.ids ∧
      ∀ g ∈ t.run.groups.items, ∃ g' ∈ s.run.groups.items,
        g.rank = g'.rank ∧ g.result = g'.result ∧
        g.cases.items.map (·.rank) = g'.cases.items.map (·.rank) :=
  buildRun_selection_agrees mixedRun_fresh.groups.items mixedRun_fresh.groups.nodup
    (by decide +kernel) (by decide) mixedConfig "run" "host"
    (.simple rfl (fun c hc => (mixedRun_cases_surviving c hc).toSteady) rfl)
    (.sandboxed rfl mixedRun_cases_surviving Forked.faithful disturbedHost_calm rfl)

end Execution
end RankRunner
