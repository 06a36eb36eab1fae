import RankRunner.Launcher.Forked
import RankRunner.Proofs.Execution.Rules
import RankRunner.Proofs.Schedule.Bounds
import RankRunner.Proofs.Siblings.Diagnosed

/-! # Runs that are refused

A fresh run of which some list cannot be ranked, be it the cases of the last group, ends with a fault
of setup before anything else happens (`runSuiteUnder_refused`). The groups and the cases that come
before the fault in the order of ranking have their ranks by then; nothing but ranks and the marks
of ranking has changed anywhere (`Run.Reranked`). -/

namespace RankRunner

/-! ## What ranking keeps -/

/-- Nothing has changed but the largest rank, and the items as `R` says. -/
structure Siblings.Reranked {α : Type} (R : α → α → Prop) (l l' : Siblings α) : Prop where
  items : List.Forall₂ R l.items l'.items
  outstanding : l'.outstanding = l.outstanding

/-- Ranking has changed nothing else in a group, nor in the cases of it. -/
structure Group.Reranked (g g' : Group) : Prop where
  eq : g' = { g with toItem := g'.toItem, cases := g'.cases }
  item : g.toItem.Reranked g'.toItem
  cases : g.cases.Reranked WorkItem.Reranked g'.cases

/-- Ranking has changed nothing else in a run. -/
structure Run.Reranked (r r' : Run) : Prop where
  eq : r' = { r with groups := r'.groups }
  groups : r.groups.Reranked Group.Reranked r'.groups

namespace Siblings

variable {α : Type}

theorem Reranked.refl {R : α → α → Prop} (hR : ∀ a, R a a) (l : Siblings α) : l.Reranked R l :=
  ⟨List.forall₂_same.2 fun a _ => hR a, rfl⟩

theorem reranked_sequence [WorkItem α] (l : Siblings α) :
    l.Reranked WorkItem.Reranked l.sequence.1 :=
  ⟨(sequence_reranked l).1, (sequence_reranked l).2⟩

end Siblings

namespace Group

/-- The group itself has been ranked, but not yet its cases. -/
theorem Reranked.of_item {g g' : Group} (h : WorkItem.Reranked g g') : g.Reranked g' := by
  have hcases := cases_of_reranked h
  refine ⟨?_, h.2, hcases ▸ .refl Siblings.reranked_refl _⟩
  rw [hcases]
  exact h.1

/-- The cases have been ranked, after the group itself. -/
theorem Reranked.withCases {g g' : Group} (h : WorkItem.Reranked g g') :
    g.Reranked { g' with cases := g'.cases.sequence.1 } := by
  have hcases := cases_of_reranked h
  refine ⟨?_, h.2, hcases ▸ Siblings.reranked_sequence g'.cases⟩
  rw [hcases]
  exact congrArg (fun g' : Group => { g' with cases := g.cases.sequence.1 }) h.1

end Group

namespace Siblings

/-- Ranking the cases stops at the first fault; the groups from there on are as they were. -/
theorem sequenceCases_reranked {gs gs' : List Group} (h : List.Forall₂ WorkItem.Reranked gs gs') :
    List.Forall₂ Group.Reranked gs (sequenceCases gs').1 := by
  induction h with
  | nil => exact .nil
  | @cons g g' gs gs' hg hgs ih =>
    have hcases := Group.Reranked.withCases hg
    unfold sequenceCases
    split
    · next hseq =>
      rw [hseq] at hcases
      exact .cons hcases (hgs.imp fun _ _ => Group.Reranked.of_item)
    · next hseq =>
      rw [hseq] at hcases
      exact .cons hcases ih

theorem sequenceGroups_reranked (l : Siblings Group) :
    l.Reranked Group.Reranked l.sequenceGroups.1 := by
  have h := reranked_sequence l
  unfold sequenceGroups
  split
  · next hseq =>
    rw [hseq] at h
    exact ⟨h.items.imp fun _ _ => Group.Reranked.of_item, h.outstanding⟩
  · next hseq =>
    rw [hseq] at h
    exact ⟨sequenceCases_reranked h.items, h.outstanding⟩

end Siblings

theorem Run.sequence_reranked (r : Run) : r.Reranked r.sequence.1 :=
  ⟨rfl, Siblings.sequenceGroups_reranked r.groups⟩

/-! ## The fault -/

namespace Siblings

variable {α : Type} [WorkItem α] {f : Fault}

theorem stuckFault?_isSetup {l : Siblings α} (hf : l.stuckFault? = some f) :
    f.family.isSetup = true := by
  unfold stuckFault? at hf
  split at hf
  · cases hf
  · split at hf
    · next hmissing =>
      cases hf
      obtain ⟨a, -, ha⟩ := List.exists_of_findSome?_eq_some hmissing
      obtain ⟨t, -, rfl⟩ := Option.map_eq_some_iff.1 ha
      rfl
    · cases hf
      rfl

theorem sequence_isSetup {l : Siblings α} (hf : l.sequence.2 = some f) :
    f.family.isSetup = true :=
  stuckFault?_isSetup hf

theorem sequenceCases_isSetup {gs : List Group} (hf : (sequenceCases gs).2 = some f) :
    f.family.isSetup = true := by
  induction gs with
  | nil => cases hf
  | cons g gs ih =>
    unfold sequenceCases at hf
    split at hf
    · next hseq =>
      cases hf
      exact sequence_isSetup (congrArg (·.2) hseq)
    · exact ih hf

theorem sequenceGroups_isSetup {l : Siblings Group} (hf : l.sequenceGroups.2 = some f) :
    f.family.isSetup = true := by
  unfold sequenceGroups at hf
  split at hf
  · next hseq =>
    cases hf
    exact sequence_isSetup (congrArg (·.2) hseq)
  · exact sequenceCases_isSetup hf

end Siblings

/-- A fresh run can be ranked exactly if its list of groups and all lists of cases can. -/
theorem Run.Fresh.sequence_eq_none_iff {r : Run} (h : r.Fresh) :
    r.sequence.2 = none ↔ r.groups.Rankable ∧ ∀ g ∈ r.groups.items, g.cases.Rankable :=
  (h.groups.unranked fun _ hg => hg.item).sequenceGroups_eq_none_iff fun g hg =>
    (h.groups.items g hg).cases.unranked fun _ hc => hc.item

namespace Execution

/-- A fresh run that misses a sibling or has a cycle somewhere is refused: whatever the launcher, the
handling of signals and the surroundings are, none of them is touched. -/
theorem runSuiteUnder_refused {r : Run} (hr : r.Fresh)
    (h : ¬ r.groups.Rankable ∨ ∃ g ∈ r.groups.items, ¬ g.cases.Rankable) :
    ∃ f r', f.family.isSetup = true ∧ r.Reranked r' ∧
      ∀ {σ : Type} (handling : Handling σ) (regime : Regime) (launcher : Launcher σ)
        (host : Host σ),
        (runSuiteUnder handling regime launcher).run ⟨r, host⟩ = .error (.fault f) ⟨r', host⟩ := by
  cases hf : r.sequence.2 with
  | none =>
    obtain ⟨hgroups, hcases⟩ := hr.sequence_eq_none_iff.1 hf
    rcases h with h | ⟨g, hg, h⟩
    · exact (h hgroups).elim
    · exact (h (hcases g hg)).elim
  | some f =>
    refine ⟨f, r.sequence.1, Siblings.sequenceGroups_isSetup hf, r.sequence_reranked,
      fun handling regime launcher host => ?_⟩
    exact runSuiteUnder_of_fault (Prod.ext rfl hf)

/-- Two groups that can be ranked, and a last one that cannot, for one of its cases misses a
sibling. -/
def lateFault : Run where
  id := "late"
  groups := { items := [{ id := "g", cases := Schedule.threeCases },
    { toItem := Item.dependsOnAll { id := "h" } ["g"], cases := Schedule.threeCases },
    { toItem := Item.dependsOnAll { id := "last" } ["h"], cases := Siblings.tangled }] }

theorem lateFault_fresh : lateFault.Fresh := by
  refine ⟨⟨by decide, fun g hg => ?_, rfl, rfl⟩, rfl, rfl, rfl⟩
  simp only [lateFault, List.mem_cons, List.not_mem_nil, or_false] at hg
  rcases hg with rfl | rfl | rfl
  · exact ⟨.empty _, Schedule.threeCases_fresh, rfl⟩
  · exact ⟨(Item.Fresh.empty _).dependsOnAll _, Schedule.threeCases_fresh, rfl⟩
  · refine ⟨(Item.Fresh.empty _).dependsOnAll _, ⟨by decide, fun c hc => ?_, rfl, rfl⟩, rfl⟩
    simp only [Siblings.tangled, List.mem_cons, List.not_mem_nil, or_false] at hc
    rcases hc with rfl | rfl | rfl <;> exact ⟨by constructor <;> decide, rfl, rfl⟩

theorem runSuiteUnder_refused_lateFault :
    lateFault.Fresh ∧ (∃ g ∈ lateFault.groups.items, ¬ g.cases.Rankable) ∧
    ∃ f r', f.family.isSetup = true ∧ lateFault.Reranked r' ∧
      ∀ (handling : Handling Forked) (host : Host Forked),
        (runSuiteUnder handling ⟨true, 2, Nat.two_pos⟩ Forked.launcher).run ⟨lateFault, host⟩ =
          .error (.fault f) ⟨r', host⟩ := by
  have hlate : ∃ g ∈ lateFault.groups.items, ¬ g.cases.Rankable :=
    ⟨_, List.mem_of_getElem? (i := 2) rfl, fun h => by
      have := h.complete _ (List.mem_of_getElem? (i := 1) rfl) "cache" (by decide)
      revert this
      decide⟩
  obtain ⟨f, r', hf, hr, hrun⟩ := runSuiteUnder_refused lateFault_fresh (.inr hlate)
  exact ⟨lateFault_fresh, hlate, f, r', hf, hr, fun handling host => hrun handling _ _ host⟩

end Execution
end RankRunner
