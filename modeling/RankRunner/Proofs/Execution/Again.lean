import RankRunner.Proofs.Execution.Simple
import RankRunner.Proofs.Launcher.Forked
import RankRunner.Proofs.Schedule.Flat
import RankRunner.Proofs.Siblings.Again

/-! # Running what has been ranked

A run ranks its groups and cases itself. Where they had been ranked before, this takes the largest
ranks away, and the schedules go no further than rank zero: what depends on anything is passed over
without being marked as such (`ensures_runSuite_again`), and what is passed over counts as a
success. -/

namespace RankRunner

open Effect

/-- The cases of a group that are not of rank zero are as they were, and so are all of its cases if
the group itself is not of rank zero. -/
structure Group.Spared (g₀ g : Group) : Prop where
  rank : g.rank = g₀.rank
  cases : g₀.cases.Spared g.cases
  same : g₀.rank ≠ 0 → g.cases.items = g₀.cases.items

theorem Group.Spared.flat (g : Group) : g.Spared g.flat := ⟨rfl, .refl _, fun _ => rfl⟩

theorem Group.Spared.account {g₀ g : Group} (h : g₀.Spared g) : g₀.Spared g.account :=
  ⟨h.rank, h.cases, h.same⟩

theorem Siblings.ranks_flat (l : Siblings α) : l.flat.ranks = [0] := rfl

/-- What is of rank zero depends on nothing. -/
theorem Siblings.Ranked.deps_eq_nil {α : Type} [WorkItem α] {l : Siblings α} (h : l.Ranked) {a : α}
    (ha : a ∈ l.items) (hrank : (WorkItem.item a).rank = 0) : (WorkItem.item a).deps = [] := by
  apply List.eq_nil_iff_forall_not_mem.2
  intro d hd
  obtain ⟨b, hb, -, hlt⟩ := h.below a ha d.target (List.mem_map_of_mem hd)
  have := h.rank_nonneg b hb
  omega

namespace Execution

open Siblings Schedule

variable {σ : Type} {launcher : Launcher σ} {inv : σ → Prop} {regime : Regime}
  {l₀ : Siblings Group} {g₀ : Group} {k : Nat} {t : Scope Group σ}

theorem ensures_runCases_spared (numbered : launcher.Numbered inv) {l₀ : Siblings Case}
    (hidle : ∀ c ∈ l₀.items, c.pid = none) {s : Scope Case σ} (h : l₀.Spared s.list)
    (hranks : s.list.ranks = [0]) (hinv : regime.sandboxed = true → inv s.host.backend) :
    Ensures (runCases regime launcher)
      (fun _ t => l₀.Spared t.list ∧ (regime.sandboxed = true → inv t.host.backend))
      (fun _ t => l₀.Spared t.list) s := by
  unfold runCases
  split
  · next hs =>
    exact (ensures_scheduleChunks_sparing numbered hidle _ ⟨h, hinv hs⟩ hranks).mono
      (fun _ _ ht => ⟨ht.1, fun _ => ht.2⟩) fun _ _ ht => ht.1
  · next hs =>
    exact (ensures_schedule_spared h hranks).mono
      (fun _ _ ht => ⟨ht, fun hs' => absurd hs' hs⟩) fun _ _ ht => ht

/-- How far the groups have been scheduled, of which the largest ranks have been taken away. -/
structure Passing (inv : σ → Prop) (regime : Regime) (l₀ : Siblings Group) (k : Nat)
    (t : Scope Group σ) : Prop where
  upto : l₀.Upto t.list Group.Spared (fun g₀ g => g = g₀.flat) 0 k
  inv : regime.sandboxed = true → inv t.host.backend

namespace Passing

theorem start (hr : l₀.Ranked) {h : Host σ} (hinv : regime.sandboxed = true → inv h.backend) :
    Passing inv regime l₀ 0 ⟨{ l₀.flat with items := l₀.items.map Group.flat }, h⟩ := by
  refine ⟨⟨List.length_map _, fun p g₀ hg₀ hp => ?_, fun p g₀ hg₀ _ => ?_⟩, hinv⟩
  · have := hr.rank_nonneg g₀ (List.mem_of_getElem? hg₀)
    rcases hp with hp | ⟨_, hp⟩ <;> omega
  · exact ⟨g₀.flat, by rw [List.getElem?_map, hg₀]; rfl, rfl⟩

theorem spared (h : Passing inv regime l₀ k t) :
    List.Forall₂ Group.Spared l₀.items t.list.items := by
  refine h.upto.forall₂_related (fun _ _ _ hg => hg) ?_
  rintro g₀ _ _ rfl
  exact .flat g₀

/-- The group at hand may change, except for its rank and the cases that are to be spared. -/
theorem pass (h : Passing inv regime l₀ k t) (hg₀ : l₀.items[k]? = some g₀)
    (hrank : g₀.rank = 0) {f : Group → Group} (hf : (f g₀.flat).rank = g₀.rank)
    (hcases : g₀.cases.Spared (f g₀.flat).cases) {host : Host σ}
    (hinv : regime.sandboxed = true → inv host.backend) :
    Passing inv regime l₀ (k + 1) ⟨t.list.modify k f, host⟩ := by
  refine ⟨h.upto.pass_modify hg₀ hrank ?_, hinv⟩
  rintro _ rfl
  exact ⟨hf, hcases, fun hne => absurd hrank hne⟩

theorem runGroup (numbered : launcher.Numbered inv) (h : Passing inv regime l₀ k t)
    (hg₀ : l₀.items[k]? = some g₀) (hrank : g₀.rank = 0)
    (hidle : ∀ c ∈ g₀.cases.items, c.pid = none) :
    Ensures (runGroup regime launcher k) (fun _ => Passing inv regime l₀ (k + 1))
      (fun _ t => List.Forall₂ Group.Spared l₀.items t.list.items) t := by
  obtain ⟨_, hg, rfl⟩ := h.upto.at_place hg₀ (Int.le_of_eq hrank.symm)
  -- whatever the group becomes with such cases, all groups are spared
  have hspared {f : Group → Group} (hf : (f g₀.flat).rank = g₀.rank)
      (hcases : g₀.cases.Spared (f g₀.flat).cases) :
      List.Forall₂ Group.Spared l₀.items (t.list.modify k f).items :=
    (h.pass hg₀ hrank hf hcases h.inv).spared
  refine ensures_runGroup_ending hg fun clock shown t₁ =>
    (ensures_runCases_spared numbered hidle (.refl _) g₀.cases.ranks_flat h.inv).mono ?_ ?_
  · rintro _ u ⟨hu, hinv⟩ clock shown t₂
    split
    · refine ⟨fun reason _ => ?_, fun _ _ => hspared rfl hu⟩
      exact (ensures_bailOut_spared hidle reason (by exact hu)).mono (fun _ _ h => h)
        fun _ _ hv => hspared rfl hv
    · exact h.pass hg₀ hrank rfl hu hinv
  · intro f u hu
    exact hspared rfl hu

/-- A place is gone by, or its group is run. A group of rank zero is never skipped. -/
theorem dispatch (numbered : launcher.Numbered inv) (hr : l₀.Ranked)
    (hidle : ∀ g ∈ l₀.items, ∀ c ∈ g.cases.items, c.pid = none) (hk : k < l₀.items.length)
    (h : Passing inv regime l₀ k t) :
    Ensures (isDue 0 k) (fun due t => if due then
      Ensures (Execution.runGroup regime launcher k) (fun _ => Passing inv regime l₀ (k + 1))
        (fun _ t => List.Forall₂ Group.Spared l₀.items t.list.items) t
      else Passing inv regime l₀ (k + 1) t)
      (fun _ t => List.Forall₂ Group.Spared l₀.items t.list.items) t := by
  have hg₀ := List.getElem?_eq_getElem hk
  have hmem := List.getElem_mem hk
  generalize l₀.items[k] = g₀ at hg₀ hmem
  refine ensures_isDue_upto h.upto hg₀ (fun _ hg => hg.rank) (fun _ hg => hg ▸ rfl)
    (fun hupto => { h with upto := hupto }) ?_ ?_
  · intro hrank _ _ _ _
    exact h.runGroup numbered hg₀ hrank (hidle g₀ hmem)
  · rintro hrank _ _ rfl hnot _
    have hdeps : g₀.deps = [] := hr.deps_eq_nil hmem hrank
    simp [satisfiesAll, Group.flat, hdeps] at hnot

end Passing

/-- A run that has been ranked before is run without its largest ranks. Whatever happens, only
cases of rank zero in groups of rank zero change. -/
theorem ensures_runSuite_again (numbered : launcher.Numbered inv) {r : Run}
    (hseq : r.sequence = (r.flat, none)) (hr : r.groups.Ranked)
    (hidle : ∀ g ∈ r.groups.items, ∀ c ∈ g.cases.items, c.pid = none) {h : Host σ}
    (hinv : regime.sandboxed = true → inv h.backend) :
    Ensures (runSuite regime launcher)
      (fun _ s => List.Forall₂ Group.Spared r.groups.items s.run.groups.items)
      (fun _ s => List.Forall₂ Group.Spared r.groups.items s.run.groups.items) ⟨r, h⟩ := by
  have hclosed {l : Siblings Group} (hl : List.Forall₂ Group.Spared r.groups.items l.items)
      (t₁ t₂ : Timestamp) :
      List.Forall₂ Group.Spared r.groups.items (r.flat.closed t₁ t₂ l).groups.items :=
    List.forall₂_map_right_iff.2 (hl.imp fun _ _ hg => hg.account)
  refine ensures_runSuite_ending hseq fun clock shown t₁ => ?_
  have hstart : Passing inv regime r.groups 0 ⟨r.flat.groups, { h with clock, shown }⟩ :=
    .start hr hinv
  refine (ensures_schedule_flat rfl (List.length_map _)
    (fun k t hk ht => ht.dispatch numbered hr hidle hk) hstart).mono ?_ ?_
  · rintro _ t ⟨_, ht⟩ clock t₂
    have := hclosed ht.spared t₁ t₂
    split
    · exact ⟨fun _ _ => this, fun _ _ => this⟩
    · exact this
  · intro f t ht clock t₂
    exact hclosed ht t₁ t₂

end Execution

/-- To rank a second time is no fault and leaves all ranks, marks and dependencies as they are, but
it takes the largest ranks away, so that a schedule is about rank zero only. A run that has been
ranked is ranked once more when it is run, and so all cases that are not of rank zero, or are in a
group that is not, are passed over and stay as they are. -/
theorem ranking_twice {α : Type} [WorkItem α] (l : Siblings α) (r : Run) :
    (l.sequence.2 = none → l.sequence.1.sequence = (l.sequence.1.flat, none) ∧
      l.sequence.1.sequence.1.ranks = [0]) ∧
    (r.sequence.2 = none → r.sequence.1.sequence = (r.sequence.1.flat, none) ∧
      r.sequence.1.sequence.1.groups.ranks = [0] ∧
      (∀ g ∈ r.sequence.1.sequence.1.groups.items, g.cases.ranks = [0]) ∧
      (r.Fresh → ∀ {σ : Type} (regime : Regime) (launcher : Launcher σ) (inv : σ → Prop)
        (h : Host σ), launcher.Numbered inv → inv h.backend →
        List.Forall₂ Group.Spared r.sequence.1.groups.items
          ((Execution.runSuite regime launcher).ending ⟨r.sequence.1, h⟩).run.groups.items)) := by
  constructor
  · intro h
    rw [Siblings.sequence_again h]
    exact ⟨rfl, l.sequence.1.ranks_flat⟩
  · intro hnone
    have hagain := Run.sequence_again hnone
    refine ⟨hagain, ?_, ?_, ?_⟩
    · rw [hagain]
      rfl
    · rw [hagain]
      intro g' hg'
      obtain ⟨g, -, rfl⟩ := List.mem_map.1 hg'
      exact g.cases.ranks_flat
    · intro hr σ regime launcher inv h numbered hinv
      have hseq : r.sequence = (r.sequence.1, none) := Prod.ext rfl hnone
      have hidle (g) (hg : g ∈ r.sequence.1.groups.items) (c) (hc : c ∈ g.cases.items) :
          c.pid = none :=
        ((hr.poised hseq g hg).idle c hc).pid
      exact (Execution.ensures_runSuite_again numbered hagain (hr.ranked hseq).1 hidle
        fun _ => hinv).ending

namespace Execution

/-- Two cases, the second of which depends on the first and fails. -/
def chainedRun : Run where
  id := "run"
  groups := { items := [{ id := "g", cases := { items := [
    mixedCase 0 "first" (.returns .null) [],
    mixedCase 1 "second" (.returns (.int 1)) ["first"]] } }] }

theorem chainedRun_fresh : chainedRun.Fresh := by
  refine ⟨⟨by decide, fun g hg => ?_, rfl, rfl⟩, rfl, rfl, rfl⟩
  cases List.mem_singleton.1 hg
  refine ⟨.empty _, ⟨by decide, fun c hc => ?_, rfl, rfl⟩, rfl⟩
  rcases List.mem_pair.1 hc with rfl | rfl <;> exact mixedCase_fresh ..

theorem ranking_twice_chainedRun :
    chainedRun.sequence.1.sequence = (chainedRun.sequence.1.flat, none) ∧
      List.Forall₂ Group.Spared chainedRun.sequence.1.groups.items
        ((runSuite ⟨true, 1, Nat.one_pos⟩ Forked.launcher).ending
          ⟨chainedRun.sequence.1, { backend := {} }⟩).run.groups.items := by
  obtain ⟨hagain, _, _, hspared⟩ := (ranking_twice chainedRun.groups chainedRun).2
    (by decide +kernel)
  exact ⟨hagain, hspared chainedRun_fresh ⟨true, 1, Nat.one_pos⟩ Forked.launcher _
    { backend := {} } Forked.truthful.toNumbered fun _ he => absurd he List.not_mem_nil⟩

/-- The failing case is passed over, and the run is a success, if it had been ranked before. -/
theorem runSuite_chainedRun_again :
    chainedRun.Fresh ∧ chainedRun.sequence.2 = none ∧
      chainedRun.sequence.1.sequence.1.groups.items.map (·.cases.maxRank) ≠
        chainedRun.sequence.1.groups.items.map (·.cases.maxRank) ∧
      (runSuite ⟨false, 1, Nat.one_pos⟩ Forked.launcher).answers 1
        ⟨chainedRun, { backend := {} }⟩ = true ∧
      (runSuite ⟨false, 1, Nat.one_pos⟩ Forked.launcher).answers 0
        ⟨chainedRun.sequence.1, { backend := {} }⟩ = true ∧
      ((runSuite ⟨false, 1, Nat.one_pos⟩ Forked.launcher).ending
        ⟨chainedRun.sequence.1, { backend := {} }⟩).host.calls = [.body 0 "first"] :=
  ⟨chainedRun_fresh, by decide +kernel, by decide +kernel, by decide +kernel, by decide +kernel,
    by decide +kernel⟩

end Execution
end RankRunner
