import RankRunner.Proofs.Execution.Rules
import RankRunner.Proofs.Launcher.Plain
import RankRunner.Proofs.Schedule.Bounds
import RankRunner.Proofs.Siblings.Groups
import RankRunner.Proofs.Siblings.Passes

/-! # No run is green by mistake

If a run in child processes answers with code zero, then every case of every group was started
exactly once and its child exited with code zero, whatever the launcher did. The journal of such a
run consists of one part for each group, in the order in which the groups were entered. -/

namespace RankRunner

open Effect

variable {σ : Type} {launcher : Launcher σ} {inv : σ → Prop}

namespace Journal

/-- All cases of the list are green, and no other case was started. -/
structure Covers (J : Journal σ) (l : Siblings Case) : Prop where
  green : ∀ id ∈ l.ids, J.Green id
  others : ∀ id ∉ l.ids, J.starts id = []

end Journal

namespace Launcher

theorem Undisturbed.nil {h : Host σ} (hinv : inv h.backend) : Undisturbed inv h.requested [] h :=
  ⟨hinv, fun h => ⟨h, fun _ he => absurd he List.not_mem_nil⟩⟩

theorem Undisturbed.append {asked : Bool} {J J' : Journal σ} {h t : Host σ}
    (hu : Undisturbed inv asked J h) (hu' : Undisturbed inv h.requested J' t) :
    Undisturbed inv asked (J ++ J') t := by
  refine ⟨hu'.1, fun hreq => ?_⟩
  obtain ⟨hh, hJ'⟩ := hu'.2 hreq
  obtain ⟨hasked, hJ⟩ := hu.2 hh
  refine ⟨hasked, fun e he => ?_⟩
  rcases List.mem_append.1 he with he | he
  · exact hJ e he
  · exact hJ' e he

end Launcher

open Launcher

theorem Siblings.ids_sequence {α : Type} [WorkItem α] (l : Siblings α) : l.sequence.1.ids = l.ids :=
  ids_of_reranked (sequence_reranked l).1

theorem Group.succeededFully_of_account {g : Group} (h : g.account.succeededFully = true) :
    g.succeededFully = true := by
  simp only [succeededFully, Item.succeeded, Bool.and_eq_true, beq_iff_eq] at h ⊢
  obtain ⟨⟨hst, hn⟩, hcases⟩ := h
  refine ⟨⟨?_, hn⟩, hcases⟩
  simp only [account] at hst
  split at hst
  · exact hst
  · cases hst

namespace Schedule

/-- If all cases of a list succeeded, the launcher has covered it. -/
theorem ensures_scheduleChunks_covers (numbered : launcher.Numbered inv)
    (insists : launcher.Insistent) {l : Siblings Case} (hr : l.Ranked)
    (hidle : ∀ c ∈ l.items, c.Idle) (hout : l.outstanding = 0) {limit : Nat} (hlimit : 0 < limit)
    {h : Host (Journaled σ)} (hinv : inv h.backend.backend) :
    Ensures (scheduleChunks launcher.journaled limit)
      (fun _ t => t.host.requested = true ∨ ∃ J, t.host.backend.journal = h.backend.journal ++ J ∧
        Undisturbed inv h.requested J t.host.plain ∧
          ((∀ c ∈ t.list.items, c.succeeded = true) → J.Covers l))
      (fun _ _ => True) ⟨l, h⟩ := by
  have hP : Undisturbed inv h.requested [] h.plain := .nil hinv
  refine (ensures_scheduleChunks_of_keeps (numbered.keeps insists _) hr hidle hlimit hout hP).mono
    (fun _ t ht => ?_) fun _ _ _ => trivial
  rcases ht with ⟨⟨J, hJ, hPJ, hu⟩, hlive⟩ | ⟨_, hreq⟩
  · refine .inr ⟨J, hJ, hPJ, fun hall => ⟨fun id hid => ?_, hu.others⟩⟩
    obtain ⟨c₀, hc₀, rfl⟩ := List.mem_map.1 hid
    obtain ⟨p, hp⟩ := List.mem_iff_getElem?.1 hc₀
    obtain ⟨c, hc, hpassed⟩ := hu.upto.finish hr p hp
    have hmem := List.mem_of_getElem? hc
    exact hpassed.green (Siblings.pid_of_live hlive c hmem) (hall c hmem)
  · exact .inl hreq

end Schedule

namespace Execution

open Siblings

variable {l₀ : Siblings Group} {J₀ : Journal σ} {asked : Bool} {r : Int} {k : Nat}
  {order : List (Group × Journal σ)} {t : Scope Group (Journaled σ)} {g₀ g : Group}

/-- If a group and its cases succeeded, it has a part of the journal that covers its cases. -/
structure Covered (order : List (Group × Journal σ)) (g₀ g : Group) : Prop where
  rank : g.rank = g₀.rank
  covers : g.succeededFully = true → ∃ J, (g₀, J) ∈ order ∧ J.Covers g₀.cases

theorem Covered.mono (h : Covered order g₀ g) {order' : List (Group × Journal σ)}
    (hsub : ∀ x ∈ order, x ∈ order') : Covered order' g₀ g :=
  ⟨h.rank, fun hs => let ⟨J, hJ, hcov⟩ := h.covers hs; ⟨J, hsub _ hJ, hcov⟩⟩

/-- The groups that were entered, each with its part of the journal, when the schedule has come to
the place `k` of the rank `r`. -/
structure Covering (inv : σ → Prop) (asked : Bool) (J₀ : Journal σ) (l₀ : Siblings Group)
    (order : List (Group × Journal σ)) (r : Int) (k : Nat) (t : Scope Group (Journaled σ)) :
    Prop where
  journal : t.host.backend.journal = J₀ ++ order.flatMap (·.2)
  undisturbed : Undisturbed inv asked (order.flatMap (·.2)) t.host.plain
  visited : Visited l₀ (order.map (·.1)) r k
  upto : l₀.Upto t.list (Covered order) (fun g₀ g => g = g₀) r k

namespace Covering

/-- A group that is gone by or skipped has no part of the journal. -/
theorem pass_over (h : Covering inv asked J₀ l₀ order r k t) {list : Siblings Group}
    (hupto : l₀.Upto list (Covered order) (fun g₀ g => g = g₀) r (k + 1)) (shown : Shown) :
    Covering inv asked J₀ l₀ order r (k + 1) ⟨list, { t.host with shown }⟩ :=
  ⟨h.journal, h.undisturbed, h.visited.go_by, hupto⟩

/-- A group that is entered gets the next part of the journal. -/
theorem enter (hr : l₀.Ranked) (h : Covering inv asked J₀ l₀ order r k t)
    (hg₀ : l₀.items[k]? = some g₀) (hrank : g₀.rank = r) {J : Journal σ} {h' : Host (Journaled σ)}
    (hjournal : h'.backend.journal = t.host.backend.journal ++ J)
    (hu : Undisturbed inv t.host.requested J h'.plain) {f : Group → Group}
    (hf : (f g₀).rank = g₀.rank) (hcov : (f g₀).succeededFully = true → J.Covers g₀.cases)
    (clock : Clock) (shown : Shown) :
    Covering inv asked J₀ l₀ (order ++ [(g₀, J)]) r (k + 1)
      ⟨t.list.modify k f, { h' with clock, shown }⟩ := by
  obtain ⟨g, hg, rfl⟩ := h.upto.at_place hg₀ (Int.le_of_eq hrank.symm)
  refine ⟨?_, ?_, ?_, ?_⟩
  · rw [List.flatMap_append, List.flatMap_singleton, ← List.append_assoc, ← h.journal]
    exact hjournal
  · rw [List.flatMap_append, List.flatMap_singleton]
    exact h.undisturbed.append hu
  · rw [List.map_append]
    exact h.visited.snoc hr.nodup hg₀ hrank
  · refine h.upto.pass hg₀ hrank modify_length (fun p hp => modify_getElem?_of_ne hp)
      (modify_getElem? hg) ⟨hf, fun hs => ⟨J, List.mem_append_right _ (List.mem_singleton_self _),
        hcov hs⟩⟩ (fun p b₀ b _ _ hb => hb.mono fun x hx => List.mem_append_left _ hx)
      fun _ _ _ _ _ hb => hb

/-- A place is gone by, skipped, or its group is entered. -/
theorem dispatch (numbered : launcher.Numbered inv) (insists : launcher.Insistent)
    {regime : Regime} (hregime : regime.sandboxed = true) (hr : l₀.Ranked)
    (hgroups : ∀ g ∈ l₀.items, g.Poised) (hk : k < l₀.items.length)
    (h : Covering inv asked J₀ l₀ order r k t) :
    Ensures (Schedule.isDue r k) (fun due t => if due then
      Ensures (runGroup regime launcher.journaled k)
        (fun _ t => ∃ order, Covering inv asked J₀ l₀ order r (k + 1) t) (fun _ _ => True) t
      else ∃ order, Covering inv asked J₀ l₀ order r (k + 1) t) (fun _ _ => True) t := by
  have hg₀ := List.getElem?_eq_getElem hk
  have hmem := List.getElem_mem hk
  generalize l₀.items[k] = g₀ at hg₀ hmem
  refine Schedule.ensures_isDue_upto h.upto hg₀ (fun _ hg => hg.rank) (fun _ hg => hg ▸ rfl)
    (fun hupto => ⟨order, h.pass_over hupto t.host.shown⟩) ?_ ?_
  · rintro hrank _ hg rfl _
    have hpoised := hgroups _ hmem
    refine ensures_runGroup hg fun clock shown => ?_
    rw [runCases, if_pos hregime]
    have hrun := Schedule.ensures_scheduleChunks_covers numbered insists hpoised.ranked
      hpoised.idle hpoised.outstanding regime.limit_pos (h := { t.host with clock, shown })
      h.undisturbed.1
    refine hrun.mono (fun _ t' ht => ?_) fun _ _ h _ _ => h
    split
    · exact fun _ _ => trivial
    · next hreq =>
      intro clock' shown' t₁ t₂
      obtain ⟨J, hJ, hu, hcov⟩ := ht.resolve_left hreq
      refine ⟨_, h.enter hr hg₀ hrank hJ hu (f := (·.ran t₁ t₂ t'.list)) rfl (fun hs => ?_) _ _⟩
      have hall : ∀ c ∈ t'.list.items, c.succeeded = true :=
        List.all_eq_true.1 (Bool.and_eq_true_iff.1 hs).2
      exact hcov hall
  · intro hrank _ _ _ _ shown
    refine ⟨order, h.pass_over (h.upto.pass_modify hg₀ hrank ?_) shown⟩
    rintro g rfl
    have hskip : (WorkItem.skip g).succeeded = false := rfl
    refine ⟨rfl, fun hs => ?_⟩
    rw [Group.succeededFully, hskip] at hs
    cases hs

/-- When all groups have been passed and all of them succeeded, all of them were entered. -/
theorem finish (hr : l₀.Ranked) (h : Covering inv asked J₀ l₀ order (l₀.maxRank + 1) 0 t)
    (hall : ∀ g ∈ t.list.items, g.account.succeededFully = true) :
    (order.map (·.1)).Perm l₀.items ∧
      ∀ g₀ ∈ l₀.items, ∃ J, (g₀, J) ∈ order ∧ J.Covers g₀.cases := by
  have hcov : ∀ g₀ ∈ l₀.items, ∃ J, (g₀, J) ∈ order ∧ J.Covers g₀.cases := by
    intro g₀ hg₀
    obtain ⟨p, hp⟩ := List.mem_iff_getElem?.1 hg₀
    obtain ⟨g, hg, hcovered⟩ := h.upto.finish hr p hp
    exact hcovered.covers (Group.succeededFully_of_account (hall g (List.mem_of_getElem? hg)))
  have hperm := h.visited.perm_filter (p := fun _ => true) hr.nodup fun g₀ hg₀ => by
    obtain ⟨J, hJ, _⟩ := hcov g₀ hg₀
    exact iff_of_true rfl (List.mem_map_of_mem hJ)
  rw [List.filter_true] at hperm
  exact ⟨hperm, hcov⟩

end Covering

/-- After the groups of a run in child processes have been scheduled, all of them have been passed,
or the run is asked to stop. -/
theorem ensures_schedule_covering (numbered : launcher.Numbered inv) (insists : launcher.Insistent)
    {regime : Regime} (hregime : regime.sandboxed = true) (hr : l₀.Ranked)
    (hgroups : ∀ g ∈ l₀.items, g.Poised) {h : Host (Journaled σ)}
    (hinv : inv h.backend.backend) :
    Ensures (Schedule.schedule (runGroup regime launcher.journaled))
      (fun _ t => t.host.requested = true ∨ ∃ order, Covering inv h.requested
        h.backend.journal l₀ order (l₀.maxRank + 1) 0 t)
      (fun _ _ => True) ⟨l₀, h⟩ := by
  have hstart : Covering inv h.requested h.backend.journal l₀ [] 0 0 ⟨l₀, h⟩ :=
    ⟨(List.append_nil _).symm, .nil hinv, .nil, .start hr fun _ _ => rfl⟩
  refine (Schedule.ensures_schedule (n := l₀.items.length) (I := fun r k t => ∃ order,
    Covering inv h.requested h.backend.journal l₀ order r k t) hr.maxRank_nonneg
    (fun r k t ⟨_, ht⟩ => ht.upto.length) (fun r k t hk ⟨_, ht⟩ =>
      ht.dispatch numbered insists hregime hr hgroups hk) (fun r t ⟨order, ht⟩ => ⟨order, ?_⟩)
    ⟨[], hstart⟩).mono (fun _ t ht => ?_) fun _ _ h => h
  · exact ⟨ht.journal, ht.undisturbed, ht.visited.next, ht.upto.next⟩
  · rcases ht with ht | ⟨hreq, _⟩
    · exact .inr ht
    · exact .inl hreq

/-- A run that answers with zero has passed all its groups, which succeeded, and was not asked to
stop. -/
theorem ensures_runSuite_covering (numbered : launcher.Numbered inv)
    (insists : launcher.Insistent) {regime : Regime} (hregime : regime.sandboxed = true)
    {r r' : Run} (hseq : r.sequence = (r', none)) (hr : r'.groups.Ranked)
    (hgroups : ∀ g ∈ r'.groups.items, g.Poised) {h : Host (Journaled σ)}
    (hinv : inv h.backend.backend) :
    Ensures (runSuite regime launcher.journaled) (fun code s => code = 0 → ∃ order t,
        Covering inv h.requested h.backend.journal r'.groups order
          (r'.groups.maxRank + 1) 0 t ∧
        (∀ g ∈ t.list.items, g.account.succeededFully = true) ∧
        t.host.requested = false ∧ s.host.requested = false ∧
        s.host.backend = t.host.backend) (fun _ _ => True) ⟨r, h⟩ := by
  refine ensures_runSuite hseq fun clock shown => ?_
  refine (ensures_schedule_covering numbered insists hregime hr hgroups
    (h := { h with clock, shown }) hinv).mono (fun _ t ht => ?_) fun _ _ h _ _ => h
  split
  · exact fun _ _ => trivial
  · next hreq =>
    intro clock t₁ t₂ hzero
    obtain ⟨order, hcov⟩ := ht.resolve_left hreq
    have hcalm := Bool.eq_false_iff.2 hreq
    refine ⟨order, t, hcov, fun g hg => ?_, hcalm, hcalm, rfl⟩
    exact (Run.exitCode_eq_zero_iff _).1 hzero _ (List.mem_map_of_mem hg)

/-- If a run with a journal answers with zero, its journal covers all groups, and the run was never
asked to stop. -/
theorem covers_of_journaled (numbered : launcher.Numbered inv) (insists : launcher.Insistent)
    {regime : Regime} (hregime : regime.sandboxed = true) {r : Run} (hr : r.Fresh)
    {h : Host (Journaled σ)} (hinv : inv h.backend.backend) {s : Session (Journaled σ)}
    (hrun : (runSuite regime launcher.journaled).run ⟨r, h⟩ = .ok 0 s) :
    ∃ order : List (String × Journal σ),
      s.host.backend.journal = h.backend.journal ++ order.flatMap (·.2) ∧
      (order.map (·.1)).Perm r.groups.ids ∧
      (∀ g ∈ r.groups.items, ∃ J, (g.id, J) ∈ order ∧ J.Covers g.cases) ∧
      h.requested = false ∧ s.host.requested = false ∧
      ∀ e ∈ order.flatMap (·.2), e.host.requested = false := by
  obtain ⟨r', fault, hseq⟩ : ∃ r' fault, r.sequence = (r', fault) := ⟨_, _, rfl⟩
  cases fault with
  | some f =>
    rw [runSuite, runSuiteUnder_of_fault hseq] at hrun
    cases hrun
  | none =>
    obtain ⟨hranked, hprepared⟩ := hr.ranked hseq
    obtain ⟨order, t, hcov, hall, hreq, hend, hbackend⟩ :=
      (ensures_runSuite_covering numbered insists hregime hseq hranked (hr.poised hseq)
        hinv).of_ok hrun rfl
    obtain ⟨hperm, hcovers⟩ := hcov.finish hranked hall
    obtain ⟨hfirst, hnever⟩ := hcov.undisturbed.2 hreq
    have hparts : (order.map fun x => (x.1.id, x.2)).flatMap (·.2) = order.flatMap (·.2) :=
      List.flatMap_map ..
    refine ⟨order.map fun x => (x.1.id, x.2), ?_, ?_, fun g hg => ?_, hfirst, hend, ?_⟩
    · rw [hparts, hbackend]
      exact hcov.journal
    · have := hperm.map WorkItem.id
      rw [ids_of_prepared hprepared] at this
      rwa [List.map_map] at this ⊢
    · obtain ⟨g', hg', hp⟩ := hprepared.exists_of_mem_left hg
      obtain ⟨J, hJ, hcover⟩ := hcovers g' hg'
      have hid : g'.id = g.id := hp.item.id
      have hids : g'.cases.ids = g.cases.ids := by
        rw [hp.eq]
        exact g.cases.ids_sequence
      exact ⟨J, hid ▸ List.mem_map_of_mem hJ, hids ▸ hcover.green, hids ▸ hcover.others⟩
    · rwa [hparts]

theorem runSuite_zero_covers (numbered : launcher.Numbered inv) (insists : launcher.Insistent)
    {regime : Regime} (hregime : regime.sandboxed = true) {r : Run} (hr : r.Fresh) {h : Host σ}
    (hinv : inv h.backend) {s : Session σ}
    (hrun : (runSuite regime launcher).run ⟨r, h⟩ = .ok 0 s) :
    ∃ (t : Session (Journaled σ)) (order : List (String × Journal σ)),
      (runSuite regime launcher.journaled).run ⟨r, h.withJournal []⟩ = .ok 0 t ∧ t.plain = s ∧
      t.host.backend.journal = order.flatMap (·.2) ∧
      (order.map (·.1)).Perm r.groups.ids ∧
      (∀ g ∈ r.groups.items, ∃ J, (g.id, J) ∈ order ∧ J.Covers g.cases) ∧
      h.requested = false ∧ s.host.requested = false ∧
      ∀ e ∈ t.host.backend.journal, e.host.requested = false := by
  obtain ⟨t, ht, rfl⟩ :=
    (runSuite_plain regime launcher).exists_ok (s := ⟨r, h.withJournal []⟩) hrun
  obtain ⟨order, hjournal, hperm, hcovers, hfirst, hend, hnever⟩ :=
    covers_of_journaled numbered insists hregime hr (h := h.withJournal []) hinv ht
  rw [Host.withJournal_journal, List.nil_append] at hjournal
  exact ⟨t, order, ht, rfl, hjournal, hperm, hcovers, hfirst, hend, hjournal ▸ hnever⟩

/-- Two groups of three cases, of which the second depends on the first. -/
def twoGroups : Run where
  id := "run"
  groups := { items := [{ id := "g", cases := Schedule.threeCases },
    { toItem := Item.dependsOnAll { id := "h" } ["g"], cases := Schedule.threeCases }] }

theorem twoGroups_fresh : twoGroups.Fresh := by
  refine ⟨⟨by decide, fun g hg => ?_, rfl, rfl⟩, rfl, rfl, rfl⟩
  simp only [twoGroups, List.mem_cons, List.not_mem_nil, or_false] at hg
  rcases hg with rfl | rfl
  · exact ⟨.empty _, Schedule.threeCases_fresh, rfl⟩
  · exact ⟨(Item.Fresh.empty _).dependsOnAll _, Schedule.threeCases_fresh, rfl⟩

theorem runSuite_twoGroups_covers :
    ∃ s t, (runSuite ⟨true, 2, Nat.two_pos⟩ Forked.launcher).run
        ⟨twoGroups, { backend := {} }⟩ = .ok 0 s ∧
      (runSuite ⟨true, 2, Nat.two_pos⟩ Forked.launcher.journaled).run
        ⟨twoGroups, { backend := ⟨{}, []⟩ }⟩ = .ok 0 t ∧ t.plain = s ∧
      ∃ order : List (String × Journal Forked),
        t.host.backend.journal = order.flatMap (·.2) ∧
        (order.map (·.1)).Perm twoGroups.groups.ids ∧
        ∀ g ∈ twoGroups.groups.items, ∃ J, (g.id, J) ∈ order ∧ J.Covers g.cases := by
  obtain ⟨s, hs⟩ := exists_of_answers (x := runSuite ⟨true, 2, Nat.two_pos⟩ Forked.launcher)
    (n := 0) (s := ⟨twoGroups, { backend := {} }⟩) (by decide +kernel)
  obtain ⟨t, order, ht, hplain, hjournal, hperm, hcovers, _⟩ := runSuite_zero_covers
    Forked.truthful.toNumbered Forked.insistent rfl twoGroups_fresh (fun _ he => by cases he) hs
  exact ⟨s, t, hs, ht, hplain, order, hjournal, hperm, hcovers⟩

end Execution
end RankRunner
