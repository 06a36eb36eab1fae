import RankRunner.Proofs.Siblings.Ranked

/-! # Ranked groups

Ranking a fresh list of groups ranks the groups, and the cases of each group among themselves. -/

namespace RankRunner

/-- What ranking makes of a group: its cases are ranked as well. -/
structure Group.Prepared (g g' : Group) : Prop where
  item : g.toItem.Reranked g'.toItem
  eq : g' = { g with toItem := g'.toItem, cases := g.cases.sequence.1 }
  sequenced : g.cases.sequence.2 = none

/-- A group that can be entered: its cases are ranked and idle. -/
structure Group.Poised (g : Group) : Prop where
  status : g.status = .success
  notRun : g.notRun = false
  ranked : g.cases.Ranked
  outstanding : g.cases.outstanding = 0
  idle : ∀ c ∈ g.cases.items, c.Idle

namespace Siblings

open WorkItem (item)

variable {α : Type} [WorkItem α]

theorem exists_of_items {l l' : Siblings α} (hitems : l'.items.map item = l.items.map item)
    {a : α} (ha : a ∈ l'.items) : ∃ b ∈ l.items, item b = item a :=
  List.mem_map.1 (hitems ▸ List.mem_map_of_mem ha)

theorem ids_congr {l l' : Siblings α} (hitems : l'.items.map item = l.items.map item) :
    l'.ids = l.ids := by
  have := congrArg (List.map Item.id) hitems
  rwa [List.map_map, List.map_map] at this

/-- Whether a list is ranked depends on nothing but the items. -/
theorem Ranked.congr {l l' : Siblings α} (h : l.Ranked)
    (hitems : l'.items.map item = l.items.map item) (hmax : l'.maxRank = l.maxRank) :
    l'.Ranked := by
  have hids := ids_congr hitems
  refine ⟨hids ▸ h.nodup, hmax ▸ h.maxRank_nonneg, fun a ha => ?_, fun a ha => ?_, fun a ha => ?_,
    fun a ha t ht => ?_⟩
  · obtain ⟨b, hb, hab⟩ := exists_of_items hitems ha
    exact hab ▸ h.rank_nonneg b hb
  · obtain ⟨b, hb, hab⟩ := exists_of_items hitems ha
    exact hmax ▸ hab ▸ h.rank_le b hb
  · obtain ⟨b, hb, hab⟩ := exists_of_items hitems ha
    exact hab ▸ h.resolved b hb
  · obtain ⟨b, hb, hab⟩ := exists_of_items hitems ha
    obtain ⟨c, hc, hid, hlt⟩ := h.below b hb t (hab ▸ ht)
    obtain ⟨c', hc', hcc⟩ := exists_of_items hitems.symm hc
    exact ⟨c', hc', by rw [← hid, WorkItem.id, WorkItem.id, hcc], by rw [hcc, ← hab]; exact hlt⟩

/-- To rank the cases leaves the groups as they are, one by one. -/
theorem sequenceCases_eq_none {gs : List Group} (h : (sequenceCases gs).2 = none) :
    (∀ g ∈ gs, g.cases.sequence.2 = none) ∧
      (sequenceCases gs).1 = gs.map fun g => { g with cases := g.cases.sequence.1 } := by
  induction gs with
  | nil => exact ⟨fun _ hg => absurd hg List.not_mem_nil, rfl⟩
  | cons g gs ih =>
    unfold sequenceCases at h ⊢
    split at h
    · cases h
    · next cases hcases =>
      obtain ⟨hnone, hmap⟩ := ih h
      refine ⟨?_, ?_⟩
      · rintro g' (_ | ⟨_, hg'⟩)
        · rw [hcases]
        · exact hnone g' hg'
      · simp only [List.map_cons, hcases, hmap]

theorem sequenceCases_eq_none_of_forall {gs : List Group}
    (h : ∀ g ∈ gs, g.cases.sequence.2 = none) : (sequenceCases gs).2 = none := by
  induction gs with
  | nil => rfl
  | cons g gs ih =>
    have hg := h g List.mem_cons_self
    unfold sequenceCases
    split
    · next hcases => rw [hcases] at hg; cases hg
    · exact ih fun g' hg' => h g' (List.mem_cons_of_mem _ hg')

theorem sequenceGroups_eq_none_iff {l : Siblings Group} : l.sequenceGroups.2 = none ↔
    l.sequence.2 = none ∧ ∀ g ∈ l.sequence.1.items, g.cases.sequence.2 = none := by
  unfold sequenceGroups
  split
  · next hl => simp [hl]
  · next hl =>
    rw [hl]
    constructor
    · exact fun hseq => ⟨rfl, (sequenceCases_eq_none hseq).1⟩
    · exact fun hseq => sequenceCases_eq_none_of_forall hseq.2

theorem sequenceGroups_of_eq_none {l : Siblings Group} (h : l.sequenceGroups.2 = none) :
    l.sequenceGroups.1 = { l.sequence.1 with
      items := l.sequence.1.items.map fun g => { g with cases := g.cases.sequence.1 } } := by
  unfold sequenceGroups at h ⊢
  split at h
  · cases h
  · next hl => simp only [hl, (sequenceCases_eq_none h).2]

theorem sequenceCases_items (gs : List Group) :
    (sequenceCases gs).1.map item = gs.map item := by
  induction gs with
  | nil => rfl
  | cons g gs ih =>
    unfold sequenceCases
    split
    · rfl
    · rw [List.map_cons, List.map_cons, ih]
      rfl

/-- To rank the cases changes nothing that the groups are ranked by. -/
theorem sequenceGroups_items (l : Siblings Group) :
    l.sequenceGroups.1.items.map item = l.sequence.1.items.map item := by
  unfold sequenceGroups
  split
  · next hl => rw [hl]
  · next hl => rw [hl, sequenceCases_items]

end Siblings

theorem Group.cases_of_reranked {g g' : Group} (h : WorkItem.Reranked g g') :
    g'.cases = g.cases := by
  rw [h.1]
  rfl

namespace Siblings

theorem Unranked.sequenceGroups_ranked {l : Siblings Group} (h : l.Unranked)
    (hseq : l.sequenceGroups.2 = none) :
    l.sequenceGroups.1.Ranked ∧
      List.Forall₂ Group.Prepared l.items l.sequenceGroups.1.items := by
  obtain ⟨hnone, hcases⟩ := sequenceGroups_eq_none_iff.1 hseq
  rw [sequenceGroups_of_eq_none hseq]
  refine ⟨(h.sequence_ranked hnone).congr (by simp) rfl, List.forall₂_map_right_iff.2 ?_⟩
  refine (sequence_reranked l).1.imp_of_mem fun g _ g' hg' hgg => ?_
  have hkept := Group.cases_of_reranked hgg
  refine ⟨hgg.2, ?_, hkept ▸ hcases g' hg'⟩
  rw [hkept]
  exact congrArg (fun g' : Group => { g' with cases := g.cases.sequence.1 }) hgg.1

theorem ids_of_prepared {gs gs' : List Group} (h : List.Forall₂ Group.Prepared gs gs') :
    gs'.map WorkItem.id = gs.map WorkItem.id := by
  induction h with
  | nil => rfl
  | cons h _ ih =>
    rw [List.map_cons, List.map_cons, ih]
    exact congrArg (· :: _) h.item.id

end Siblings

theorem Group.Fresh.poised {g g' : Group} (h : g.Fresh) (hp : g.Prepared g') : g'.Poised := by
  have hcases : g'.cases = g.cases.sequence.1 := by rw [hp.eq]
  refine ⟨?_, ?_, ?_, ?_, ?_⟩
  · rw [hp.item.eq]
    exact h.item.status
  · rw [hp.item.eq]
    exact h.item.notRun
  · exact hcases ▸ Siblings.sequence_ranked h.cases (fun _ hc => hc.item) hp.sequenced
  · rw [hcases, (Siblings.sequence_reranked g.cases).2]
    exact h.cases.outstanding
  · exact hcases ▸ h.cases.idle

/-- A fresh run is ranked unless there is a fault. -/
theorem Run.Fresh.ranked {r r' : Run} (h : r.Fresh) (hseq : r.sequence = (r', none)) :
    r'.groups.Ranked ∧ List.Forall₂ Group.Prepared r.groups.items r'.groups.items := by
  have hgroups : r'.groups = r.groups.sequenceGroups.1 := congrArg (·.1.groups) hseq.symm
  rw [hgroups]
  exact (h.groups.unranked fun _ hg => hg.item).sequenceGroups_ranked (congrArg (·.2) hseq)

theorem Run.Fresh.outstanding {r r' : Run} (h : r.Fresh) (hseq : r.sequence = (r', none)) :
    r'.groups.outstanding = 0 := by
  have hgroups : r'.groups = r.groups.sequenceGroups.1 := congrArg (·.1.groups) hseq.symm
  rw [hgroups, Siblings.sequenceGroups_of_eq_none (congrArg (·.2) hseq)]
  exact (Siblings.sequence_reranked r.groups).2.trans h.groups.outstanding

theorem Run.Fresh.poised {r r' : Run} (h : r.Fresh) (hseq : r.sequence = (r', none)) :
    ∀ g ∈ r'.groups.items, g.Poised := by
  intro g hg
  obtain ⟨g₀, hg₀, hp⟩ := (h.ranked hseq).2.exists_of_mem_right hg
  exact (h.groups.items g₀ hg₀).poised hp

/-- Nothing has been dispatched by the time that a fresh run has been ranked. -/
theorem Run.Fresh.unstamped {r r' : Run} (h : r.Fresh) (hseq : r.sequence = (r', none)) :
    ∀ g ∈ r'.groups.items, g.toItem.Unstamped ∧ ∀ c ∈ g.cases.items, c.toItem.Unstamped := by
  intro g hg
  obtain ⟨g₀, hg₀, hp⟩ := (h.ranked hseq).2.exists_of_mem_right hg
  have hfresh := h.groups.items g₀ hg₀
  refine ⟨hp.item.unstamped hfresh.item.unstamped, fun c hc => ?_⟩
  rw [hp.eq] at hc
  obtain ⟨c₀, hc₀, hcc⟩ := (Siblings.sequence_reranked g₀.cases).1.exists_of_mem_right hc
  exact hcc.2.unstamped (hfresh.cases.items c₀ hc₀).item.unstamped

theorem Run.Fresh.start_eq_none {r r' : Run} (h : r.Fresh) (hseq : r.sequence = (r', none)) :
    ∀ g ∈ r'.groups.items, ∀ c ∈ g.cases.items, c.start = none :=
  fun g hg c hc => ((h.unstamped hseq g hg).2 c hc).start

end RankRunner
