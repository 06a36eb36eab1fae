import RankRunner.Proofs.Siblings.Layers

/-! # Levels

The levels of a list that has been ranked are its ranks one by one (`Ranked.getElem?_levels`). None
of them is missing: the largest rank is that of some item, and an item whose rank is not zero
depends on one with the rank just before, so that the ranks of the items are all those from zero on
(`Tight.exists_rank`). Hence the levels part the list, and the dependencies of an item lie in the
levels before its own, one of them in the level just before (`levels_partition`). -/

namespace RankRunner.Siblings

open WorkItem (item)

variable {α : Type} [WorkItem α] {l : Siblings α} {a b : α} {k n : Nat} {level : List α}

theorem mem_atRank {r : Int} : a ∈ l.atRank r ↔ a ∈ l.items ∧ (item a).rank = r := by
  simp [atRank]

/-- The items of the first `n` ranks, rank by rank. -/
theorem flatten_atRank_perm (h : ∀ a ∈ l.items, 0 ≤ (item a).rank) (n : Nat) :
    ((List.range n).map fun k : Nat => l.atRank k).flatten.Perm
      (l.items.filter fun a => (item a).rank < n) := by
  induction n with
  | zero =>
    have hnone : (l.items.filter fun a => (item a).rank < (0 : Nat)) = [] := by
      apply List.filter_eq_nil_iff.2
      intro a ha
      have := h a ha
      simpa using this
    rw [hnone]
    exact .nil
  | succ n ih =>
    have hbelow : (l.items.filter fun a => (item a).rank < n) =
        (l.items.filter fun a => (item a).rank < (n + 1 : Nat)).filter
          fun a => (item a).rank < n := by
      rw [List.filter_filter]
      apply List.filter_congr
      intro a _
      simp only [← Bool.decide_and, decide_eq_decide]
      omega
    have hat : l.atRank n = (l.items.filter fun a => (item a).rank < (n + 1 : Nat)).filter
        fun a => !decide ((item a).rank < n) := by
      rw [List.filter_filter]
      apply List.filter_congr
      intro a _
      rw [Bool.eq_iff_iff]
      simp only [beq_iff_eq, Bool.and_eq_true, Bool.not_eq_true', decide_eq_true_eq,
        decide_eq_false_iff_not]
      omega
    rw [List.range_succ, List.map_append, List.flatten_append, List.map_singleton,
      List.flatten_singleton]
    refine (ih.append_right _).trans ?_
    rw [hbelow, hat]
    exact List.filter_append_perm ..

/-- There is no gap: before the rank of an item all ranks occur. -/
theorem Tight.exists_rank (ht : l.Tight) (n : Nat) : ∀ a ∈ l.items, (item a).rank = k + n →
    ∃ b ∈ l.items, (item b).rank = k := by
  induction n with
  | zero =>
    intro a ha hrank
    exact ⟨a, ha, by simpa using hrank⟩
  | succ n ih =>
    intro a ha hrank
    obtain ⟨b, hb, -, -, hbefore⟩ := ht.attained a ha (by omega)
    exact ih b hb (by omega)

namespace Ranked

variable (h : l.Ranked) (ht : l.Tight)
include h ht

theorem exists_maxRank (hne : l.items ≠ []) : ∃ a ∈ l.items, (item a).rank = l.maxRank := by
  rw [h.maxRank_eq ht]
  cases hmax : (l.items.map fun a => (item a).rank).max? with
  | none => exact absurd (List.map_eq_nil_iff.1 (List.max?_eq_none_iff.1 hmax)) hne
  | some r => exact List.mem_map.1 (List.max?_eq_some_iff.1 hmax).1

theorem atRank_ne_nil (hne : l.items ≠ []) (hk : k ≤ l.maxRank) : l.atRank k ≠ [] := by
  obtain ⟨a, ha, hrank⟩ := h.exists_maxRank ht hne
  obtain ⟨b, hb, hrank⟩ := ht.exists_rank (k := k) (l.maxRank - k).toNat a ha (by omega)
  exact List.ne_nil_of_mem (mem_atRank.2 ⟨hb, hrank⟩)

/-- No level is left out. -/
theorem levels_eq (hne : l.items ≠ []) :
    l.levels = (List.range (l.maxRank + 1).toNat).map fun k : Nat => l.atRank k := by
  apply List.filter_eq_self.2
  intro level hlevel
  obtain ⟨k, hk, rfl⟩ := List.mem_map.1 hlevel
  have := List.mem_range.1 hk
  simpa using h.atRank_ne_nil ht hne (k := k) (by omega)

end Ranked

theorem levels_of_nil (h : l.items = []) : l.levels = [] := by
  apply List.filter_eq_nil_iff.2
  intro level hlevel
  obtain ⟨k, -, rfl⟩ := List.mem_map.1 hlevel
  simp [atRank, h]

/-- At a place of the levels stand the items of that rank, if there are any. -/
theorem Ranked.getElem?_levels (h : l.Ranked) (ht : l.Tight) :
    l.levels[k]? = some level ↔ level = l.atRank k ∧ level ≠ [] := by
  by_cases hne : l.items = []
  · simp [levels_of_nil hne, atRank, hne]
  · rw [h.levels_eq ht hne, List.getElem?_map, Option.map_eq_some_iff]
    constructor
    · rintro ⟨j, hj, rfl⟩
      obtain ⟨hlt, rfl⟩ := List.getElem?_eq_some_iff.1 hj
      rw [List.length_range] at hlt
      rw [List.getElem_range]
      exact ⟨rfl, h.atRank_ne_nil ht hne (by omega)⟩
    · rintro ⟨rfl, hlevel⟩
      obtain ⟨a, ha⟩ := List.exists_mem_of_ne_nil _ hlevel
      obtain ⟨ha, hrank⟩ := mem_atRank.1 ha
      have := h.rank_le a ha
      exact ⟨k, List.getElem?_range (by omega), rfl⟩

/-- The item stands in the level of that number. -/
def AtLevel (l : Siblings α) (k : Nat) (a : α) : Prop :=
  ∃ level, l.levels[k]? = some level ∧ a ∈ level

theorem Ranked.atLevel_iff (h : l.Ranked) (ht : l.Tight) :
    l.AtLevel k a ↔ a ∈ l.items ∧ (item a).rank = k := by
  constructor
  · rintro ⟨level, hlevel, ha⟩
    obtain ⟨rfl, -⟩ := (h.getElem?_levels ht).1 hlevel
    exact mem_atRank.1 ha
  · intro ha
    have ha := mem_atRank.2 ha
    exact ⟨_, (h.getElem?_levels ht).2 ⟨rfl, List.ne_nil_of_mem ha⟩, ha⟩

/-- The levels part the list, and the dependencies of an item lie in levels before its own, of which
the one just before holds at least one. -/
structure Levelled (l : Siblings α) : Prop where
  empty : l.items = [] → l.levels = []
  length : l.items ≠ [] → l.levels.length = l.maxRank + 1
  nonempty : ∀ level ∈ l.levels, level ≠ []
  partition : l.levels.flatten.Perm l.items
  once : ∀ a ∈ l.items, ∃! k, l.AtLevel k a
  /-- Within a level the items stand in the order of the list. -/
  inOrder : ∀ level ∈ l.levels, level.Sublist l.items
  before : ∀ k a, l.AtLevel k a → ∀ t ∈ (item a).needs,
    ∃ b, l.get? t = some b ∧ ∃ j < k, l.AtLevel j b
  justBefore : ∀ k a, l.AtLevel (k + 1) a → ∃ t ∈ (item a).needs,
    ∃ b, l.get? t = some b ∧ l.AtLevel k b

theorem Ranked.levelled (h : l.Ranked) (ht : l.Tight) : l.Levelled where
  empty := levels_of_nil
  length hne := by
    have := h.maxRank_nonneg
    rw [h.levels_eq ht hne, List.length_map, List.length_range]
    omega
  nonempty level hlevel := by
    obtain ⟨k, hk⟩ := List.mem_iff_getElem?.1 hlevel
    exact ((h.getElem?_levels ht).1 hk).2
  partition := by
    by_cases hne : l.items = []
    · rw [levels_of_nil hne, hne]
      exact .nil
    · have hall : (l.items.filter fun a => (item a).rank < (l.maxRank + 1).toNat) = l.items := by
        apply List.filter_eq_self.2
        intro a ha
        have := h.rank_le a ha
        simp only [decide_eq_true_eq]
        omega
      rw [h.levels_eq ht hne]
      exact (flatten_atRank_perm h.rank_nonneg _).trans (.of_eq hall)
  once a ha := by
    obtain ⟨k, hk⟩ := Int.eq_ofNat_of_zero_le (h.rank_nonneg a ha)
    refine ⟨k, (h.atLevel_iff ht).2 ⟨ha, hk⟩, ?_⟩
    intro j hj
    have := ((h.atLevel_iff ht).1 hj).2
    omega
  inOrder level hlevel := by
    obtain ⟨k, hk⟩ := List.mem_iff_getElem?.1 hlevel
    rw [((h.getElem?_levels ht).1 hk).1]
    exact List.filter_sublist
  before k a hk t htarget := by
    obtain ⟨ha, hrank⟩ := (h.atLevel_iff ht).1 hk
    obtain ⟨b, hb, rfl, hlt⟩ := h.below a ha t htarget
    obtain ⟨j, hj⟩ := Int.eq_ofNat_of_zero_le (h.rank_nonneg b hb)
    exact ⟨b, get?_of_mem h.nodup hb, j, by omega, (h.atLevel_iff ht).2 ⟨hb, hj⟩⟩
  justBefore k a hk := by
    obtain ⟨ha, hrank⟩ := (h.atLevel_iff ht).1 hk
    obtain ⟨b, hb, -, hneeds, hbefore⟩ := ht.attained a ha (by omega)
    exact ⟨_, hneeds, b, get?_of_mem h.nodup hb, (h.atLevel_iff ht).2 ⟨hb, by omega⟩⟩

/-- Ranking a list for the first time leaves its items in the order in which they were declared. If
it succeeds, the levels part the list without a gap. So it is with a list of groups, and with the
cases of each group. -/
theorem levels_partition (l : Siblings α) (h : l.Unranked) (gs : Siblings Group)
    (hgs : gs.Unranked) (hcases : ∀ g ∈ gs.items, g.cases.Unranked) :
    (l.sequence.2 = none → List.Forall₂ WorkItem.Reranked l.items l.sequence.1.items ∧
      l.sequence.1.Levelled) ∧
    (gs.sequenceGroups.2 = none → gs.sequenceGroups.1.Levelled ∧
      List.Forall₂ (fun g g' => g.Prepared g' ∧ g'.cases.Levelled) gs.items
        gs.sequenceGroups.1.items) := by
  constructor
  · intro hseq
    exact ⟨(sequence_reranked l).1, (h.sequence_ranked hseq).levelled h.sequence_tight⟩
  · intro hseq
    obtain ⟨hranked, hprepared⟩ := hgs.sequenceGroups_ranked hseq
    refine ⟨hranked.levelled (hgs.sequenceGroups_tight hseq), hprepared.imp_of_mem ?_⟩
    intro g hg g' _ hp
    refine ⟨hp, ?_⟩
    rw [hp.eq]
    have hunranked := hcases g hg
    exact (hunranked.sequence_ranked hp.sequenced).levelled hunranked.sequence_tight

/-- Two cases between a first and a last one, declared from the last to the first. -/
def diamond : Siblings Case where
  items := [{ id := "ship", deps := [{ target := "lint" }, { target := "test" }] },
    { id := "lint", deps := [{ target := "build" }] },
    { id := "test", deps := [{ target := "build" }] }, { id := "build" }]

theorem levels_partition_diamond :
    (diamond.Unranked ∧ pipeline.Unranked ∧ ∀ g ∈ pipeline.items, g.cases.Unranked) ∧
      diamond.sequence.2 = none ∧ pipeline.sequenceGroups.2 = none ∧
      diamond.sequence.1.levels.map (·.map (·.id)) = [["build"], ["lint", "test"], ["ship"]] ∧
      diamond.sequence.1.Levelled ∧ pipeline.sequenceGroups.1.Levelled := by
  have hunranked : diamond.Unranked := by constructor <;> decide
  have h := levels_partition diamond hunranked pipeline pipeline_unranked pipeline_cases_unranked
  refine ⟨⟨hunranked, pipeline_unranked, pipeline_cases_unranked⟩, by decide, by decide,
    by decide, ?_, ?_⟩
  · exact (h.1 (by decide)).2
  · exact (h.2 (by decide)).1

end RankRunner.Siblings
