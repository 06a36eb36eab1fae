import Mathlib.Data.List.Find
import RankRunner.Proofs.Siblings.Layers

/-! # What is wrong with a list that cannot be ranked

`Diagnosed` says which fault is the right one for a list. A sibling that is missing comes before a
cycle, even where the first item left over only waits for the one that misses it. If no sibling is
missing, ranking leaves over just the items from which a cycle can be reached
(`sequenced_iff_not_loops`), and the dependencies that stay unresolved are those of them from which
one can be reached as well (`pending_eq_filter`). -/

namespace RankRunner.Siblings

open WorkItem (item)
open Relation (ReflTransGen TransGen)

variable {α : Type} [WorkItem α] {l l' : Siblings α} {a : α} {s t : String} {f : Fault}

open scoped Classical in
/-- The right fault for a list that cannot be ranked. -/
inductive Diagnosed (l : Siblings α) : Fault → Prop
  /-- The first item that depends on what is no sibling, and the first such dependency of it. -/
  | missing {a : α} {t : String} :
    l.items.find? (fun b => ∃ s ∈ (item b).needs, s ∉ l.ids) = some a →
    (item a).needs.find? (· ∉ l.ids) = some t →
    Diagnosed l (.missingDependency (WorkItem.kind α) (WorkItem.id a) t (sortedTexts l.ids))
  /-- The first item from which a cycle can be reached, and the dependencies of it from which one
  can. -/
  | cycle {a : α} : l.Complete →
    l.items.find? (fun b => l.Loops (WorkItem.id b)) = some a →
    Diagnosed l (.cycle (WorkItem.id a) ((item a).needs.filter fun t => l.Loops t))

/-! ## What is left over -/

/-- What has a rank depends on what has a lower one. -/
theorem Ranking.needs_sequenced (h : l.Ranking) (ha : a ∈ l.items)
    (hs : (item a).sequenced = true) (hn : l.Needs (WorkItem.id a) t) :
    ∃ b ∈ l.items, (item b).sequenced = true ∧ WorkItem.id b = t ∧
      (item b).rank < (item a).rank := by
  obtain ⟨a', ha', hid, ht⟩ := hn
  cases eq_of_id_eq h.nodup ha' ha hid
  obtain ⟨d, hd, rfl⟩ := List.mem_map.1 ht
  exact h.below a ha d hd (Item.dry_iff.1 (h.settled a ha hs).1 d hd)

theorem Ranking.transGen_sequenced (h : l.Ranking) (ha : a ∈ l.items)
    (hs : (item a).sequenced = true) (hn : TransGen l.Needs (WorkItem.id a) t) :
    ∃ b ∈ l.items, (item b).sequenced = true ∧ WorkItem.id b = t ∧
      (item b).rank < (item a).rank := by
  induction hn with
  | single hn => exact h.needs_sequenced ha hs hn
  | tail _ hn ih =>
    obtain ⟨b, hb, hsb, rfl, hlt⟩ := ih
    obtain ⟨c, hc, hsc, hid, hlt'⟩ := h.needs_sequenced hb hsb hn
    exact ⟨c, hc, hsc, hid, Int.lt_trans hlt' hlt⟩

/-- The ranks decrease along a cycle, so that nothing on it, and nothing that leads to it, has
one. -/
theorem Ranking.not_loops (h : l.Ranking) (ha : a ∈ l.items) (hs : (item a).sequenced = true) :
    ¬ l.Loops (WorkItem.id a) := by
  rintro ⟨t, hreach, hcycle⟩
  obtain ⟨b, hb, hsb, rfl⟩ : ∃ b ∈ l.items, (item b).sequenced = true ∧ WorkItem.id b = t := by
    rcases Relation.reflTransGen_iff_eq_or_transGen.1 hreach with rfl | hreach
    · exact ⟨a, ha, hs, rfl⟩
    · obtain ⟨b, hb, hsb, hid, -⟩ := h.transGen_sequenced ha hs hreach
      exact ⟨b, hb, hsb, hid⟩
  obtain ⟨c, hc, -, hid, hlt⟩ := h.transGen_sequenced hb hsb hcycle
  cases eq_of_id_eq h.nodup hc hb hid
  exact Int.lt_irrefl _ hlt

/-- The state in which ranking ends. -/
structure Ended (l : Siblings α) : Prop where
  ranking : l.Ranking
  tight : l.Tight
  ended : top? l.items = none

namespace Ended

variable (h : l.Ended)
include h

theorem sequenced_iff_not_loops (hc : l.Complete) (ha : a ∈ l.items) :
    (item a).sequenced = true ↔ ¬ l.Loops (WorkItem.id a) :=
  ⟨h.ranking.not_loops ha, h.tight.sequenced h.ended hc a ha⟩

/-- What has a rank misses no sibling. -/
theorem mem_ids_of_sequenced (ha : a ∈ l.items) (hs : (item a).sequenced = true)
    (ht : t ∈ (item a).needs) : t ∈ l.ids := by
  obtain ⟨b, hb, -, rfl, -⟩ := h.ranking.needs_sequenced ha hs ⟨a, ha, rfl, ht⟩
  exact mem_ids.2 ⟨b, hb, rfl⟩

theorem resolved_iff_not_loops (hc : l.Complete) (ha : a ∈ l.items) {d : Dependency}
    (hd : d ∈ (item a).deps) : d.resolved = true ↔ ¬ l.Loops d.target := by
  constructor
  · intro hr
    obtain ⟨b, hb, hs, hid, -⟩ := h.ranking.below a ha d hd hr
    exact hid ▸ h.ranking.not_loops hb hs
  · intro hloops
    obtain ⟨b, hb, hid⟩ := mem_ids.1 (hc a ha d.target (List.mem_map_of_mem hd))
    have hs := (h.sequenced_iff_not_loops hc hb).2 (hid ▸ hloops)
    exact h.tight.resolved a ha d hd b hb hs hid

open scoped Classical in
theorem pending_eq_filter (hc : l.Complete) (ha : a ∈ l.items) :
    (item a).pending = (item a).needs.filter fun t => l.Loops t := by
  rw [Item.pending, Item.needs, List.filter_map]
  congr 1
  apply List.filter_congr
  intro d hd
  have := h.resolved_iff_not_loops hc ha hd
  cases hr : d.resolved <;> simp_all

end Ended

/-! ## The fault -/

theorem missing?_eq_none_iff : l.missing? a = none ↔ ∀ t ∈ (item a).needs, t ∈ l.ids := by
  simp [missing?]

namespace Ended

variable (h : l.Ended)
include h

open scoped Classical in
/-- Of all items that miss a sibling, the first is the first of those left over. -/
theorem diagnosed_of_missing (hf : l.stuck.findSome? l.missing? = some f) : l.Diagnosed f := by
  obtain ⟨before, a, after, hstuck, hmissing, hbefore⟩ := List.findSome?_eq_some_iff.1 hf
  obtain ⟨t, ht, rfl⟩ := Option.map_eq_some_iff.1 hmissing
  refine .missing ?_ (by simpa using ht)
  let misses (b : α) : Bool := ∃ s ∈ (item b).needs, s ∉ l.ids
  have hmisses (b : α) : misses b = false ↔ l.missing? b = none := by
    rw [missing?_eq_none_iff]
    simp [misses]
  have hfirst : l.stuck.find? misses = some a := by
    refine List.find?_eq_some_iff_append.2 ⟨?_, before, after, hstuck, fun b hb => ?_⟩
    · rw [← Bool.not_eq_false, hmisses, hmissing]
      simp
    · rw [(hmisses b).2 (hbefore b hb)]
      rfl
  rw [stuck, List.find?_filter] at hfirst
  rw [← hfirst]
  refine List.find?_congr fun b hb => ?_
  cases hs : (item b).sequenced with
  | false => simp [misses]
  | true =>
    have := (hmisses b).2 (missing?_eq_none_iff.2 fun t => h.mem_ids_of_sequenced hb hs)
    simpa [misses] using this

open scoped Classical in
/-- Without a missing sibling, the first item that is left over is the first one from which a cycle
can be reached. -/
theorem diagnosed_of_cycle {rest : List α} (hstuck : l.stuck = a :: rest)
    (hnone : l.stuck.findSome? l.missing? = none) :
    l.Diagnosed (.cycle (WorkItem.id a) (item a).pending) := by
  have hc : l.Complete := by
    intro b hb t ht
    cases hs : (item b).sequenced with
    | true => exact h.mem_ids_of_sequenced hb hs ht
    | false =>
      have hleft : b ∈ l.stuck := List.mem_filter.2 ⟨hb, by rw [hs]; rfl⟩
      exact missing?_eq_none_iff.1 (List.findSome?_eq_none_iff.1 hnone b hleft) t ht
  have hfirst : l.items.find? (fun b => !(item b).sequenced) = some a := by
    rw [← List.head?_filter]
    exact congrArg List.head? hstuck
  have ha : a ∈ l.items := List.mem_of_find?_eq_some hfirst
  rw [h.pending_eq_filter hc ha]
  refine .cycle hc (hfirst ▸ List.find?_congr fun b hb => ?_)
  have := h.sequenced_iff_not_loops hc hb
  cases hs : (item b).sequenced <;> simp_all

theorem diagnosed (hf : l.stuckFault? = some f) : l.Diagnosed f := by
  unfold stuckFault? at hf
  split at hf
  · cases hf
  · next a rest hstuck =>
    rw [← hstuck] at hf
    split at hf
    · next hmissing =>
      cases hf
      exact h.diagnosed_of_missing hmissing
    · next hnone =>
      cases hf
      exact h.diagnosed_of_cycle hstuck hnone

end Ended

theorem Unranked.sequence_ended (h : l.Unranked) : l.sequence.1.Ended :=
  ⟨h.ranking.settleAll _, h.sequence_tight, l.sequence_settles.ended⟩

/-- Ranking leaves the graph as it is, and with it the fault that is the right one. -/
theorem Diagnosed.of_reranked (hl : List.Forall₂ WorkItem.Reranked l.items l'.items)
    (h : l'.Diagnosed f) : l.Diagnosed f := by
  have hids : l'.ids = l.ids := ids_of_reranked hl
  have hgraph : l'.Loops = l.Loops := by
    unfold Loops
    rw [needs_of_reranked hl]
  cases h with
  | missing hfirst hdep =>
    rw [hids] at hfirst hdep ⊢
    obtain ⟨a, ha, hab⟩ := hl.exists_of_find? (fun a b hab => by rw [hab.2.needs]) hfirst
    rw [id_of_reranked hab]
    exact .missing ha (hab.2.needs ▸ hdep)
  | cycle hc hfirst =>
    rw [hgraph] at hfirst ⊢
    obtain ⟨a, ha, hab⟩ := hl.exists_of_find? (fun a b hab => by rw [id_of_reranked hab]) hfirst
    rw [id_of_reranked hab, hab.2.needs]
    refine .cycle (fun b hb t ht => ?_) ha
    obtain ⟨b', hb', hbb⟩ := hl.exists_of_mem_left hb
    exact hids ▸ hc b' hb' t (hbb.2.needs.symm ▸ ht)

theorem Unranked.diagnosed (h : l.Unranked) (hf : l.sequence.2 = some f) : l.Diagnosed f :=
  (h.sequence_ended.diagnosed hf).of_reranked (sequence_reranked l).1

/-! ## Groups -/

open scoped Classical in
/-- The cases of the groups are ranked in the order of the groups, up to the first ones that cannot
be ranked. -/
theorem sequenceCases_diagnosed {gs : List Group} (h : ∀ g ∈ gs, g.cases.Unranked)
    (hf : (sequenceCases gs).2 = some f) :
    ∃ g, gs.find? (fun g => ¬ g.cases.Rankable) = some g ∧ g.cases.Diagnosed f := by
  induction gs with
  | nil => cases hf
  | cons g gs ih =>
    have hg := h g List.mem_cons_self
    have hrankable := hg.sequence_eq_none_iff
    rw [List.find?_cons]
    unfold sequenceCases at hf
    split at hf
    · next hcases =>
      cases hf
      have hfault : g.cases.sequence.2 = some f := congrArg (·.2) hcases
      have hstop : ¬ g.cases.Rankable := by
        rw [← hrankable, hfault]
        simp
      exact ⟨g, by simp [hstop], hg.diagnosed hfault⟩
    · next hcases =>
      have hgo : g.cases.Rankable := hrankable.1 (congrArg (·.2) hcases)
      obtain ⟨g', hg', hd⟩ := ih (fun g' hg' => h g' (List.mem_cons_of_mem _ hg')) hf
      exact ⟨g', by simpa [hgo] using hg', hd⟩

open scoped Classical in
/-- A list that cannot be ranked has the right fault. Of a list of groups the fault is one of the
list itself if there is any, and otherwise one of the first list of cases that cannot be ranked. -/
theorem sequencing_diagnosed (l : Siblings α) (h : l.Unranked) (gs : Siblings Group)
    (hgs : gs.Unranked) (hcases : ∀ g ∈ gs.items, g.cases.Unranked) :
    (∀ f, l.sequence.2 = some f → l.Diagnosed f) ∧
    (∀ f, gs.sequence.2 = some f → gs.sequenceGroups.2 = some f ∧ gs.Diagnosed f) ∧
    (gs.sequence.2 = none → ∀ f, gs.sequenceGroups.2 = some f →
      ∃ g, gs.items.find? (fun g => ¬ g.cases.Rankable) = some g ∧ g.cases.Diagnosed f) := by
  refine ⟨fun f => h.diagnosed, fun f hf => ⟨?_, hgs.diagnosed hf⟩, fun hnone f hf => ?_⟩
  · unfold sequenceGroups
    split
    · next hl => rw [hl] at hf; exact hf
    · next hl => rw [hl] at hf; cases hf
  · have hkept := (sequence_reranked gs).1
    have hleft : (sequenceCases gs.sequence.1.items).2 = some f := by
      unfold sequenceGroups at hf
      split at hf
      · next hl => rw [hl] at hnone; cases hnone
      · next hl => rw [hl]; exact hf
    have hkeptCases : ∀ g' ∈ gs.sequence.1.items, g'.cases.Unranked := by
      intro g' hg'
      obtain ⟨g, hg, hgg⟩ := hkept.exists_of_mem_right hg'
      exact Group.cases_of_reranked hgg ▸ hcases g hg
    obtain ⟨g', hg', hd⟩ := sequenceCases_diagnosed hkeptCases hleft
    obtain ⟨g, hg, hgg⟩ := hkept.exists_of_find?
      (fun g g' hgg => by rw [Group.cases_of_reranked hgg]) hg'
    exact ⟨g, hg, Group.cases_of_reranked hgg ▸ hd⟩

/-- A case waits for another one, which misses a sibling besides, and a third one for itself. -/
def tangled : Siblings Case where
  items := [{ id := "report", deps := [{ target := "build" }] },
    { id := "build", deps := [{ target := "lint" }, { target := "cache" }] },
    { id := "lint", deps := [{ target := "lint" }] }]

/-- Two groups that wait for each other, and before them one that waits for the second. -/
def circular : Siblings Group where
  items := [{ id := "deploy", deps := [{ target := "stage" }, { target := "test" }] },
    { id := "test", deps := [{ target := "check" }] }, { id := "stage", cases := tangled },
    { id := "check", deps := [{ target := "stage" }, { target := "test" }] }]

theorem tangled_unranked : tangled.Unranked := by
  constructor <;> decide

theorem circular_unranked : circular.Unranked := by
  constructor <;> decide

theorem circular_cases_unranked : ∀ g ∈ circular.items, g.cases.Unranked := by
  intro g hg
  simp only [circular, List.mem_cons, List.not_mem_nil, or_false] at hg
  rcases hg with rfl | rfl | rfl | rfl
  case inr.inr.inl => exact tangled_unranked
  all_goals constructor <;> decide

theorem sequencing_diagnosed_circular :
    (tangled.Unranked ∧ circular.Unranked ∧ ∀ g ∈ circular.items, g.cases.Unranked) ∧
      tangled.Diagnosed (.missingDependency .case "build" "cache" (sortedTexts tangled.ids)) ∧
      circular.sequenceGroups.2 = some (.cycle "deploy" ["test"]) ∧
      circular.Diagnosed (.cycle "deploy" ["test"]) := by
  have h := sequencing_diagnosed tangled tangled_unranked circular circular_unranked
    circular_cases_unranked
  exact ⟨⟨tangled_unranked, circular_unranked, circular_cases_unranked⟩, h.1 _ rfl, h.2.1 _ rfl⟩

end RankRunner.Siblings
