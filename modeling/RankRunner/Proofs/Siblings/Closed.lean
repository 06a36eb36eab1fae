import RankRunner.Proofs.Expected
import RankRunner.Proofs.Siblings.Layers

/-! # Closed parts of a list

A part of a list is closed if it has everything that its items depend on. No chain of dependencies
leads out of it, so that its items have the ranks that they have in the whole list, and what is
expected of them is the same. -/

namespace RankRunner

namespace Siblings

open WorkItem (item)
open Relation (TransGen)

variable {α : Type} [WorkItem α] {part l : Siblings α} {good : α → Prop} {s t : String} {n : Nat}
  {a : α}

structure Closed (part l : Siblings α) : Prop where
  sublist : part.items.Sublist l.items
  needs : ∀ a ∈ part.items, ∀ t ∈ (item a).needs, t ∈ part.ids

namespace Closed

variable (closed : part.Closed l)
include closed

theorem mem (ha : a ∈ part.items) : a ∈ l.items := closed.sublist.subset ha

theorem nodup (hn : l.ids.Nodup) : part.ids.Nodup := hn.sublist (closed.sublist.map _)

theorem unranked (h : l.Unranked) : part.Unranked where
  nodup := closed.nodup h.nodup
  rank a ha := h.rank a (closed.mem ha)
  sequenced a ha := h.sequenced a (closed.mem ha)
  unresolved a ha := h.unresolved a (closed.mem ha)

theorem mem_of_id (hn : l.ids.Nodup) (ha : a ∈ l.items) (hid : WorkItem.id a ∈ part.ids) :
    a ∈ part.items := by
  obtain ⟨b, hb, hab⟩ := mem_ids.1 hid
  exact eq_of_id_eq hn (closed.mem hb) ha hab ▸ hb

theorem needs_mono (h : part.Needs s t) : l.Needs s t := by
  obtain ⟨a, ha, hs, ht⟩ := h
  exact ⟨a, closed.mem ha, hs, ht⟩

theorem mem_of_needs (h : part.Needs s t) : t ∈ part.ids := by
  obtain ⟨a, ha, -, ht⟩ := h
  exact closed.needs a ha t ht

theorem needs_iff (hn : l.ids.Nodup) (hs : s ∈ part.ids) : part.Needs s t ↔ l.Needs s t := by
  constructor
  · exact closed.needs_mono
  · rintro ⟨a, ha, rfl, ht⟩
    exact ⟨a, closed.mem_of_id hn ha hs, rfl, ht⟩

theorem rankable (h : l.Rankable) : part.Rankable where
  complete := closed.needs
  acyclic id hcycle := h.acyclic id (TransGen.mono (fun _ _ => closed.needs_mono) id id hcycle)

/-- What is followed from an item of the part stays in the part. -/
theorem chain_iff (hn : l.ids.Nodup) (hs : s ∈ part.ids) : part.Chain n s ↔ l.Chain n s := by
  constructor
  · intro h
    induction h with
    | nil s => exact .nil s
    | cons hst _ ih => exact .cons (closed.needs_mono hst) (ih (closed.mem_of_needs hst))
  · intro h
    induction h with
    | nil s => exact .nil s
    | cons hst _ ih =>
      have hst' := (closed.needs_iff hn hs).2 hst
      exact .cons hst' (ih (closed.mem_of_needs hst'))

theorem passes_iff (hn : l.ids.Nodup) (ht : t ∈ part.ids) :
    part.Passes good t ↔ l.Passes good t := by
  constructor
  · intro h
    induction h with
    | intro a ha hgood hneeds ih =>
      exact .intro a (closed.mem ha) hgood fun t ht => ih t ht (closed.needs a ha t ht)
  · intro h
    induction h with
    | intro a ha hgood _ ih =>
      have ha' := closed.mem_of_id hn ha ht
      exact .intro a ha' hgood fun t ht => ih t ht (closed.needs a ha' t ht)

theorem ready_iff (hn : l.ids.Nodup) (ha : a ∈ part.items) :
    part.Ready good a ↔ l.Ready good a :=
  forall₂_congr fun t ht => closed.passes_iff hn (closed.needs a ha t ht)

end Closed

theorem Closed.expected {part l : Siblings Group} (closed : part.Closed l) (hn : l.ids.Nodup)
    {g : Group} (hg : g ∈ part.items) : g.expected part = g.expected l := by
  have hready : part.Ready Group.Good g ↔ l.Ready Group.Good g := closed.ready_iff hn hg
  rw [Group.expected, Group.expected, propext hready]

/-- The rank that a group gets is the length of the longest chain below it. -/
theorem Unranked.sequenceGroups_rank {l : Siblings Group} (h : l.Unranked)
    (hseq : l.sequenceGroups.2 = none) :
    List.Forall₂ (fun g g' : Group => g.Prepared g' ∧
      ∃ n : Nat, g'.rank = n ∧ IsGreatest {n | l.Chain n g.id} n)
      l.items l.sequenceGroups.1.items := by
  have hprepared := (h.sequenceGroups_ranked hseq).2
  have hneeds : l.sequenceGroups.1.Needs = l.Needs :=
    needs_congr hprepared (fun _ _ hp => hp.item.id) fun _ _ hp => hp.item.needs
  refine hprepared.imp_of_mem fun g _ g' hg' hp => ⟨hp, ?_⟩
  obtain ⟨n, hrank, hgreatest⟩ := (h.sequenceGroups_layered hseq).longest g' hg'
  refine ⟨n, hrank, ?_⟩
  have hchains : {n | l.sequenceGroups.1.Chain n (WorkItem.id g')} = {n | l.Chain n g.id} := by
    ext m
    change Chain _ m g'.id ↔ _
    rw [hp.item.id]
    exact ⟨.congr hneeds.symm, .congr hneeds⟩
  exact hchains ▸ hgreatest

end Siblings
end RankRunner
