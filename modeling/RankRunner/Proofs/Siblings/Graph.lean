import Mathlib.Data.Set.Finite.List
import Mathlib.Logic.Relation
import Mathlib.Order.WellFounded
import Mathlib.Order.Bounds.Basic
import RankRunner.Proofs.Siblings.Ranked

/-! # The dependency graph of a list

The nodes are the identities of a list, and its edges lead from an item to the siblings it needs
(`Siblings.Needs`). Ranking does not change the graph (`needs_of_reranked`, `ids_of_reranked`). The
part of it from which no cycle can be reached (`Loops`) is well founded, for it is finite
(`wellFounded_of_not_loops`); conversely a ranked list has no cycle, since the ranks decrease along
each edge (`Ranked.acyclic`). -/

namespace RankRunner.Siblings

open WorkItem (item)
open Relation (ReflTransGen TransGen)

variable {α : Type} [WorkItem α] {l l' : Siblings α} {s t : String}

/-- An item named `s` depends on what is named `t`. -/
def Needs (l : Siblings α) (s t : String) : Prop :=
  ∃ a ∈ l.items, WorkItem.id a = s ∧ t ∈ (item a).needs

/-- Every dependency names a sibling. -/
def Complete (l : Siblings α) : Prop := ∀ a ∈ l.items, ∀ t ∈ (item a).needs, t ∈ l.ids

instance (l : Siblings α) : Decidable l.Complete :=
  inferInstanceAs (Decidable (∀ a ∈ l.items, ∀ t ∈ (item a).needs, t ∈ l.ids))

/-- No item depends on itself, be it by way of others. -/
def Acyclic (l : Siblings α) : Prop := ∀ id, ¬ TransGen l.Needs id id

/-- By following dependencies one can come to an item that depends on itself. -/
def Loops (l : Siblings α) (s : String) : Prop :=
  ∃ t, ReflTransGen l.Needs s t ∧ TransGen l.Needs t t

/-- What can be ranked: every dependency names a sibling, and there is no cycle. -/
structure Rankable (l : Siblings α) : Prop where
  complete : l.Complete
  acyclic : l.Acyclic

/-- From the item of that name, so many dependencies can be followed one after the other. -/
inductive Chain (l : Siblings α) : Nat → String → Prop
  | nil (s : String) : Chain l 0 s
  | cons {s t : String} {n : Nat} : l.Needs s t → Chain l n t → Chain l (n + 1) s

theorem mem_ids {id : String} : id ∈ l.ids ↔ ∃ a ∈ l.items, WorkItem.id a = id := List.mem_map

/-! ## Ranking leaves the graph as it is -/

theorem needs_congr {R : α → α → Prop} (h : List.Forall₂ R l.items l'.items)
    (hid : ∀ a b, R a b → WorkItem.id b = WorkItem.id a)
    (hneeds : ∀ a b, R a b → (item b).needs = (item a).needs) : l'.Needs = l.Needs := by
  funext s t
  apply propext
  constructor
  · rintro ⟨b, hb, rfl, ht⟩
    obtain ⟨a, ha, hab⟩ := h.exists_of_mem_right hb
    exact ⟨a, ha, (hid a b hab).symm, hneeds a b hab ▸ ht⟩
  · rintro ⟨a, ha, rfl, ht⟩
    obtain ⟨b, hb, hab⟩ := h.exists_of_mem_left ha
    exact ⟨b, hb, hid a b hab, (hneeds a b hab).symm ▸ ht⟩

theorem needs_of_reranked (h : List.Forall₂ WorkItem.Reranked l.items l'.items) :
    l'.Needs = l.Needs :=
  needs_congr h (fun _ _ => id_of_reranked) fun _ _ hab => hab.2.needs

theorem Chain.congr (h : l'.Needs = l.Needs) {n : Nat} (hc : l.Chain n s) : l'.Chain n s := by
  induction hc with
  | nil s => exact .nil s
  | cons hn _ ih => exact .cons (h ▸ hn) ih

theorem rankable_of_reranked (h : List.Forall₂ WorkItem.Reranked l.items l'.items)
    (hr : l.Rankable) : l'.Rankable := by
  have hids : l'.ids = l.ids := ids_of_reranked h
  constructor
  · intro b hb t ht
    obtain ⟨a, ha, hab⟩ := h.exists_of_mem_right hb
    exact hids.symm ▸ hr.complete a ha t (hab.2.needs ▸ ht)
  · intro id
    rw [needs_of_reranked h]
    exact hr.acyclic id

theorem rankable_reranked_iff (h : List.Forall₂ WorkItem.Reranked l.items l'.items) :
    l'.Rankable ↔ l.Rankable := by
  constructor
  · apply rankable_of_reranked
    exact (h.imp fun _ _ => reranked_symm).flip
  · exact rankable_of_reranked h

/-! ## Cycles -/

theorem Loops.of_needs (h : l.Loops t) (hn : l.Needs s t) : l.Loops s := by
  obtain ⟨u, htu, hu⟩ := h
  exact ⟨u, .head hn htu, hu⟩

theorem Acyclic.not_loops (h : l.Acyclic) : ¬ l.Loops s := fun ⟨t, _, ht⟩ => h t ht

/-- Away from cycles a finite graph can be walked only so far. -/
theorem wellFounded_of_not_loops (l : Siblings α) :
    WellFounded fun s t : {id // id ∈ l.ids ∧ ¬ l.Loops id} => l.Needs t s := by
  have hfin : Finite {id // id ∈ l.ids ∧ ¬ l.Loops id} :=
    (l.ids.finite_toSet.subset fun _ hs => hs.1).to_subtype
  let R : {id // id ∈ l.ids ∧ ¬ l.Loops id} → {id // id ∈ l.ids ∧ ¬ l.Loops id} → Prop :=
    fun s t => TransGen l.Needs t s
  have htrans : IsTrans _ R := ⟨fun _ _ _ hts hut => hut.trans hts⟩
  have hirrefl : Std.Irrefl R := ⟨fun s hs => s.2.2 ⟨s, .refl, hs⟩⟩
  exact Subrelation.wf (fun hn => TransGen.single hn) (Finite.wellFounded_of_trans_of_irrefl R)

/-- The ranks decrease along each dependency. -/
theorem Ranked.rank_lt (h : l.Ranked) (hn : l.Needs s t) :
    ∃ a ∈ l.items, ∃ b ∈ l.items, WorkItem.id a = s ∧ WorkItem.id b = t ∧
      (item b).rank < (item a).rank := by
  obtain ⟨a, ha, hs, ht⟩ := hn
  obtain ⟨b, hb, hid, hlt⟩ := h.below a ha t ht
  exact ⟨a, ha, b, hb, hs, hid, hlt⟩

theorem Ranked.complete (h : l.Ranked) : l.Complete := by
  intro a ha t ht
  obtain ⟨b, hb, hid, -⟩ := h.below a ha t ht
  exact mem_ids.2 ⟨b, hb, hid⟩

theorem Ranked.rank_lt_of_transGen (h : l.Ranked) (hp : TransGen l.Needs s t) :
    ∃ a ∈ l.items, ∃ b ∈ l.items, WorkItem.id a = s ∧ WorkItem.id b = t ∧
      (item b).rank < (item a).rank := by
  induction hp with
  | single hn => exact h.rank_lt hn
  | tail _ hn ih =>
    obtain ⟨a, ha, b, hb, hs, hid, hlt⟩ := ih
    obtain ⟨b', hb', c, hc, hid', ht, hlt'⟩ := h.rank_lt hn
    cases eq_of_id_eq h.nodup hb hb' (hid.trans hid'.symm)
    exact ⟨a, ha, c, hc, hs, ht, Int.lt_trans hlt' hlt⟩

theorem Ranked.acyclic (h : l.Ranked) : l.Acyclic := by
  intro id hcycle
  obtain ⟨a, ha, b, hb, hs, hid, hlt⟩ := h.rank_lt_of_transGen hcycle
  cases eq_of_id_eq h.nodup ha hb (hs.trans hid.symm)
  exact Int.lt_irrefl _ hlt

/-- No chain below an item is longer than its rank. -/
theorem Ranked.chain_le (h : l.Ranked) {n : Nat} {a : α} (ha : a ∈ l.items)
    (hc : l.Chain n (WorkItem.id a)) : (n : Int) ≤ (item a).rank := by
  generalize hs : WorkItem.id a = s at hc
  induction hc generalizing a with
  | nil => exact h.rank_nonneg a ha
  | cons hn _ ih =>
    obtain ⟨a', ha', b, hb, hs', hid, hlt⟩ := h.rank_lt hn
    cases eq_of_id_eq h.nodup ha ha' (hs.trans hs'.symm)
    have := ih hb hid
    omega

end RankRunner.Siblings
