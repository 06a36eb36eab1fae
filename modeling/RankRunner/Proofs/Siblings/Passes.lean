import RankRunner.Proofs.Schedule.Upto

/-! # What passes

Which siblings pass is defined by recursion over their dependencies: a sibling passes if it is good
in itself and all it depends on pass. A schedule follows this definition as long as an item that
it has passed succeeded exactly if it passes (`satisfiesAll_iff_ready`). -/

namespace RankRunner.Siblings

open WorkItem (item)

variable {α : Type} [WorkItem α] {good good' : α → Prop} {l l' l₀ : Siblings α} {a b : α}

inductive Passes (good : α → Prop) (l : Siblings α) : String → Prop
  | intro (a : α) (mem : a ∈ l.items) (isGood : good a)
    (needs : ∀ t ∈ (item a).needs, Passes good l t) : Passes good l (WorkItem.id a)

def Ready (good : α → Prop) (l : Siblings α) (a : α) : Prop :=
  ∀ t ∈ (item a).needs, l.Passes good t

theorem passes_iff (h : l.ids.Nodup) (ha : a ∈ l.items) :
    l.Passes good (WorkItem.id a) ↔ good a ∧ l.Ready good a := by
  constructor
  · intro hp
    generalize hid : WorkItem.id a = id at hp
    obtain ⟨b, hb, hgood, hneeds⟩ := hp
    cases List.inj_on_of_nodup_map h ha hb hid
    exact ⟨hgood, hneeds⟩
  · rintro ⟨hgood, hneeds⟩
    exact .intro a ha hgood hneeds

/-- What passes depends on the dependencies and on what is good only. -/
theorem Passes.congr {R : α → α → Prop} (hl : List.Forall₂ R l.items l'.items)
    (hid : ∀ a b, R a b → WorkItem.id b = WorkItem.id a)
    (hneeds : ∀ a b, R a b → (item b).needs = (item a).needs)
    (hgood : ∀ a b, R a b → good a → good' b) {t : String} (h : l.Passes good t) :
    l'.Passes good' t := by
  induction h with
  | intro a ha hg _ ih =>
    obtain ⟨b, hb, hab⟩ := hl.exists_of_mem_left ha
    rw [← hid a b hab]
    refine .intro b hb (hgood a b hab hg) fun t ht => ih t ?_
    rwa [← hneeds a b hab]

theorem passes_congr {R : α → α → Prop} (hl : List.Forall₂ R l.items l'.items)
    (hid : ∀ a b, R a b → WorkItem.id b = WorkItem.id a)
    (hneeds : ∀ a b, R a b → (item b).needs = (item a).needs)
    (hgood : ∀ a b, R a b → (good a ↔ good' b)) {t : String} :
    l.Passes good t ↔ l'.Passes good' t :=
  ⟨.congr hl hid hneeds fun a b hab => (hgood a b hab).1,
    .congr (R := fun b a => R a b) hl.flip (fun b a hab => (hid a b hab).symm)
      (fun b a hab => (hneeds a b hab).symm) fun b a hab => (hgood a b hab).2⟩

theorem ready_congr {R : α → α → Prop} (hl : List.Forall₂ R l.items l'.items)
    (hid : ∀ a b, R a b → WorkItem.id b = WorkItem.id a)
    (hneeds : ∀ a b, R a b → (item b).needs = (item a).needs)
    (hgood : ∀ a b, R a b → (good a ↔ good' b)) (hab : R a b) :
    l.Ready good a ↔ l'.Ready good' b := by
  unfold Ready
  rw [hneeds a b hab]
  exact forall₂_congr fun t _ => passes_congr hl hid hneeds hgood

/-- An item is due exactly if it is ready, when what has been passed succeeded exactly if it
passes. -/
theorem Upto.satisfiesAll_iff_ready {F G : α → α → Prop} {r : Int} {k : Nat} (hr : l₀.Ranked)
    (h : l₀.Upto l F G r k) (hF : ∀ a₀ a, F a₀ a → WorkItem.id a = WorkItem.id a₀)
    (hG : ∀ a₀ a, G a₀ a → WorkItem.id a = WorkItem.id a₀)
    (hpassed : ∀ a₀ ∈ l₀.items, ∀ a, (item a₀).rank < r → F a₀ a →
      ((item a).succeeded = true ↔ l₀.Passes good (WorkItem.id a₀)))
    (ha : a ∈ l₀.items) (hrank : (item a).rank = r) :
    l.satisfiesAll (item a) = true ↔ l₀.Ready good a := by
  rw [satisfiesAll_iff l (hr.resolved a ha)]
  refine forall₂_congr fun t ht => ?_
  obtain ⟨b₀, hb₀, b, _, rfl, hlt, hb, hget⟩ := h.needs_past hr hF hG ha hrank ht
  rw [← hpassed b₀ hb₀ b hlt hb, hget]
  simp

/-- The items that a schedule has visited, each once. -/
structure Visited (l₀ : Siblings α) (done : List α) (r : Int) (k : Nat) : Prop where
  nodup : (done.map WorkItem.id).Nodup
  past : ∀ a ∈ done, ∃ p, l₀.items[p]? = some a ∧ Past r k p a

namespace Visited

variable {done : List α} {r : Int} {k : Nat}

theorem nil : Visited l₀ [] r k := ⟨List.nodup_nil, fun _ ha => absurd ha List.not_mem_nil⟩

theorem go_by (h : Visited l₀ done r k) : Visited l₀ done r (k + 1) := by
  refine ⟨h.nodup, fun a ha => ?_⟩
  obtain ⟨p, hp, hpast⟩ := h.past a ha
  exact ⟨p, hp, by unfold Past at hpast ⊢; omega⟩

theorem next (h : Visited l₀ done r k) : Visited l₀ done (r + 1) 0 := by
  refine ⟨h.nodup, fun a ha => ?_⟩
  obtain ⟨p, hp, hpast⟩ := h.past a ha
  exact ⟨p, hp, by unfold Past at hpast ⊢; omega⟩

theorem id_ne (hn : l₀.ids.Nodup) (h : Visited l₀ done r k) (ha : l₀.items[k]? = some a)
    (hrank : (item a).rank = r) {b : α} (hb : b ∈ done) : WorkItem.id b ≠ WorkItem.id a := by
  obtain ⟨p, hp, hpast⟩ := h.past b hb
  have hpk : p ≠ k := by
    rintro rfl
    cases ha.symm.trans hp
    unfold Past at hpast
    omega
  exact id_ne_of_ne hn hp ha hpk

theorem snoc (hn : l₀.ids.Nodup) (h : Visited l₀ done r k) (ha : l₀.items[k]? = some a)
    (hrank : (item a).rank = r) : Visited l₀ (done ++ [a]) r (k + 1) := by
  refine ⟨?_, fun b hb => ?_⟩
  · rw [List.map_append, List.nodup_append]
    refine ⟨h.nodup, List.nodup_singleton _, fun i hi j hj => ?_⟩
    obtain ⟨b, hb, rfl⟩ := List.mem_map.1 hi
    rw [List.map_singleton, List.mem_singleton] at hj
    exact hj ▸ h.id_ne hn ha hrank hb
  · rcases List.mem_append.1 hb with hb | hb
    · exact h.go_by.past b hb
    · rw [List.mem_singleton.1 hb]
      exact ⟨k, ha, .inr ⟨hrank, Nat.lt_succ_self k⟩⟩

/-- The visited items are those of the list with a property that exactly they have. -/
theorem perm_filter (h : Visited l₀ done r k) {p : α → Bool} (hn : l₀.ids.Nodup)
    (hp : ∀ a ∈ l₀.items, p a = true ↔ a ∈ done) : done.Perm (l₀.items.filter p) := by
  refine (List.perm_ext_iff_of_nodup h.nodup.of_map (hn.of_map.filter _)).2 fun a => ?_
  rw [List.mem_filter]
  refine ⟨fun ha => ?_, fun ⟨ha, hpa⟩ => (hp a ha).1 hpa⟩
  obtain ⟨q, hq, _⟩ := h.past a ha
  have hmem := List.mem_of_getElem? hq
  exact ⟨hmem, (hp a hmem).2 ha⟩

end Visited

end RankRunner.Siblings
