import RankRunner.Proofs.Siblings.Fresh
import RankRunner.Sequence

/-! # Ranked lists

A list is ranked when all dependencies are resolved and lead to siblings of a lower rank. Ranking
a fresh list makes it ranked unless there is a fault, and changes nothing but the ranks and the
marks of the items and of their dependencies (`sequence_ranked`, `sequence_reranked`). While items
are being ranked the invariant is `Ranking`, which `settle` preserves. -/

namespace RankRunner

namespace Item

/-- Only the rank, the mark and the marks of the dependencies differ. -/
structure Reranked (i j : Item) : Prop where
  eq : j = { i with deps := j.deps, rank := j.rank, sequenced := j.sequenced }
  needs : j.needs = i.needs

theorem Reranked.refl (i : Item) : Reranked i i := ⟨rfl, rfl⟩

theorem Reranked.id (h : Reranked i j) : j.id = i.id := by rw [h.eq]

theorem Reranked.unstamped (h : Reranked i j) (hi : i.Unstamped) : j.Unstamped := by
  rw [h.eq]
  exact ⟨hi.start, hi.stop⟩

theorem Reranked.symm (h : Reranked i j) : Reranked j i := by
  refine ⟨?_, h.needs.symm⟩
  rw [h.eq]

theorem Reranked.trans (h : Reranked i j) (h' : Reranked j k) : Reranked i k := by
  refine ⟨?_, h'.needs.trans h.needs⟩
  rw [h'.eq, h.eq]

variable {i top : Item}

theorem dry_iff : i.dry = true ↔ ∀ d ∈ i.deps, d.resolved = true := List.all_eq_true

@[simp] theorem resolve_id : (resolve top i).id = i.id := rfl

@[simp] theorem resolve_sequenced : (resolve top i).sequenced = i.sequenced := rfl

theorem target_resolve (id : String) (d : Dependency) : (d.resolve id).target = d.target := by
  unfold Dependency.resolve
  split <;> rfl

theorem resolve_needs : (resolve top i).needs = i.needs := by
  simp [needs, resolve, target_resolve]

theorem reranked_resolve : Reranked i (resolve top i) := ⟨rfl, resolve_needs⟩

theorem rank_le_resolve : i.rank ≤ (resolve top i).rank := by
  simp only [resolve]
  split
  · exact Int.le_max_left ..
  · exact Int.le_refl _

theorem resolve_rank_of_dry (h : i.dry = true) : (resolve top i).rank = i.rank := by
  have : i.deps.any (·.awaits top.id) = false := by
    rw [List.any_eq_false]
    intro d hd
    simp [Dependency.awaits, List.all_eq_true.1 h d hd]
  simp [resolve, this]

theorem resolve_dry (h : i.dry = true) : (resolve top i).dry = true := by
  simp only [dry, resolve, List.all_map, List.all_eq_true, Function.comp] at h ⊢
  intro d hd
  unfold Dependency.resolve
  split
  · rfl
  · exact h d hd

/-- An item keeps its rank, or is moved right below the item that it waited for. -/
theorem resolve_rank_cases (i top : Item) : (resolve top i).rank = i.rank ∨
    top.id ∈ i.needs ∧ (resolve top i).rank = top.rank + 1 := by
  simp only [resolve]
  split
  · next hany =>
    obtain ⟨d, hd, hd'⟩ := List.any_eq_true.1 hany
    have htarget : d.target = top.id := by
      simp only [Dependency.awaits, Bool.and_eq_true, beq_iff_eq] at hd'
      exact hd'.2
    rcases Int.le_total i.rank (top.rank + 1) with hle | hle
    · exact .inr ⟨List.mem_map.2 ⟨d, hd, htarget⟩, Int.max_eq_right hle⟩
    · exact .inl (Int.max_eq_left hle)
  · exact .inl rfl

/-- A dependency that is resolved now was resolved before, or leads to `top`, below which the item
has been moved. -/
theorem resolved_of_mem_resolve {d : Dependency} (hd : d ∈ (resolve top i).deps)
    (h : d.resolved = true) : (∃ d₀ ∈ i.deps, d₀.resolved = true ∧ d₀.target = d.target) ∨
      d.target = top.id ∧ top.rank < (resolve top i).rank := by
  obtain ⟨d₀, hd₀, rfl⟩ := List.mem_map.1 hd
  cases hr : d₀.resolved with
  | true => exact .inl ⟨d₀, hd₀, hr, (target_resolve ..).symm⟩
  | false =>
    refine .inr ?_
    unfold Dependency.resolve at h ⊢
    split at h
    · next ht =>
      have hany : i.deps.any (·.awaits top.id) = true :=
        List.any_eq_true.2 ⟨d₀, hd₀, by simp [Dependency.awaits, hr, ht]⟩
      refine ⟨by simp [ht], ?_⟩
      simp only [resolve, hany, if_true]
      omega
    · rw [hr] at h; cases h

end Item

/-- A work item that differs in its item only, and there only as ranking changes it. -/
def WorkItem.Reranked [WorkItem α] (a b : α) : Prop :=
  b = WorkItem.setItem (WorkItem.item b) a ∧ (WorkItem.item a).Reranked (WorkItem.item b)

namespace Siblings

open WorkItem (item)

variable {α : Type} [WorkItem α] {l : Siblings α}

theorem reranked_refl (a : α) : WorkItem.Reranked a a :=
  ⟨(WorkItem.setItem_item a).symm, .refl _⟩

theorem reranked_symm {a b : α} (h : WorkItem.Reranked a b) : WorkItem.Reranked b a := by
  refine ⟨?_, h.2.symm⟩
  rw [h.1, WorkItem.setItem_setItem, WorkItem.setItem_item]

theorem reranked_trans {a b c : α} (h : WorkItem.Reranked a b) (h' : WorkItem.Reranked b c) :
    WorkItem.Reranked a c := by
  refine ⟨?_, h.2.trans h'.2⟩
  rw [h'.1, h.1, WorkItem.setItem_setItem, WorkItem.item_setItem]

theorem reranked_update {f : Item → Item} {a : α} (h : (item a).Reranked (f (item a))) :
    WorkItem.Reranked a (WorkItem.update f a) := by
  refine ⟨?_, by simpa using h⟩
  simp [WorkItem.update, WorkItem.item_setItem]

structure Ranked (l : Siblings α) : Prop where
  nodup : l.ids.Nodup
  maxRank_nonneg : 0 ≤ l.maxRank
  rank_nonneg : ∀ a ∈ l.items, 0 ≤ (item a).rank
  rank_le : ∀ a ∈ l.items, (item a).rank ≤ l.maxRank
  resolved : ∀ a ∈ l.items, ∀ d ∈ (item a).deps, d.resolved = true
  below : ∀ a ∈ l.items, ∀ t ∈ (item a).needs,
    ∃ b ∈ l.items, WorkItem.id b = t ∧ (item b).rank < (item a).rank

/-- The invariant of ranking: what has a rank waits for nothing, and a resolved dependency leads
to an item that has a rank, and a lower one. -/
structure Ranking (l : Siblings α) : Prop where
  nodup : l.ids.Nodup
  maxRank_nonneg : 0 ≤ l.maxRank
  rank_nonneg : ∀ a ∈ l.items, 0 ≤ (item a).rank
  settled : ∀ a ∈ l.items, (item a).sequenced = true →
    (item a).dry = true ∧ (item a).rank ≤ l.maxRank
  below : ∀ a ∈ l.items, ∀ d ∈ (item a).deps, d.resolved = true →
    ∃ b ∈ l.items, (item b).sequenced = true ∧ WorkItem.id b = d.target ∧
      (item b).rank < (item a).rank

/-- The item that ranking makes of the one at a place. -/
def settledAt (pos : Nat) (top : Item) (p : Nat) (a : α) : α :=
  WorkItem.update (Item.resolve top)
    (if pos = p then WorkItem.update ({ · with sequenced := true }) a else a)

theorem settle_getElem? (l : Siblings α) (pos : Nat) (top : Item) (p : Nat) :
    (l.settle pos top).items[p]? = (l.items[p]?).map (settledAt pos top p) := by
  simp only [settle, List.getElem?_map, List.getElem?_modify]
  cases l.items[p]? <;> simp [settledAt]

theorem mem_settle {pos : Nat} {top : Item} {b : α} :
    b ∈ (l.settle pos top).items ↔
      ∃ p a, l.items[p]? = some a ∧ settledAt pos top p a = b := by
  simp only [List.mem_iff_getElem?, settle_getElem?, Option.map_eq_some_iff]

theorem item_settledAt (pos : Nat) (top : Item) (p : Nat) (a : α) :
    item (settledAt pos top p a) =
      Item.resolve top (if pos = p then { item a with sequenced := true } else item a) := by
  rw [settledAt, WorkItem.item_update]
  congr 1
  split <;> simp

theorem settledAt_reranked (pos : Nat) (top : Item) (p : Nat) (a : α) :
    WorkItem.Reranked a (settledAt pos top p a) := by
  unfold settledAt
  refine reranked_trans ?_ (reranked_update Item.reranked_resolve)
  split
  · exact reranked_update ⟨rfl, rfl⟩
  · exact reranked_refl a

theorem id_of_reranked {a b : α} (h : WorkItem.Reranked a b) : WorkItem.id b = WorkItem.id a := by
  exact h.2.id

theorem ids_of_reranked {as bs : List α} (h : List.Forall₂ WorkItem.Reranked as bs) :
    bs.map WorkItem.id = as.map WorkItem.id := by
  induction h with
  | nil => rfl
  | cons h _ ih => rw [List.map_cons, List.map_cons, ih, id_of_reranked h]

theorem settle_reranked (l : Siblings α) (pos : Nat) (top : Item) :
    List.Forall₂ WorkItem.Reranked l.items (l.settle pos top).items := by
  refine List.forall₂_iff_get.2 ⟨(settle_length ..).symm, fun p h h' => ?_⟩
  have := settle_getElem? l pos top p
  simp only [List.getElem?_eq_getElem h, List.getElem?_eq_getElem h', Option.map_some,
    Option.some.injEq] at this
  simpa [this] using settledAt_reranked pos top p _

theorem item_settledAt_of_dry (pos : Nat) (top : Item) (p : Nat) {a : α}
    (h : (item a).dry = true) :
    (item (settledAt pos top p a)).rank = (item a).rank ∧
      (item (settledAt pos top p a)).dry = true := by
  rw [item_settledAt]
  split
  · exact ⟨Item.resolve_rank_of_dry (i := { item a with sequenced := true }) h,
      Item.resolve_dry (i := { item a with sequenced := true }) h⟩
  · exact ⟨Item.resolve_rank_of_dry h, Item.resolve_dry h⟩

theorem rank_le_settledAt {pos p : Nat} {top : Item} {a : α} :
    (item a).rank ≤ (item (settledAt pos top p a)).rank := by
  rw [item_settledAt]
  split
  · exact Item.rank_le_resolve (i := { item a with sequenced := true })
  · exact Item.rank_le_resolve

/-- The item that is settled keeps its rank, and so do those that were settled before. -/
theorem Ranking.settle_keeps (h : l.Ranking) {pos : Nat} {a : α} (ha : l.items[pos]? = some a)
    (hdry : (item a).dry = true) {b : α} (hb : b ∈ l.items)
    (hs : (item b).sequenced = true ∨ b = a) :
    ∃ b' ∈ (l.settle pos (item a)).items, (item b').rank = (item b).rank ∧
      WorkItem.id b' = WorkItem.id b ∧ (item b').sequenced = true := by
  obtain ⟨p, hp, hpos⟩ : ∃ p, l.items[p]? = some b ∧ (b = a → p = pos) := by
    by_cases hba : b = a
    · exact ⟨pos, hba ▸ ha, fun _ => rfl⟩
    · obtain ⟨p, hp⟩ := List.mem_iff_getElem?.1 hb
      exact ⟨p, hp, fun h => (hba h).elim⟩
  refine ⟨settledAt pos (item a) p b, mem_settle.2 ⟨p, b, hp, rfl⟩, ?_,
    id_of_reranked (settledAt_reranked ..), ?_⟩
  · refine (item_settledAt_of_dry _ _ _ ?_).1
    rcases hs with hs | rfl
    · exact (h.settled b hb hs).1
    · exact hdry
  · rw [item_settledAt, Item.resolve_sequenced]
    split
    · rfl
    · next hne =>
      rcases hs with hs | hs
      · exact hs
      · exact (hne (hpos hs).symm).elim

theorem deps_settledAt (pos : Nat) (top : Item) (p : Nat) (a : α) :
    (item (settledAt pos top p a)).deps = (Item.resolve top (item a)).deps := by
  rw [item_settledAt]
  split <;> rfl

theorem rank_settledAt (pos : Nat) (top : Item) (p : Nat) (a : α) :
    (item (settledAt pos top p a)).rank = (Item.resolve top (item a)).rank := by
  rw [item_settledAt]
  split <;> rfl

/-- One step of ranking keeps the invariant. -/
theorem Ranking.settle (h : l.Ranking) {pos : Nat} {a : α} (ha : l.items[pos]? = some a)
    (hdry : (item a).dry = true) : (l.settle pos (item a)).Ranking := by
  constructor
  · rw [ids, ids_of_reranked (settle_reranked ..)]
    exact h.nodup
  · exact Int.le_trans h.maxRank_nonneg (Int.le_max_left ..)
  · rintro b' hb'
    obtain ⟨p, b, hb, rfl⟩ := mem_settle.1 hb'
    exact Int.le_trans (h.rank_nonneg b (List.mem_of_getElem? hb)) rank_le_settledAt
  · rintro b' hb' hs
    obtain ⟨p, b, hb, rfl⟩ := mem_settle.1 hb'
    have hb' := List.mem_of_getElem? hb
    by_cases hp : pos = p
    · subst hp
      cases ha.symm.trans hb
      obtain ⟨hr, hd⟩ := item_settledAt_of_dry pos (item a) pos hdry
      exact ⟨hd, hr ▸ Int.le_max_right ..⟩
    · have hs : (item b).sequenced = true := by
        rwa [item_settledAt, if_neg hp, Item.resolve_sequenced] at hs
      obtain ⟨hd, hle⟩ := h.settled b hb' hs
      obtain ⟨hr, hd⟩ := item_settledAt_of_dry pos (item a) p hd
      exact ⟨hd, hr ▸ Int.le_trans hle (Int.le_max_left ..)⟩
  · rintro b' hb' d hd hres
    obtain ⟨p, b, hb, rfl⟩ := mem_settle.1 hb'
    have hb := List.mem_of_getElem? hb
    rw [deps_settledAt] at hd
    rw [rank_settledAt]
    rcases Item.resolved_of_mem_resolve hd hres with ⟨d₀, hd₀, hr₀, ht⟩ | ⟨ht, hlt⟩
    · obtain ⟨c, hc, hs, hid, hlt⟩ := h.below b hb d₀ hd₀ hr₀
      obtain ⟨c', hc', hr, hid', hs'⟩ := h.settle_keeps ha hdry hc (.inl hs)
      exact ⟨c', hc', hs', hid'.trans (hid.trans ht),
        hr ▸ Int.lt_of_lt_of_le hlt Item.rank_le_resolve⟩
    · obtain ⟨c', hc', hr, hid', hs'⟩ :=
        h.settle_keeps ha hdry (List.mem_of_getElem? ha) (.inr rfl)
      exact ⟨c', hc', hs', hid'.trans ht.symm, hr ▸ hlt⟩

theorem Ranking.settleAll (h : l.Ranking) (n : Nat) : (Siblings.settleAll n l).Ranking := by
  induction n generalizing l with
  | zero => exact h
  | succ n ih =>
    unfold Siblings.settleAll
    split
    · exact h
    · next pos hpos =>
      split
      · exact h
      · next a ha =>
        obtain ⟨hlt, hp, _⟩ := List.findIdx?_eq_some_iff_getElem.1 hpos
        obtain ⟨_, rfl⟩ := List.getElem?_eq_some_iff.1 ha
        simp only [Bool.and_eq_true] at hp
        exact ih (h.settle ha hp.2)

theorem settleAll_reranked (n : Nat) (l : Siblings α) :
    List.Forall₂ WorkItem.Reranked l.items (settleAll n l).items ∧
      (settleAll n l).outstanding = l.outstanding := by
  induction n generalizing l with
  | zero => exact ⟨List.forall₂_same.2 fun a _ => reranked_refl a, rfl⟩
  | succ n ih =>
    unfold settleAll
    split
    · exact ⟨List.forall₂_same.2 fun a _ => reranked_refl a, rfl⟩
    · next pos _ =>
      split
      · exact ⟨List.forall₂_same.2 fun a _ => reranked_refl a, rfl⟩
      · next a _ =>
        obtain ⟨hf, ho⟩ := ih (l.settle pos (item a))
        refine ⟨((settle_reranked l pos (item a)).comp hf).imp ?_, ho⟩
        rintro _ _ ⟨_, h, h'⟩
        exact reranked_trans h h'

/-- Before any item is ranked, no dependency is resolved. -/
theorem Unranked.ranking (h : l.Unranked) : Ranking { l with maxRank := 0 } := by
  refine ⟨h.nodup, Int.le_refl 0, fun a ha => ?_, fun a ha hs => ?_, fun a ha d hd hr => ?_⟩
  · exact h.rank a ha ▸ Int.le_refl 0
  · rw [h.sequenced a ha] at hs
    cases hs
  · rw [h.unresolved a ha d hd] at hr
    cases hr

theorem sequence_reranked (l : Siblings α) :
    List.Forall₂ WorkItem.Reranked l.items l.sequence.1.items ∧
      l.sequence.1.outstanding = l.outstanding :=
  settleAll_reranked _ { l with maxRank := 0 }

/-- Ranking a list for the first time makes it ranked unless there is a fault. -/
theorem Unranked.sequence_ranked (h : l.Unranked) (hseq : l.sequence.2 = none) :
    l.sequence.1.Ranked := by
  have hr : l.sequence.1.Ranking := h.ranking.settleAll _
  have hs := (sequence_eq_none_iff l).1 hseq
  have hdry : ∀ a ∈ l.sequence.1.items, ∀ d ∈ (item a).deps, d.resolved = true := fun a ha =>
    List.all_eq_true.1 (hr.settled a ha (hs a ha)).1
  refine ⟨hr.nodup, hr.maxRank_nonneg, hr.rank_nonneg,
    fun a ha => (hr.settled a ha (hs a ha)).2, hdry, ?_⟩
  intro a ha t ht
  obtain ⟨d, hd, rfl⟩ := List.mem_map.1 ht
  obtain ⟨b, hb, _, hid, hlt⟩ := hr.below a ha d hd (hdry a ha d hd)
  exact ⟨b, hb, hid, hlt⟩

theorem sequence_ranked {P : α → Prop} (h : l.Fresh P) (hP : ∀ a, P a → (item a).Fresh)
    (hseq : l.sequence.2 = none) : l.sequence.1.Ranked :=
  (h.unranked hP).sequence_ranked hseq

theorem sequence_getElem? {p : Nat} {b : α} (hb : l.sequence.1.items[p]? = some b) :
    ∃ a, l.items[p]? = some a ∧ WorkItem.Reranked a b :=
  (sequence_reranked l).1.exists_of_getElem? hb

end Siblings

/-- Neither scheduled nor started. -/
structure Case.Idle (c : Case) : Prop where
  status : c.status = .success
  notRun : c.notRun = false
  pid : c.pid = none

theorem Siblings.Fresh.idle {l : Siblings Case} (h : l.Fresh Case.Fresh) :
    ∀ c ∈ l.sequence.1.items, c.Idle := by
  intro c hc
  obtain ⟨p, hp⟩ := List.mem_iff_getElem?.1 hc
  obtain ⟨a, ha, heq, hitem⟩ := sequence_getElem? hp
  have hf := h.items a (List.mem_of_getElem? ha)
  have hi := hitem.eq
  simp only [Case.workItem_item] at hi
  refine ⟨?_, ?_, ?_⟩
  · rw [hi]; exact hf.item.status
  · rw [hi]; exact hf.item.notRun
  · rw [heq]; exact hf.pid

end RankRunner
