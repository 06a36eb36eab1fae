import RankRunner.Proofs.Siblings.Graph
import RankRunner.Proofs.Siblings.Groups

/-! # Layers

Ranking a list for the first time succeeds exactly when its graph is complete and without a cycle,
and then puts each item right below the lowest of the siblings that it depends on
(`sequencing_layers`). `Ranking` bounds the ranks from below, in that what is depended on has a
lower one. `Tight` bounds them from above: a rank is never larger than a dependency asks for. The
second half of `Tight` is that no item waits for a sibling that has been ranked, so an item that is
left over at the end waits for one that is left over too. -/

namespace RankRunner.Siblings

open WorkItem (item)

variable {α : Type} [WorkItem α] {l l' : Siblings α}

/-! ## The loop

`settleAll` has a bound on its rounds, which is never reached: each round ranks one item. -/

/-- `settle` for as long as there is an item to be ranked next. -/
inductive Settles : Siblings α → Siblings α → Prop
  | done {l : Siblings α} : top? l.items = none → Settles l l
  | step {l l' : Siblings α} {pos : Nat} {a : α} : top? l.items = some pos →
    l.items[pos]? = some a → Settles (l.settle pos (item a)) l' → Settles l l'

theorem top?_eq_some {pos : Nat} (h : top? l.items = some pos) :
    ∃ a, l.items[pos]? = some a ∧ (item a).sequenced = false ∧ (item a).dry = true := by
  obtain ⟨hlt, hp, -⟩ := List.findIdx?_eq_some_iff_getElem.1 h
  simp only [Bool.and_eq_true, Bool.not_eq_true'] at hp
  exact ⟨_, List.getElem?_eq_getElem hlt, hp⟩

/-- A round leaves one item less without a rank. -/
theorem stuck_settle {pos : Nat} {a : α} (ha : l.items[pos]? = some a)
    (hs : (item a).sequenced = false) :
    (l.settle pos (item a)).stuck.length + 1 = l.stuck.length := by
  let f : α → α := WorkItem.update ({ · with sequenced := true })
  have hcount : (l.settle pos (item a)).stuck.length =
      (l.items.modify pos f).countP fun b => !(item b).sequenced := by
    rw [stuck, ← List.countP_eq_length_filter, settle, List.countP_map]
    apply List.countP_congr
    intro b _
    simp
  rw [hcount, (List.modify_perm_cons_eraseIdx ha f).countP_eq, stuck,
    ← List.countP_eq_length_filter, (List.perm_cons_eraseIdx ha).countP_eq]
  simp [f, hs]

theorem settleAll_settles {n : Nat} (h : l.stuck.length ≤ n) : Settles l (settleAll n l) := by
  induction n generalizing l with
  | zero =>
    have hstuck : l.stuck = [] := List.eq_nil_of_length_eq_zero (Nat.le_zero.1 h)
    apply Settles.done
    apply List.findIdx?_eq_none_iff.2
    intro a ha
    have := List.filter_eq_nil_iff.1 hstuck a ha
    simp only [Bool.not_eq_true', Bool.not_eq_false] at this
    simp [this]
  | succ n ih =>
    unfold settleAll
    cases htop : top? l.items with
    | none => exact .done htop
    | some pos =>
      obtain ⟨a, ha, hs, -⟩ := top?_eq_some htop
      have hlt := stuck_settle ha hs
      simp only [ha]
      exact .step htop ha (ih (by omega))

theorem sequence_settles (l : Siblings α) : Settles { l with maxRank := 0 } l.sequence.1 := by
  apply settleAll_settles
  exact List.length_filter_le ..

theorem Settles.ended (h : Settles l l') : top? l'.items = none := by
  induction h with
  | done hn => exact hn
  | step _ _ _ ih => exact ih

/-! ## No rank is larger than needed -/

structure Tight (l : Siblings α) : Prop where
  attained : ∀ a ∈ l.items, (item a).rank ≠ 0 → ∃ b ∈ l.items, (item b).sequenced = true ∧
    WorkItem.id b ∈ (item a).needs ∧ (item a).rank = (item b).rank + 1
  resolved : ∀ a ∈ l.items, ∀ d ∈ (item a).deps, ∀ b ∈ l.items, (item b).sequenced = true →
    WorkItem.id b = d.target → d.resolved = true
  reached : l.maxRank ≠ 0 → ∃ a ∈ l.items, (item a).sequenced = true ∧
    (item a).rank = l.maxRank

theorem Unranked.tight (h : l.Unranked) : Tight { l with maxRank := 0 } := by
  refine ⟨?_, ?_, fun h => absurd rfl h⟩
  · intro a ha hne
    exact absurd (h.rank a ha) hne
  · intro a _ d _ b hb hs _
    rw [h.sequenced b hb] at hs
    cases hs

section

variable {pos : Nat} {a : α}

/-- What a round ranks has been ranked before, or is the item that the round is about. -/
theorem sequenced_of_settledAt {top : Item} {p : Nat} {b : α} (ha : l.items[pos]? = some a)
    (hb : l.items[p]? = some b) (hs : (item (settledAt pos top p b)).sequenced = true) :
    (item b).sequenced = true ∨ b = a := by
  rw [item_settledAt] at hs
  split at hs
  · next hp =>
    subst hp
    exact .inr (Option.some.inj (hb.symm.trans ha))
  · exact .inl hs

theorem Tight.settle_attained (h : l.Tight) (hr : l.Ranking) (ha : l.items[pos]? = some a)
    (hdry : (item a).dry = true) : ∀ b' ∈ (l.settle pos (item a)).items, (item b').rank ≠ 0 →
      ∃ c' ∈ (l.settle pos (item a)).items, (item c').sequenced = true ∧
        WorkItem.id c' ∈ (item b').needs ∧ (item b').rank = (item c').rank + 1 := by
  intro b' hb' hne
  obtain ⟨p, b, hp, rfl⟩ := mem_settle.1 hb'
  have hb := List.mem_of_getElem? hp
  have hneeds := (settledAt_reranked pos (item a) p b).2.needs
  rw [rank_settledAt] at hne ⊢
  rcases Item.resolve_rank_cases (item b) (item a) with heq | ⟨hmem, heq⟩
  · rw [heq] at hne ⊢
    obtain ⟨c, hc, hs, hmem, hrank⟩ := h.attained b hb hne
    obtain ⟨c', hc', hr', hid', hs'⟩ := hr.settle_keeps ha hdry hc (.inl hs)
    exact ⟨c', hc', hs', hneeds ▸ hid' ▸ hmem, hr' ▸ hrank⟩
  · obtain ⟨a', ha', hr', hid', hs'⟩ :=
      hr.settle_keeps ha hdry (List.mem_of_getElem? ha) (.inr rfl)
    exact ⟨a', ha', hs', hneeds ▸ hid' ▸ hmem, hr' ▸ heq⟩

theorem Tight.settle_resolved (h : l.Tight) (ha : l.items[pos]? = some a) :
    ∀ b' ∈ (l.settle pos (item a)).items, ∀ d ∈ (item b').deps,
      ∀ c' ∈ (l.settle pos (item a)).items, (item c').sequenced = true →
        WorkItem.id c' = d.target → d.resolved = true := by
  intro b' hb' d hd c' hc' hs hid
  obtain ⟨p, b, hp, rfl⟩ := mem_settle.1 hb'
  obtain ⟨q, c, hq, rfl⟩ := mem_settle.1 hc'
  rw [deps_settledAt] at hd
  obtain ⟨d, hd₀, rfl⟩ := List.mem_map.1 hd
  rw [id_of_reranked (settledAt_reranked ..), Item.target_resolve] at hid
  unfold Dependency.resolve
  split
  · rfl
  · next hne =>
    rcases sequenced_of_settledAt ha hq hs with hs | rfl
    · exact h.resolved b (List.mem_of_getElem? hp) d hd₀ c (List.mem_of_getElem? hq) hs hid
    · exact absurd hid.symm hne

theorem Tight.settle_reached (h : l.Tight) (hr : l.Ranking) (ha : l.items[pos]? = some a)
    (hdry : (item a).dry = true) (hne : (l.settle pos (item a)).maxRank ≠ 0) :
    ∃ b' ∈ (l.settle pos (item a)).items, (item b').sequenced = true ∧
      (item b').rank = (l.settle pos (item a)).maxRank := by
  have hmax : (l.settle pos (item a)).maxRank = max l.maxRank (item a).rank := rfl
  rcases Int.le_total l.maxRank (item a).rank with hle | hle
  · rw [hmax, Int.max_eq_right hle]
    obtain ⟨a', ha', hr', -, hs'⟩ :=
      hr.settle_keeps ha hdry (List.mem_of_getElem? ha) (.inr rfl)
    exact ⟨a', ha', hs', hr'⟩
  · rw [hmax, Int.max_eq_left hle] at hne ⊢
    obtain ⟨b, hb, hs, hrank⟩ := h.reached hne
    obtain ⟨b', hb', hr', -, hs'⟩ := hr.settle_keeps ha hdry hb (.inl hs)
    exact ⟨b', hb', hs', hr'.trans hrank⟩

theorem Tight.settle (h : l.Tight) (hr : l.Ranking) (ha : l.items[pos]? = some a)
    (hdry : (item a).dry = true) : (l.settle pos (item a)).Tight :=
  ⟨h.settle_attained hr ha hdry, h.settle_resolved ha, h.settle_reached hr ha hdry⟩

end

theorem Settles.tight (h : Settles l l') (hr : l.Ranking) (ht : l.Tight) : l'.Tight := by
  induction h with
  | done => exact ht
  | step htop ha _ ih =>
    obtain ⟨b, hb, -, hdry⟩ := top?_eq_some htop
    cases ha.symm.trans hb
    exact ih (hr.settle ha hdry) (ht.settle hr ha hdry)

theorem Unranked.sequence_tight (h : l.Unranked) : l.sequence.1.Tight :=
  l.sequence_settles.tight h.ranking h.tight

/-- The sibling named `t` has its rank. -/
def HasRank (l : Siblings α) (t : String) : Prop :=
  ∃ b ∈ l.items, WorkItem.id b = t ∧ (item b).sequenced = true

/-- The item named `s` has no rank, and waits for the sibling named `t`, which has one. As a sibling
gets its rank, all that waits for it is resolved, so that the dependency was declared after that. -/
def Belated (l : Siblings α) (s t : String) : Prop :=
  (∃ a ∈ l.items, WorkItem.id a = s ∧ (item a).sequenced = false ∧ { target := t } ∈ (item a).deps) ∧
    l.HasRank t

theorem Tight.not_belated (ht : l.Tight) (s t : String) : ¬ l.Belated s t := by
  rintro ⟨⟨a, ha, -, -, hd⟩, b, hb, hid, hs⟩
  cases ht.resolved a ha _ hd b hb hs hid

/-- Nothing is left over from which no cycle can be reached: what is left over waits for something
left over, unless its dependency was declared too late or names no sibling. -/
theorem sequenced_of_not_belated (hlate : ∀ s t, ¬ l.Belated s t) (hended : top? l.items = none)
    (hc : ∀ a ∈ l.items, (item a).sequenced = false → ∀ t ∈ (item a).needs, t ∈ l.ids) :
    ∀ a ∈ l.items, ¬ l.Loops (WorkItem.id a) → (item a).sequenced = true := by
  have key (s : {id // id ∈ l.ids ∧ ¬ l.Loops id}) :
      ∀ a ∈ l.items, WorkItem.id a = s → (item a).sequenced = true := by
    induction s using l.wellFounded_of_not_loops.induction with
    | _ s ih =>
      intro a ha hs
      by_contra hleft
      have hleft : (item a).sequenced = false := Bool.eq_false_iff.2 hleft
      have hdry : (item a).dry = true := by
        apply Item.dry_iff.2
        rintro ⟨t, resolved⟩ hd
        have hneeds : l.Needs s t := ⟨a, ha, hs, List.mem_map_of_mem hd⟩
        have hmem := hc a ha hleft t (List.mem_map_of_mem hd)
        have hout : ¬ l.Loops t := fun hloops => s.2.2 (hloops.of_needs hneeds)
        obtain ⟨b, hb, hid⟩ := mem_ids.1 hmem
        have hb' := ih ⟨t, hmem, hout⟩ hneeds b hb hid
        cases resolved with
        | true => rfl
        | false => exact (hlate s t ⟨⟨a, ha, hs, hleft, hd⟩, b, hb, hid, hb'⟩).elim
      have hnot := List.findIdx?_eq_none_iff.1 hended a ha
      simp [hleft, hdry] at hnot
  intro a ha hloops
  exact key ⟨WorkItem.id a, mem_ids.2 ⟨a, ha, rfl⟩, hloops⟩ a ha rfl

theorem Tight.sequenced (ht : l.Tight) (hended : top? l.items = none) (hc : l.Complete) :
    ∀ a ∈ l.items, ¬ l.Loops (WorkItem.id a) → (item a).sequenced = true :=
  sequenced_of_not_belated ht.not_belated hended fun a ha _ => hc a ha

theorem Unranked.sequence_eq_none_iff (h : l.Unranked) :
    l.sequence.2 = none ↔ l.Rankable := by
  have hreranked := (sequence_reranked l).1
  constructor
  · intro hseq
    have hranked := h.sequence_ranked hseq
    exact (rankable_reranked_iff hreranked).1 ⟨hranked.complete, hranked.acyclic⟩
  · intro hr
    apply (Siblings.sequence_eq_none_iff l).2
    have hr' := (rankable_reranked_iff hreranked).2 hr
    intro a ha
    exact h.sequence_tight.sequenced l.sequence_settles.ended hr'.complete a ha
      hr'.acyclic.not_loops

/-! ## What a ranked list looks like -/

/-- The siblings that the dependencies of `i` lead to. -/
def targets (l : Siblings α) (i : Item) : List α := i.deps.filterMap fun d => l.get? d.target

/-- Right below the lowest sibling that `i` depends on, and zero without any. -/
def level (l : Siblings α) (i : Item) : Int :=
  match ((l.targets i).map fun b => (item b).rank).max? with
  | none => 0
  | some r => r + 1

/-- Each dependency leads to the one sibling of that name, each rank is the level below the
dependencies and hence the length of the longest chain, and `maxRank` is the largest rank. -/
structure Layered (l : Siblings α) : Prop where
  sequenced : ∀ a ∈ l.items, (item a).sequenced = true
  resolved : ∀ a ∈ l.items, ∀ d ∈ (item a).deps, d.resolved = true ∧
    ∃ b ∈ l.items, l.get? d.target = some b ∧ WorkItem.id b = d.target ∧
      ∀ c ∈ l.items, WorkItem.id c = d.target → c = b
  rank : ∀ a ∈ l.items, (item a).rank = l.level (item a)
  longest : ∀ a ∈ l.items, ∃ n : Nat, (item a).rank = n ∧
    IsGreatest {n | l.Chain n (WorkItem.id a)} n
  maxRank : l.maxRank = ((l.items.map fun a => (item a).rank).max?).getD 0

section

variable (h : l.Ranked) (ht : l.Tight)
include h

theorem Ranked.mem_targets {i : Item} {b : α} :
    b ∈ l.targets i ↔ b ∈ l.items ∧ WorkItem.id b ∈ i.needs := by
  constructor
  · intro hb
    obtain ⟨d, hd, hget⟩ := List.mem_filterMap.1 hb
    have hid : WorkItem.id b = d.target := by simpa using List.find?_some hget
    exact ⟨List.mem_of_find?_eq_some hget, hid ▸ List.mem_map_of_mem hd⟩
  · rintro ⟨hb, hneeds⟩
    obtain ⟨d, hd, htarget⟩ := List.mem_map.1 hneeds
    exact List.mem_filterMap.2 ⟨d, hd, htarget ▸ get?_of_mem h.nodup hb⟩

theorem Ranked.rank_lt_of_mem_targets {a b : α} (ha : a ∈ l.items)
    (hb : b ∈ l.targets (item a)) : (item b).rank < (item a).rank := by
  obtain ⟨hmem, hneeds⟩ := h.mem_targets.1 hb
  obtain ⟨c, hc, hid, hlt⟩ := h.below a ha _ hneeds
  cases eq_of_id_eq h.nodup hmem hc hid.symm
  exact hlt

include ht

theorem Ranked.rank_eq_level {a : α} (ha : a ∈ l.items) :
    (item a).rank = l.level (item a) := by
  have hattained : (item a).rank ≠ 0 →
      ∃ b ∈ l.targets (item a), (item a).rank = (item b).rank + 1 := by
    intro hne
    obtain ⟨b, hb, -, hneeds, heq⟩ := ht.attained a ha hne
    exact ⟨b, h.mem_targets.2 ⟨hb, hneeds⟩, heq⟩
  unfold level
  cases hmax : ((l.targets (item a)).map fun b => (item b).rank).max? with
  | none =>
    have hnil := List.map_eq_nil_iff.1 (List.max?_eq_none_iff.1 hmax)
    by_contra hne
    obtain ⟨b, hb, -⟩ := hattained hne
    rw [hnil] at hb
    cases hb
  | some r =>
    obtain ⟨hr, hle⟩ := List.max?_eq_some_iff.1 hmax
    obtain ⟨c, hc, rfl⟩ := List.mem_map.1 hr
    have hlt := h.rank_lt_of_mem_targets ha hc
    have hpos := h.rank_nonneg c (h.mem_targets.1 hc).1
    obtain ⟨b, hb, heq⟩ := hattained (by omega)
    have := hle _ (List.mem_map_of_mem hb)
    simp only
    omega

omit h in
/-- Some chain below an item is as long as its rank: follow the dependencies that attain it. -/
theorem Tight.exists_chain (n : Nat) :
    ∀ a ∈ l.items, (item a).rank = n → l.Chain n (WorkItem.id a) := by
  induction n with
  | zero =>
    intro a _ _
    exact .nil _
  | succ n ih =>
    intro a ha hrank
    obtain ⟨b, hb, -, hneeds, heq⟩ := ht.attained a ha (by omega)
    exact .cons ⟨a, ha, rfl, hneeds⟩ (ih b hb (by omega))

theorem Ranked.longest {a : α} (ha : a ∈ l.items) : ∃ n : Nat, (item a).rank = n ∧
    IsGreatest {n | l.Chain n (WorkItem.id a)} n := by
  obtain ⟨n, hn⟩ := Int.eq_ofNat_of_zero_le (h.rank_nonneg a ha)
  refine ⟨n, hn, ht.exists_chain n a ha hn, ?_⟩
  intro m hm
  have := h.chain_le ha hm
  omega

theorem Ranked.maxRank_eq :
    l.maxRank = ((l.items.map fun a => (item a).rank).max?).getD 0 := by
  cases hmax : (l.items.map fun a => (item a).rank).max? with
  | none =>
    have hnil := List.map_eq_nil_iff.1 (List.max?_eq_none_iff.1 hmax)
    by_contra hne
    obtain ⟨a, ha, -⟩ := ht.reached hne
    rw [hnil] at ha
    cases ha
  | some r =>
    obtain ⟨hr, hle⟩ := List.max?_eq_some_iff.1 hmax
    obtain ⟨a, ha, rfl⟩ := List.mem_map.1 hr
    have hbound := h.rank_le a ha
    have hpos := h.rank_nonneg a ha
    by_cases hzero : l.maxRank = 0
    · simp only [Option.getD_some]
      omega
    · obtain ⟨b, hb, -, heq⟩ := ht.reached hzero
      have := hle _ (List.mem_map_of_mem hb)
      simp only [Option.getD_some]
      omega

theorem Ranked.layered (hs : ∀ a ∈ l.items, (item a).sequenced = true) : l.Layered := by
  refine ⟨hs, ?_, fun a ha => h.rank_eq_level ht ha, fun a ha => h.longest ht ha,
    h.maxRank_eq ht⟩
  intro a ha d hd
  obtain ⟨b, hb, hid, -⟩ := h.below a ha d.target (List.mem_map_of_mem hd)
  refine ⟨h.resolved a ha d hd, b, hb, hid ▸ get?_of_mem h.nodup hb, hid, ?_⟩
  intro c hc hid'
  exact eq_of_id_eq h.nodup hc hb (hid'.trans hid.symm)

end

theorem Unranked.sequence_layered (h : l.Unranked) (hseq : l.sequence.2 = none) :
    l.sequence.1.Layered :=
  (h.sequence_ranked hseq).layered h.sequence_tight ((Siblings.sequence_eq_none_iff l).1 hseq)

/-! ## Groups

The cases of a group are ranked among themselves, when the groups have been ranked. -/

theorem Tight.congr (h : l.Tight) (hitems : l'.items.map item = l.items.map item)
    (hmax : l'.maxRank = l.maxRank) : l'.Tight := by
  have hids {a b : α} (hab : item a = item b) : WorkItem.id a = WorkItem.id b :=
    congrArg Item.id hab
  refine ⟨?_, ?_, ?_⟩
  · intro a ha hne
    obtain ⟨a₀, ha₀, haa⟩ := exists_of_items hitems ha
    rw [← haa] at hne ⊢
    obtain ⟨b₀, hb₀, hs, hneeds, hrank⟩ := h.attained a₀ ha₀ hne
    obtain ⟨b, hb, hbb⟩ := exists_of_items hitems.symm hb₀
    exact ⟨b, hb, hbb ▸ hs, hids hbb ▸ hneeds, hbb ▸ hrank⟩
  · intro a ha d hd b hb hs hid
    obtain ⟨a₀, ha₀, haa⟩ := exists_of_items hitems ha
    obtain ⟨b₀, hb₀, hbb⟩ := exists_of_items hitems hb
    exact h.resolved a₀ ha₀ d (haa ▸ hd) b₀ hb₀ (hbb ▸ hs) ((hids hbb).trans hid)
  · intro hne
    rw [hmax] at hne ⊢
    obtain ⟨a₀, ha₀, hs, hrank⟩ := h.reached hne
    obtain ⟨a, ha, haa⟩ := exists_of_items hitems.symm ha₀
    exact ⟨a, ha, haa ▸ hs, haa ▸ hrank⟩

theorem Unranked.sequenceGroups_eq_none_iff {l : Siblings Group} (h : l.Unranked)
    (hcases : ∀ g ∈ l.items, g.cases.Unranked) :
    l.sequenceGroups.2 = none ↔ l.Rankable ∧ ∀ g ∈ l.items, g.cases.Rankable := by
  have hkept := (sequence_reranked l).1
  rw [Siblings.sequenceGroups_eq_none_iff, h.sequence_eq_none_iff]
  apply and_congr_right
  intro _
  constructor
  · intro hseq g hg
    obtain ⟨g', hg', hgg⟩ := hkept.exists_of_mem_left hg
    exact (hcases g hg).sequence_eq_none_iff.1 (Group.cases_of_reranked hgg ▸ hseq g' hg')
  · intro hr g' hg'
    obtain ⟨g, hg, hgg⟩ := hkept.exists_of_mem_right hg'
    exact Group.cases_of_reranked hgg ▸ (hcases g hg).sequence_eq_none_iff.2 (hr g hg)

theorem Unranked.sequenceGroups_tight {l : Siblings Group} (h : l.Unranked)
    (hseq : l.sequenceGroups.2 = none) : l.sequenceGroups.1.Tight := by
  apply h.sequence_tight.congr (sequenceGroups_items l)
  rw [sequenceGroups_of_eq_none hseq]

theorem Unranked.sequenceGroups_layered {l : Siblings Group} (h : l.Unranked)
    (hseq : l.sequenceGroups.2 = none) : l.sequenceGroups.1.Layered := by
  obtain ⟨hnone, -⟩ := Siblings.sequenceGroups_eq_none_iff.1 hseq
  apply (h.sequenceGroups_ranked hseq).1.layered (h.sequenceGroups_tight hseq)
  intro g hg
  obtain ⟨g₀, hg₀, hgg⟩ := exists_of_items (sequenceGroups_items l) hg
  exact hgg ▸ (Siblings.sequence_eq_none_iff l).1 hnone g₀ hg₀

/-- Ranking a list for the first time comes to an end. It succeeds exactly when every dependency
names a sibling and there is no cycle, and then leaves the list in layers, the items being as they
were otherwise. A list of groups is ranked in this way, and so are the cases of each group. -/
theorem sequencing_layers (l : Siblings α) (h : l.Unranked) (gs : Siblings Group)
    (hgs : gs.Unranked) (hcases : ∀ g ∈ gs.items, g.cases.Unranked) :
    (Settles { l with maxRank := 0 } l.sequence.1 ∧
      (l.sequence.2 = none ↔ l.Rankable) ∧
      List.Forall₂ WorkItem.Reranked l.items l.sequence.1.items ∧
      (l.sequence.2 = none → l.sequence.1.Layered)) ∧
    (gs.sequenceGroups.2 = none ↔ gs.Rankable ∧ ∀ g ∈ gs.items, g.cases.Rankable) ∧
    (gs.sequenceGroups.2 = none → gs.sequenceGroups.1.Layered ∧
      List.Forall₂ (fun g g' => g.Prepared g' ∧ g'.cases.Layered) gs.items
        gs.sequenceGroups.1.items) := by
  refine ⟨⟨l.sequence_settles, h.sequence_eq_none_iff, (sequence_reranked l).1,
    h.sequence_layered⟩, hgs.sequenceGroups_eq_none_iff hcases, ?_⟩
  intro hseq
  refine ⟨hgs.sequenceGroups_layered hseq, ?_⟩
  have hprepared := (hgs.sequenceGroups_ranked hseq).2
  apply hprepared.imp_of_mem
  intro g hg g' _ hp
  refine ⟨hp, ?_⟩
  rw [hp.eq]
  exact (hcases g hg).sequence_layered hp.sequenced

/-- Three layers, declared from the last to the first. -/
def stages : Siblings Case where
  items := [{ id := "report", deps := [{ target := "build" }, { target := "test" }] },
    { id := "test", deps := [{ target := "build" }] }, { id := "build" }]

/-- Two groups, the first of which depends on the second. -/
def pipeline : Siblings Group where
  items := [{ id := "deploy", deps := [{ target := "check" }] },
    { id := "check", cases := stages }]

theorem stages_unranked : stages.Unranked := by
  constructor <;> decide

theorem pipeline_unranked : pipeline.Unranked := by
  constructor <;> decide

theorem pipeline_cases_unranked : ∀ g ∈ pipeline.items, g.cases.Unranked := by
  intro g hg
  rcases List.mem_pair.1 hg with rfl | rfl
  · constructor <;> decide
  · exact stages_unranked

theorem sequencing_layers_pipeline :
    (stages.Unranked ∧ pipeline.Unranked ∧ ∀ g ∈ pipeline.items, g.cases.Unranked) ∧
      stages.sequence.1.items.map (·.rank) = [2, 1, 0] ∧
      stages.sequence.1.Layered ∧ pipeline.sequenceGroups.1.Layered := by
  have h := sequencing_layers stages stages_unranked pipeline pipeline_unranked
    pipeline_cases_unranked
  refine ⟨⟨stages_unranked, pipeline_unranked, pipeline_cases_unranked⟩, by decide, ?_, ?_⟩
  · exact h.1.2.2.2 (by decide)
  · exact (h.2.2 (by decide)).1

end RankRunner.Siblings
