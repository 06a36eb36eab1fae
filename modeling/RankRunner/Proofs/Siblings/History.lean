import RankRunner.Proofs.Siblings.Diagnosed

/-! # Lists that are declared and ranked by turns

A dependency is resolved at the moment in which its target gets a rank. One that is declared on a
sibling with a rank stays unresolved for good (`Belated.apply`), so that an item without a rank that
has such a dependency never gets one, and ranking complains about a cycle where there may be none.
That is the only way in which the complaint can be wrong (`cycle_or_belated`), and it takes a
dependency that was declared after its target had been ranked (`Belated.exists_late`). -/

namespace RankRunner

namespace Item

variable {i j : Item} {s t : String} {d : Dependency}

/-- The item named `s` may have one dependency more, that on `t`. -/
structure Extended (s t : String) (i j : Item) : Prop where
  id : j.id = i.id
  sequenced : j.sequenced = i.sequenced
  kept : ∀ d ∈ i.deps, d ∈ j.deps
  declared : ∀ d ∈ j.deps, d ∈ i.deps ∨ i.id = s ∧ d = { target := t }

theorem Extended.refl (i : Item) : Extended s t i i := ⟨rfl, rfl, fun _ hd => hd, fun _ => .inl⟩

theorem Extended.dependsOn (i : Item) (t : String) : Extended i.id t i (i.dependsOn t) := by
  unfold Item.dependsOn
  split
  · exact .refl i
  · refine ⟨rfl, rfl, fun d => List.mem_append_left _, fun d hd => ?_⟩
    rcases List.mem_append.1 hd with hd | hd
    · exact .inl hd
    · exact .inr ⟨rfl, List.mem_singleton.1 hd⟩

end Item

namespace Siblings

open WorkItem (item)
open Relation (TransGen)

variable {α : Type} [WorkItem α] {l l' : Siblings α} {pos : Nat} {a : α} {s t : String}

/-! ## Ranking and what was declared too late -/

theorem sequenced_settledAt (pos : Nat) (top : Item) (p : Nat) (b : α) :
    (item (settledAt pos top p b)).sequenced = (decide (pos = p) || (item b).sequenced) := by
  rw [item_settledAt, Item.resolve_sequenced]
  by_cases hp : pos = p <;> simp [hp]

/-- What waits for the item that gets its rank is resolved, so that nothing comes too late by it. -/
theorem Belated.of_settle (ha : l.items[pos]? = some a)
    (h : (l.settle pos (item a)).Belated s t) : l.Belated s t := by
  obtain ⟨⟨b', hb', hs, hleft, hd⟩, c', hc', hid, hranked⟩ := h
  obtain ⟨p, b, hp, rfl⟩ := mem_settle.1 hb'
  obtain ⟨q, c, hq, rfl⟩ := mem_settle.1 hc'
  rw [id_of_reranked (settledAt_reranked ..)] at hs hid
  rw [sequenced_settledAt, Bool.or_eq_false_iff] at hleft
  rw [deps_settledAt] at hd
  obtain ⟨d, hd, hresolve⟩ := List.mem_map.1 hd
  unfold Dependency.resolve at hresolve
  split at hresolve
  · cases hresolve
  · next hne =>
    subst hresolve
    rcases sequenced_of_settledAt ha hq hranked with hranked | rfl
    · exact ⟨⟨b, List.mem_of_getElem? hp, hs, hleft.2, hd⟩, c, List.mem_of_getElem? hq, hid,
        hranked⟩
    · exact (hne hid.symm).elim

/-- What came too late is not resolved by the next round: the item that it waits for has its rank
already, and the item that waits does not get one. -/
theorem Belated.settle (h : l.Belated s t) (hn : l.ids.Nodup) (ha : l.items[pos]? = some a)
    (hs : (item a).sequenced = false) (hdry : (item a).dry = true) :
    (l.settle pos (item a)).Belated s t := by
  obtain ⟨⟨b, hb, hid, hleft, hd⟩, c, hc, hid', hranked⟩ := h
  obtain ⟨p, hp⟩ := List.mem_iff_getElem?.1 hb
  obtain ⟨q, hq⟩ := List.mem_iff_getElem?.1 hc
  have hpos : pos ≠ p := by
    rintro rfl
    cases ha.symm.trans hp
    cases Item.dry_iff.1 hdry _ hd
  have htarget : t ≠ (item a).id := by
    intro htop
    cases eq_of_id_eq hn hc (List.mem_of_getElem? ha) (hid'.trans htop)
    rw [hs] at hranked
    cases hranked
  refine ⟨⟨_, mem_settle.2 ⟨p, b, hp, rfl⟩, ?_, ?_, ?_⟩, _, mem_settle.2 ⟨q, c, hq, rfl⟩, ?_, ?_⟩
  · rw [id_of_reranked (settledAt_reranked ..), hid]
  · rw [sequenced_settledAt, hleft]
    simpa using hpos
  · rw [deps_settledAt]
    exact List.mem_map.2 ⟨_, hd, if_neg htarget⟩
  · rw [id_of_reranked (settledAt_reranked ..), hid']
  · rw [sequenced_settledAt, hranked, Bool.or_true]

theorem Belated.of_sequence (h : l.sequence.1.Belated s t) : l.Belated s t := by
  have key {l l' : Siblings α} (hsettles : Settles l l') (h : l'.Belated s t) : l.Belated s t := by
    induction hsettles with
    | done => exact h
    | step _ ha _ ih => exact (ih h).of_settle ha
  exact key (l := { l with maxRank := 0 }) l.sequence_settles h

theorem Belated.sequence (h : l.Belated s t) (hn : l.ids.Nodup) : l.sequence.1.Belated s t := by
  have key {l l' : Siblings α} (hsettles : Settles l l') (hn : l.ids.Nodup)
      (h : l.Belated s t) : l'.Belated s t := by
    induction hsettles with
    | done => exact h
    | @step l l' pos a htop ha _ ih =>
      obtain ⟨b, hb, hs, hdry⟩ := top?_eq_some htop
      cases ha.symm.trans hb
      have hids : (l.settle pos (item a)).ids = l.ids := ids_of_reranked (settle_reranked ..)
      exact ih (hids ▸ hn) (h.settle hn ha hs hdry)
  exact key (l := { l with maxRank := 0 }) l.sequence_settles hn h

theorem Belated.sequence_ne_none (h : l.Belated s t) (hn : l.ids.Nodup) :
    l.sequence.2 ≠ none := by
  intro hnone
  obtain ⟨⟨a, ha, -, hleft, -⟩, -⟩ := h.sequence hn
  rw [(sequence_eq_none_iff l).1 hnone a ha] at hleft
  cases hleft

/-- A complaint about a cycle is right, unless a dependency was declared too late. -/
theorem cycle_or_belated {id : String} {waitingOn : List String}
    (h : l.sequence.2 = some (.cycle id waitingOn)) :
    (∃ s, TransGen l.Needs s s) ∨ ∃ s t, l.Belated s t := by
  by_contra hnot
  obtain ⟨hacyclic, hlate⟩ := not_or.1 hnot
  have hlate (s t : String) : ¬ l.sequence.1.Belated s t := fun h => hlate ⟨s, t, h.of_sequence⟩
  have hloops (s : String) : ¬ l.sequence.1.Loops s := by
    rintro ⟨t, -, ht⟩
    rw [needs_of_reranked (sequence_reranked l).1] at ht
    exact hacyclic ⟨t, ht⟩
  have hended := l.sequence_settles.ended
  change l.sequence.1.stuckFault? = _ at h
  generalize l.sequence.1 = l' at h hlate hloops hended
  unfold stuckFault? at h
  split at h
  · cases h
  · next b rest hstuck =>
    have hb : b ∈ l'.stuck := hstuck ▸ List.mem_cons_self
    rw [← hstuck] at h
    split at h
    · next f hmissing =>
      obtain ⟨c, -, hf⟩ := List.exists_of_findSome?_eq_some hmissing
      obtain ⟨t, -, rfl⟩ := Option.map_eq_some_iff.1 hf
      cases h
    · next hmissing =>
      have hcomplete : ∀ c ∈ l'.items, (item c).sequenced = false → ∀ t ∈ (item c).needs,
          t ∈ l'.ids := by
        intro c hc hleft
        apply missing?_eq_none_iff.1
        exact List.findSome?_eq_none_iff.1 hmissing c (List.mem_filter.2 ⟨hc, by simp [hleft]⟩)
      obtain ⟨hb, hleft⟩ := List.mem_filter.1 hb
      simp [sequenced_of_not_belated hlate hended hcomplete b hb (hloops _)] at hleft

/-! ## Histories -/

/-- What is done to a list until it is run. -/
inductive Operation (α : Type) where
  | add (a : α)
  | dependsOn (id target : String)
  | rank
  /-- Something about the items changes that ranking does not look at, such as the cases of a
  group. -/
  | exchange (items : List α)

/-- The operation declares that what is named `s` depends on what is named `t`. -/
def Operation.Declares (s t : String) : Operation α → Prop
  | .add a => WorkItem.id a = s ∧ t ∈ (item a).needs
  | .dependsOn id target => id = s ∧ target = t
  | .rank | .exchange _ => False

/-- The list after an operation, where `rank` is what ranking makes of a list. If an item cannot be
added or a dependency not declared, the list stays as it is. -/
def apply (rank : Siblings α → Siblings α) (l : Siblings α) : Operation α → Siblings α
  | .add a =>
    match l.add a with
    | .ok l' => l'
    | .error _ => l
  | .dependsOn id target =>
    match l.dependsOn id target with
    | .ok (l', _) => l'
    | .error _ => l
  | .rank => rank l
  | .exchange items => if items.map item = l.items.map item then { l with items } else l

/-- The list that the operations make of the empty one. -/
def after (rank : Siblings α → Siblings α) (history : List (Operation α)) : Siblings α :=
  history.foldl (apply rank) {}

theorem after_snoc (rank : Siblings α → Siblings α) (history : List (Operation α))
    (op : Operation α) : after rank (history ++ [op]) = apply rank (after rank history) op :=
  List.foldl_append

/-- Whether a dependency came too late depends on nothing but the items. -/
theorem Belated.congr (h : l.Belated s t) (hitems : l'.items.map item = l.items.map item) :
    l'.Belated s t := by
  have hids {a b : α} (hab : item a = item b) : WorkItem.id a = WorkItem.id b :=
    congrArg Item.id hab
  obtain ⟨⟨a, ha, hid, hleft, hd⟩, b, hb, hid', hranked⟩ := h
  obtain ⟨a', ha', haa⟩ := exists_of_items hitems.symm ha
  obtain ⟨b', hb', hbb⟩ := exists_of_items hitems.symm hb
  exact ⟨⟨a', ha', hids haa ▸ hid, haa ▸ hleft, haa ▸ hd⟩, b', hb', hids hbb ▸ hid', hbb ▸ hranked⟩

theorem dependsOn_extended {d : Dependency} (h : l.dependsOn s t = .ok (l', d)) :
    List.Forall₂ (fun a b => (item a).Extended s t (item b)) l.items l'.items := by
  unfold dependsOn at h
  split at h
  · next pos b hpos _ =>
    cases h
    obtain ⟨hlt, hid, -⟩ := List.findIdx?_eq_some_iff_getElem.1 hpos
    refine List.forall₂_iff_get.2 ⟨(List.length_modify ..).symm, fun p hp hp' => ?_⟩
    simp only [modify, List.get_eq_getElem, List.getElem_modify]
    split
    · next heq =>
      subst heq
      rw [WorkItem.item_update, ← beq_iff_eq.1 hid]
      exact .dependsOn _ t
    · exact .refl _
  · cases h

/-! ### One operation -/

variable {rank : Siblings α → Siblings α} {op : Operation α} {history : List (Operation α)}

/-- An item is added before it has a rank. -/
def Operation.Unranked : Operation α → Prop
  | .add a => (item a).sequenced = false
  | .dependsOn .. | .rank | .exchange _ => True

theorem apply_exchange (items : List α) :
    (apply rank l (.exchange items)).items.map item = l.items.map item := by
  simp only [apply]
  split
  · assumption
  · rfl

/-- A dependency can come too late only as it is declared. -/
theorem Belated.of_apply (hrank : ∀ l, (rank l).items.map item = l.sequence.1.items.map item)
    (hop : op.Unranked) (h : (apply rank l op).Belated s t) :
    l.Belated s t ∨ op.Declares s t ∧ l.HasRank t := by
  cases op with
  | rank => exact .inl (h.congr (hrank l).symm).of_sequence
  | exchange items => exact .inl (h.congr (apply_exchange items).symm)
  | add a =>
    simp only [apply] at h
    split at h
    · next l' hadd =>
      obtain ⟨⟨b, hb, hs, hleft, hd⟩, c, hc, hid, hranked⟩ := h
      cases add_eq_ok hadd
      rw [List.mem_append, List.mem_singleton] at hb hc
      have hhas : l.HasRank t := by
        rcases hc with hc | rfl
        · exact ⟨c, hc, hid, hranked⟩
        · cases hranked.symm.trans hop
      rcases hb with hb | rfl
      · exact .inl ⟨⟨b, hb, hs, hleft, hd⟩, hhas⟩
      · exact .inr ⟨⟨hs, List.mem_map_of_mem hd⟩, hhas⟩
    · exact .inl h
  | dependsOn id target =>
    simp only [apply] at h
    split at h
    · next l' d hdepends =>
      have hext := dependsOn_extended hdepends
      obtain ⟨⟨b', hb', hs, hleft, hd⟩, c', hc', hid, hranked⟩ := h
      obtain ⟨b, hb, hbb⟩ := hext.exists_of_mem_right hb'
      obtain ⟨c, hc, hcc⟩ := hext.exists_of_mem_right hc'
      have hs : WorkItem.id b = s := hbb.id.symm.trans hs
      have hhas : l.HasRank t :=
        ⟨c, hc, hcc.id.symm.trans hid, hcc.sequenced.symm.trans hranked⟩
      rcases hbb.declared _ hd with hd | ⟨hid, hd⟩
      · exact .inl ⟨⟨b, hb, hs, hbb.sequenced.symm.trans hleft, hd⟩, hhas⟩
      · cases hd
        exact .inr ⟨⟨hid.symm.trans hs, rfl⟩, hhas⟩
    · exact .inl h

/-- Nothing that is done later makes up for a dependency that came too late. -/
theorem Belated.apply (hrank : ∀ l, (rank l).items.map item = l.sequence.1.items.map item)
    (hn : l.ids.Nodup) (h : l.Belated s t) (op : Operation α) :
    (Siblings.apply rank l op).Belated s t := by
  cases op with
  | rank => exact (h.sequence hn).congr (hrank l)
  | exchange items => exact h.congr (apply_exchange items)
  | add a =>
    simp only [Siblings.apply]
    split
    · next l' hadd =>
      obtain ⟨⟨b, hb, hwaits⟩, c, hc, hranked⟩ := h
      cases add_eq_ok hadd
      exact ⟨⟨b, List.mem_append_left _ hb, hwaits⟩, c, List.mem_append_left _ hc, hranked⟩
    · exact h
  | dependsOn id target =>
    simp only [Siblings.apply]
    split
    · next l' d hdepends =>
      have hext := dependsOn_extended hdepends
      obtain ⟨⟨b, hb, hs, hleft, hd⟩, c, hc, hid, hranked⟩ := h
      obtain ⟨b', hb', hbb⟩ := hext.exists_of_mem_left hb
      obtain ⟨c', hc', hcc⟩ := hext.exists_of_mem_left hc
      exact ⟨⟨b', hb', hbb.id.trans hs, hbb.sequenced.trans hleft, hbb.kept _ hd⟩,
        c', hc', hcc.id.trans hid, hcc.sequenced.trans hranked⟩
    · exact h

/-- Whatever is done, the names stay distinct. -/
theorem nodup_apply (hrank : ∀ l, (rank l).items.map item = l.sequence.1.items.map item)
    (hn : l.ids.Nodup) (op : Operation α) : (Siblings.apply rank l op).ids.Nodup := by
  cases op with
  | rank =>
    have hkept : l.sequence.1.ids = l.ids := ids_of_reranked (sequence_reranked l).1
    rw [Siblings.apply, ids_congr (hrank l), hkept]
    exact hn
  | exchange items => rwa [ids_congr (apply_exchange items)]
  | add a =>
    simp only [Siblings.apply]
    split
    · next hadd => exact nodup_add hn hadd
    · exact hn
  | dependsOn id target =>
    simp only [Siblings.apply]
    split
    · next hdepends => rwa [ids_dependsOn hdepends]
    · exact hn

/-! ### All that is done -/

/-- The dependency was declared after its target had got its rank. -/
def Late (rank : Siblings α → Siblings α) (history : List (Operation α)) (s t : String) : Prop :=
  ∃ before op rest, history = before ++ op :: rest ∧ op.Declares s t ∧ (after rank before).HasRank t

theorem nodup_after (hrank : ∀ l, (rank l).items.map item = l.sequence.1.items.map item)
    (history : List (Operation α)) : (after rank history).ids.Nodup := by
  induction history using List.reverseRecOn with
  | nil => exact List.nodup_nil
  | append_singleton history op ih =>
    rw [after_snoc]
    exact nodup_apply hrank ih op

theorem Belated.late (hrank : ∀ l, (rank l).items.map item = l.sequence.1.items.map item)
    (hops : ∀ op ∈ history, op.Unranked) (h : (after rank history).Belated s t) :
    Late rank history s t := by
  induction history using List.reverseRecOn with
  | nil =>
    obtain ⟨⟨a, ha, -⟩, -⟩ := h
    cases ha
  | append_singleton history op ih =>
    rw [after_snoc] at h
    rcases h.of_apply hrank (hops op (by simp)) with h | ⟨hdeclares, hranked⟩
    · obtain ⟨before, op', rest, rfl, hlate⟩ := ih (fun op' hop => hops op' (by simp [hop])) h
      exact ⟨before, op', rest ++ [op], by simp, hlate⟩
    · exact ⟨history, op, [], rfl, hdeclares, hranked⟩

theorem Belated.after (hrank : ∀ l, (rank l).items.map item = l.sequence.1.items.map item)
    (h : (after rank history).Belated s t) (more : List (Operation α)) :
    (Siblings.after rank (history ++ more)).Belated s t := by
  induction more using List.reverseRecOn with
  | nil => rwa [List.append_nil]
  | append_singleton more op ih =>
    rw [← List.append_assoc, after_snoc]
    exact ih.apply hrank (nodup_after hrank _) op

/-- The list cannot be ranked, and that is no mistake: there is a cycle, or else a dependency was
declared when its target had a rank already, and then it cannot be ranked ever after. -/
def Hopeless (rank : Siblings α → Siblings α) (history : List (Operation α)) : Prop :=
  (∃ s, TransGen (after rank history).Needs s s) ∨
    ∃ s t, Late rank history s t ∧ (after rank history).Belated s t ∧
      ∀ more, (after rank (history ++ more)).sequence.2 ≠ none

theorem hopeless_of_cycle (hrank : ∀ l, (rank l).items.map item = l.sequence.1.items.map item)
    (hops : ∀ op ∈ history, op.Unranked) {id : String} {waitingOn : List String}
    (h : (after rank history).sequence.2 = some (.cycle id waitingOn)) :
    Hopeless rank history := by
  rcases cycle_or_belated h with hcycle | ⟨s, t, hbelated⟩
  · exact .inl hcycle
  · refine .inr ⟨s, t, hbelated.late hrank hops, hbelated, fun more => ?_⟩
    exact (hbelated.after hrank more).sequence_ne_none (nodup_after hrank _)

theorem exists_of_sequenceCases {gs : List Group} {f : Fault} (h : (sequenceCases gs).2 = some f) :
    ∃ g ∈ gs, g.cases.sequence.2 = some f := by
  induction gs with
  | nil => cases h
  | cons g gs ih =>
    unfold sequenceCases at h
    split at h
    · next hg =>
      cases h
      exact ⟨g, List.mem_cons_self, congrArg (·.2) hg⟩
    · obtain ⟨g', hg', hf⟩ := ih h
      exact ⟨g', List.mem_cons_of_mem _ hg', hf⟩

/-- What is wrong with groups is wrong with their list, or with the cases of one of them. -/
theorem exists_of_sequenceGroups {l : Siblings Group} {f : Fault}
    (h : l.sequenceGroups.2 = some f) :
    l.sequence.2 = some f ∨ ∃ g ∈ l.items, g.cases.sequence.2 = some f := by
  unfold sequenceGroups at h
  split at h
  · next hl =>
    rw [hl]
    exact .inl h
  · next hl =>
    obtain ⟨g', hg', hf⟩ := exists_of_sequenceCases h
    have hkept := (sequence_reranked l).1
    rw [hl] at hkept
    obtain ⟨g, hg, hgg⟩ := hkept.exists_of_mem_right hg'
    exact .inr ⟨g, hg, Group.cases_of_reranked hgg ▸ hf⟩

/-- A complaint about a cycle is right, or it is about a dependency that was declared when its
target had a rank already. With a list of groups it is about the groups, or about the cases of one
of them. -/
theorem cycle_or_late (history : List (Operation Case)) (hops : ∀ op ∈ history, op.Unranked)
    (groups : List (Operation Group)) (hgroups : ∀ op ∈ groups, op.Unranked)
    (cases : Group → List (Operation Case)) (hcases : ∀ g, ∀ op ∈ cases g, op.Unranked)
    (hbuilt : ∀ g ∈ (after (·.sequenceGroups.1) groups).items,
      g.cases = after (·.sequence.1) (cases g)) :
    (∀ id waitingOn, (after (·.sequence.1) history).sequence.2 = some (.cycle id waitingOn) →
      Hopeless (·.sequence.1) history) ∧
    ∀ id waitingOn, (after (·.sequenceGroups.1) groups).sequenceGroups.2 =
        some (.cycle id waitingOn) → Hopeless (·.sequenceGroups.1) groups ∨
      ∃ g ∈ (after (·.sequenceGroups.1) groups).items, Hopeless (·.sequence.1) (cases g) := by
  refine ⟨fun id waitingOn h => hopeless_of_cycle (fun _ => rfl) hops h, fun id waitingOn h => ?_⟩
  rcases exists_of_sequenceGroups h with h | ⟨g, hg, h⟩
  · exact .inl (hopeless_of_cycle sequenceGroups_items hgroups h)
  · rw [hbuilt g hg] at h
    exact .inr ⟨g, hg, hopeless_of_cycle (fun _ => rfl) (hcases g) h⟩

/-- A case that is declared when the one that it needs has been ranked. -/
def belatedCase : List (Operation Case) :=
  [.add { id := "a" }, .rank, .add { id := "b" }, .dependsOn "b" "a"]

/-- A group with these cases. -/
def belatedGroup : List (Operation Group) :=
  [.add { id := "g", cases := after (·.sequence.1) belatedCase }]

theorem after_belatedCase : (after (·.sequence.1) belatedCase).items =
    [{ id := "a", sequenced := true }, { id := "b", deps := [{ target := "a" }] }] := rfl

theorem belatedCase_unranked : ∀ op ∈ belatedCase, op.Unranked := by
  simp [belatedCase, Operation.Unranked, item]

theorem belatedGroup_unranked : ∀ op ∈ belatedGroup, op.Unranked := by
  simp [belatedGroup, Operation.Unranked, item]

theorem cycle_or_late_belatedCase :
    (after (·.sequence.1) belatedCase).sequence.2 = some (.cycle "b" ["a"]) ∧
      Hopeless (·.sequence.1) belatedCase ∧
      (after (·.sequenceGroups.1) belatedGroup).sequenceGroups.2 = some (.cycle "b" ["a"]) ∧
      (Hopeless (·.sequenceGroups.1) belatedGroup ∨
        ∃ g ∈ (after (·.sequenceGroups.1) belatedGroup).items,
          Hopeless (·.sequence.1) belatedCase) := by
  have hbuilt : ∀ g ∈ (after (·.sequenceGroups.1) belatedGroup).items,
      g.cases = after (·.sequence.1) belatedCase := by
    intro g hg
    cases List.mem_singleton.1 hg
    rfl
  have h := cycle_or_late belatedCase belatedCase_unranked belatedGroup belatedGroup_unranked
    (fun _ => belatedCase) (fun _ => belatedCase_unranked) hbuilt
  exact ⟨rfl, h.1 _ _ rfl, rfl, h.2 _ _ rfl⟩

/-- The complaint is about a cycle, but there is none: the case that has no rank needs the other
one, which has one and needs nothing. -/
theorem belatedCase_acyclic :
    (after (·.sequence.1) belatedCase).sequence.2 = some (.cycle "b" ["a"]) ∧
      (after (·.sequence.1) belatedCase).Acyclic := by
  have hneeds (s t : String) (h : (after (·.sequence.1) belatedCase).Needs s t) :
      s = "b" ∧ t = "a" := by
    obtain ⟨c, hc, rfl, ht⟩ := h
    rw [after_belatedCase, List.mem_cons, List.mem_singleton] at hc
    rcases hc with rfl | rfl
    · cases ht
    · exact ⟨rfl, List.mem_singleton.1 ht⟩
  refine ⟨rfl, fun s hs => ?_⟩
  obtain ⟨t, hfirst, -⟩ := Relation.TransGen.head'_iff.1 hs
  obtain ⟨t', -, hlast⟩ := Relation.TransGen.tail'_iff.1 hs
  have := (hneeds _ _ hfirst).1.symm.trans (hneeds _ _ hlast).2
  simp at this

end Siblings

end RankRunner
