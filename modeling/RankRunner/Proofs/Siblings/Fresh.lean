import RankRunner.Declaration
import RankRunner.Proofs.Lists

/-! # Freshly declared lists and runs

An item is fresh when nothing but its identity and its dependencies has been set, and a list when
its items are fresh and have distinct identities. Whatever the two ways to declare a group and
`Run.addGroups` make is fresh (`Group.declare_fresh`, `Group.build_fresh`, `Run.addGroups_fresh`). -/

namespace RankRunner

/-- Nothing but the identity and the dependencies has been set. -/
structure Item.Fresh (i : Item) : Prop where
  status : i.status = .success
  rank : i.rank = 0
  sequenced : i.sequenced = false
  start : i.start = none
  stop : i.stop = none
  notRun : i.notRun = false
  unresolved : ∀ d ∈ i.deps, d.resolved = false

/-- No time is recorded. -/
structure Item.Unstamped (i : Item) : Prop where
  start : i.start = none
  stop : i.stop = none

theorem Item.Fresh.unstamped {i : Item} (h : i.Fresh) : i.Unstamped := ⟨h.start, h.stop⟩

structure Case.Fresh (c : Case) : Prop where
  item : c.toItem.Fresh
  pid : c.pid = none
  usage : c.usage = none

/-- A list with distinct identities that was neither ranked nor scheduled, its items being fresh
in the sense of `P`. -/
structure Siblings.Fresh [WorkItem α] (P : α → Prop) (l : Siblings α) : Prop where
  nodup : l.ids.Nodup
  items : ∀ a ∈ l.items, P a
  maxRank : l.maxRank = 0
  outstanding : l.outstanding = 0

/-- A list with distinct identities that was not ranked, whatever else its items carry. -/
structure Siblings.Unranked [WorkItem α] (l : Siblings α) : Prop where
  nodup : l.ids.Nodup
  sequenced : ∀ a ∈ l.items, (WorkItem.item a).sequenced = false
  rank : ∀ a ∈ l.items, (WorkItem.item a).rank = 0
  unresolved : ∀ a ∈ l.items, ∀ d ∈ (WorkItem.item a).deps, d.resolved = false

structure Group.Fresh (g : Group) : Prop where
  item : g.toItem.Fresh
  cases : g.cases.Fresh Case.Fresh
  synopsis : g.synopsis = {}

structure Run.Fresh (r : Run) : Prop where
  groups : r.groups.Fresh Group.Fresh
  synopsis : r.synopsis = {}
  start : r.start = none
  stop : r.stop = none

namespace Item.Fresh

theorem empty (id : String) : Fresh { id } :=
  ⟨rfl, rfl, rfl, rfl, rfl, rfl, nofun⟩

theorem dependsOn (h : Fresh i) (t : String) : Fresh (i.dependsOn t) := by
  unfold Item.dependsOn
  split
  · exact h
  · refine { h with unresolved := fun d hd => ?_ }
    rcases List.mem_append.1 hd with hd | hd
    · exact h.unresolved d hd
    · cases List.mem_singleton.1 hd; rfl

theorem dependsOnAll (h : Fresh i) (ts : List String) : Fresh (i.dependsOnAll ts) := by
  induction ts generalizing i with
  | nil => exact h
  | cons t ts ih => exact ih (h.dependsOn t)

end Item.Fresh

@[simp] theorem Item.dependsOnAll_id (i : Item) (ts : List String) :
    (i.dependsOnAll ts).id = i.id := by
  induction ts generalizing i with
  | nil => rfl
  | cons t ts ih => exact (ih _).trans (i.dependsOn_id t)

namespace Siblings

variable {α : Type} [WorkItem α] {P : α → Prop} {l l' : Siblings α}

/-- Distinct identities: an item is the only one of its name. -/
theorem eq_of_id_eq (h : l.ids.Nodup) {a b : α} (ha : a ∈ l.items) (hb : b ∈ l.items)
    (hid : WorkItem.id a = WorkItem.id b) : a = b :=
  List.inj_on_of_nodup_map h ha hb hid

theorem id_ne_of_ne (h : l.ids.Nodup) {p q : Nat} {a b : α} (ha : l.items[p]? = some a)
    (hb : l.items[q]? = some b) (hpq : p ≠ q) : WorkItem.id a ≠ WorkItem.id b := by
  intro hid
  have hids (i : Nat) : l.ids[i]? = (l.items[i]?).map WorkItem.id := List.getElem?_map ..
  obtain ⟨hlt, _⟩ := List.getElem?_eq_some_iff.1 ha
  refine hpq ((List.getElem?_inj (by simpa [Siblings.ids] using hlt) h).1 ?_)
  rw [hids, hids, ha, hb]
  exact congrArg some hid

/-- A name finds the one item that has it. -/
theorem get?_eq_some_iff (h : l.ids.Nodup) {id : String} {a : α} :
    l.get? id = some a ↔ a ∈ l.items ∧ WorkItem.id a = id := by
  constructor
  · exact fun hget => ⟨List.mem_of_find?_eq_some hget, by simpa using List.find?_some hget⟩
  · rintro ⟨ha, rfl⟩
    cases hget : l.get? (WorkItem.id a) with
    | none => exact (get?_eq_none_iff.1 hget (List.mem_map_of_mem ha)).elim
    | some b =>
      have hid : WorkItem.id b = WorkItem.id a := by simpa using List.find?_some hget
      rw [eq_of_id_eq h (List.mem_of_find?_eq_some hget) ha hid]

theorem get?_of_mem (h : l.ids.Nodup) {a : α} (ha : a ∈ l.items) :
    l.get? (WorkItem.id a) = some a :=
  (get?_eq_some_iff h).2 ⟨ha, rfl⟩

theorem Fresh.unranked (h : l.Fresh P) (hP : ∀ a, P a → (WorkItem.item a).Fresh) :
    l.Unranked := by
  refine ⟨h.nodup, fun a ha => ?_, fun a ha => ?_, fun a ha => ?_⟩
  · exact (hP a (h.items a ha)).sequenced
  · exact (hP a (h.items a ha)).rank
  · exact (hP a (h.items a ha)).unresolved

theorem Fresh.empty : Fresh P {} := ⟨List.nodup_nil, nofun, rfl, rfl⟩

theorem nodup_add (h : l.ids.Nodup) (hl : l.add a = .ok l') : l'.ids.Nodup := by
  have hid : WorkItem.id a ∉ l.ids := fun hm => by
    obtain ⟨f, hf⟩ := add_eq_error_iff.2 hm
    rw [hl] at hf
    cases hf
  rw [ids_add hl]
  exact List.nodup_append.2 ⟨h, List.nodup_singleton _, fun x hx y hy hxy =>
    hid (List.mem_singleton.1 hy ▸ hxy ▸ hx)⟩

theorem add_eq_ok (hl : l.add a = .ok l') : l' = { l with items := l.items ++ [a] } := by
  unfold Siblings.add at hl
  split at hl
  · cases hl
  · cases hl
    rfl

theorem Fresh.add (h : l.Fresh P) (ha : P a) (hl : l.add a = .ok l') : l'.Fresh P := by
  have hn := nodup_add h.nodup hl
  cases add_eq_ok hl
  refine ⟨hn, fun b hb => ?_, h.maxRank, h.outstanding⟩
  rcases List.mem_append.1 hb with hb | hb
  · exact h.items b hb
  · exact List.mem_singleton.1 hb ▸ ha

theorem ids_modify {f : α → α} (hf : ∀ a, WorkItem.id (f a) = WorkItem.id a) (pos : Nat) :
    (l.modify pos f).ids = l.ids :=
  List.map_modify_of_forall hf ..

theorem Fresh.modify {f : α → α} (h : l.Fresh P) (hf : ∀ a, WorkItem.id (f a) = WorkItem.id a)
    (hP : ∀ a, P a → P (f a)) (pos : Nat) : (l.modify pos f).Fresh P := by
  refine ⟨?_, fun b hb => ?_, h.maxRank, h.outstanding⟩
  · rw [ids_modify hf]; exact h.nodup
  · rcases List.mem_modify hb with hb | ⟨a, ha, rfl⟩
    · exact h.items b hb
    · exact hP a (h.items a ha)

theorem ids_dependsOn {id target : String} {d : Dependency}
    (hl : l.dependsOn id target = .ok (l', d)) : l'.ids = l.ids := by
  unfold Siblings.dependsOn at hl
  split at hl
  · cases hl
    exact ids_modify (fun a => by simp [WorkItem.id]) _
  · cases hl

theorem Fresh.dependsOn {id target : String} {d : Dependency} (h : l.Fresh P)
    (hP : ∀ a, P a → P (WorkItem.update (·.dependsOn target) a))
    (hl : l.dependsOn id target = .ok (l', d)) : l'.Fresh P := by
  unfold Siblings.dependsOn at hl
  split at hl
  · cases hl
    exact h.modify (fun a => by simp [WorkItem.id]) hP _
  · cases hl

end Siblings

theorem Case.declare_fresh (id : String) (action : Option Action) (needs : List String) :
    (Case.declare id action needs).Fresh :=
  ⟨(Item.Fresh.empty id).dependsOnAll needs, rfl, rfl⟩

private theorem bind_eq_ok {x : Except ε α} {f : α → Except ε β} {b : β} :
    (x >>= f) = .ok b ↔ ∃ a, x = .ok a ∧ f a = .ok b := by
  cases x with
  | error e => exact ⟨nofun, fun ⟨_, h, _⟩ => nomatch h⟩
  | ok a => exact ⟨fun h => ⟨a, rfl, h⟩, fun ⟨_, h, hf⟩ => Except.ok.inj h ▸ hf⟩

namespace Group

variable {g g' : Group}

theorem Fresh.empty (id : String) : Fresh { id } :=
  ⟨.empty id, .empty, rfl⟩

theorem Fresh.addCase (h : g.Fresh) (hc : c.Fresh) (hg : g.addCase c = .ok g') : g'.Fresh := by
  obtain ⟨cases, hadd, ⟨⟩⟩ := bind_eq_ok.1 hg
  exact { h with cases := h.cases.add hc hadd }

theorem Fresh.addCases (h : g.Fresh) {cs : List Case} (hcs : ∀ c ∈ cs, c.Fresh)
    (hg : g.addCases cs = .ok g') : g'.Fresh := by
  induction cs generalizing g with
  | nil => cases hg; exact h
  | cons c cs ih =>
    obtain ⟨g₁, hadd, hg⟩ := bind_eq_ok.1 hg
    exact ih (h.addCase (hcs c List.mem_cons_self) hadd)
      (fun c' hc' => hcs c' (List.mem_cons_of_mem _ hc')) hg

theorem Fresh.dependsOnAll (h : g.Fresh) (ts : List String) :
    Fresh { g with toItem := g.toItem.dependsOnAll ts } :=
  { h with item := h.item.dependsOnAll ts }

theorem declare_fresh {id : String} {first cases : List Case} {needs : List String}
    (h : ∀ c ∈ first ++ cases, c.Fresh) (hg : declare id first cases needs = .ok g) :
    g.Fresh := by
  obtain ⟨g₁, hadd, ⟨⟩⟩ := bind_eq_ok.1 hg
  exact ((Fresh.empty id).addCases h hadd).dependsOnAll needs

theorem Fresh.caseDependsOnAll (h : g.Fresh) (id : String) {ts : List String}
    (hg : g.caseDependsOnAll id ts = .ok g') : g'.Fresh := by
  induction ts generalizing g with
  | nil => cases hg; exact h
  | cons t ts ih =>
    obtain ⟨g₁, hg₁, hg⟩ := bind_eq_ok.1 hg
    obtain ⟨⟨cases, d⟩, hdep, ⟨⟩⟩ := bind_eq_ok.1 hg₁
    have hP (c : Case) (hc : c.Fresh) : (WorkItem.update (·.dependsOn t) c).Fresh :=
      { hc with item := hc.item.dependsOn t }
    have hcases : Fresh { g with cases } := { h with cases := h.cases.dependsOn hP hdep }
    exact ih hcases hg

theorem Fresh.apply (h : g.Fresh) {s : Step} (hg : g.apply s = .ok g') : g'.Fresh := by
  cases s with
  | dependsOn ts => cases hg; exact h.dependsOnAll ts
  | register id action => exact h.addCase ⟨.empty id, rfl, rfl⟩ hg
  | caseDependsOn id ts => exact h.caseDependsOnAll id hg

theorem Fresh.applyAll (h : g.Fresh) {ss : List Step} (hg : g.applyAll ss = .ok g') :
    g'.Fresh := by
  induction ss generalizing g with
  | nil => cases hg; exact h
  | cons s ss ih =>
    obtain ⟨g₁, happ, hg⟩ := bind_eq_ok.1 hg
    exact ih (h.apply happ) hg

theorem build_fresh {id : String} {steps : List Step} (hg : build id steps = .ok g) : g.Fresh :=
  (Fresh.empty id).applyAll hg

end Group

theorem Run.addGroups_fresh {r r' : Run} (h : r.Fresh) {gs : List Group}
    (hgs : ∀ g ∈ gs, g.Fresh) (hr : r.addGroups gs = .ok r') : r'.Fresh := by
  induction gs generalizing r with
  | nil => cases hr; exact h
  | cons g gs ih =>
    obtain ⟨groups, hadd, hr⟩ := bind_eq_ok.1 hr
    have hr₁ : Fresh { r with groups } :=
      { h with groups := h.groups.add (hgs g List.mem_cons_self) hadd }
    exact ih hr₁ (fun g' hg' => hgs g' (List.mem_cons_of_mem _ hg')) hr

end RankRunner
