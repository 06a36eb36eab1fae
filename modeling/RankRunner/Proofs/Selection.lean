import RankRunner.Proofs.Siblings.Closed
import RankRunner.Selection

/-! # The selection is closed

To select groups by name never fails if there are groups of these names. What is selected has
everything that it depends on, as long as the list of all groups has it (`select_closed`).

Whatever the groups depend on, be it on each other or on groups that do not exist, the selection is
what can be reached from the names along the dependencies that lead to a group (`select_reached`).
The order in which the names are followed does not matter for that: what is wanted in the end can be
reached (`follow_reached`), and nothing leads out of it (`Following.leads`). -/

namespace RankRunner.Selection

open Relation (ReflTransGen)

variable {groups selected : List Group} {wanted stack names all : List String}
  {name s t : String} {g : Group} {f : Fault}

theorem exists_named? (h : name ∈ groups.map (·.id)) :
    ∃ g ∈ groups, g.id = name ∧ named? groups name = some g := by
  obtain ⟨g, hg, rfl⟩ := List.mem_map.1 h
  cases hnamed : named? groups g.id with
  | none =>
    have := List.find?_eq_none.1 hnamed g (List.mem_reverse.2 hg)
    simp at this
  | some g' =>
    have hid := List.find?_some hnamed
    exact ⟨g', List.mem_reverse.1 (List.mem_of_find?_eq_some hnamed), beq_iff_eq.1 hid, rfl⟩

theorem mem_needs {t : String} : t ∈ needs groups g ↔ t ∈ g.needs ∧ t ∈ groups.map (·.id) := by
  simp [needs, List.any_eq_true]

/-! ## Following the dependencies -/

theorem follow_of_mem (hw : name ∈ wanted) :
    follow groups wanted (name :: stack) = follow groups wanted stack := by
  rw [follow, dif_pos hw]

theorem follow_of_none (hw : name ∉ wanted) (h : named? groups name = none) :
    follow groups wanted (name :: stack) = .error (unknown groups name) := by
  rw [follow, dif_neg hw]
  split
  · rfl
  · next g hg => rw [h] at hg; cases hg

theorem follow_of_some (hw : name ∉ wanted) (h : named? groups name = some g) :
    follow groups wanted (name :: stack) =
      follow groups (name :: wanted) (needs groups g ++ stack) := by
  rw [follow, dif_neg hw]
  split
  · next hnone => rw [h] at hnone; cases hnone
  · next g' hg' => cases h.symm.trans hg'; rfl

/-- What the wanted groups depend on is wanted too, or is still on the stack. -/
def Following (groups : List Group) (wanted stack : List String) : Prop :=
  ∀ name ∈ wanted, ∀ g, named? groups name = some g →
    ∀ t ∈ needs groups g, t ∈ wanted ∨ t ∈ stack

theorem Following.cons (h : Following groups wanted (name :: stack))
    (hg : named? groups name = some g) :
    Following groups (name :: wanted) (needs groups g ++ stack) := by
  intro other hother g' hg' t ht
  rcases List.mem_cons.1 hother with rfl | hother
  · cases hg.symm.trans hg'
    exact .inr (List.mem_append_left _ ht)
  · rcases h other hother g' hg' t ht with ht | ht
    · exact .inl (List.mem_cons_of_mem _ ht)
    · rcases List.mem_cons.1 ht with rfl | ht
      · exact .inl List.mem_cons_self
      · exact .inr (List.mem_append_right _ ht)

theorem Following.pop (h : Following groups wanted (name :: stack)) (hw : name ∈ wanted) :
    Following groups wanted stack := by
  intro other hother g hg t ht
  refine (h other hother g hg t ht).elim .inl fun ht => ?_
  rcases List.mem_cons.1 ht with rfl | ht
  · exact .inl hw
  · exact .inr ht

/-- All names on the stack are followed, until nothing is left to be followed. -/
theorem exists_follow (hstack : ∀ name ∈ stack, name ∈ groups.map (·.id))
    (h : Following groups wanted stack) :
    ∃ all, follow groups wanted stack = .ok all ∧ wanted ⊆ all ∧ stack ⊆ all ∧
      Following groups all [] := by
  induction wanted, stack using follow.induct groups with
  | case1 wanted =>
    refine ⟨wanted, by rw [follow], List.Subset.refl _, List.nil_subset _, h⟩
  | case2 wanted name stack hw ih =>
    obtain ⟨all, hall, hwanted, hrest, hfollowing⟩ :=
      ih (fun n hn => hstack n (List.mem_cons_of_mem _ hn)) (h.pop hw)
    refine ⟨all, (follow_of_mem hw).trans hall, hwanted, ?_, hfollowing⟩
    exact List.cons_subset.2 ⟨hwanted hw, hrest⟩
  | case3 wanted name stack hw hnone =>
    obtain ⟨_, _, _, hsome⟩ := exists_named? (hstack name List.mem_cons_self)
    rw [hnone] at hsome
    cases hsome
  | case4 wanted name stack hw g hg ih =>
    have hstack' : ∀ n ∈ needs groups g ++ stack, n ∈ groups.map (·.id) := by
      intro n hn
      rcases List.mem_append.1 hn with hn | hn
      · exact (mem_needs.1 hn).2
      · exact hstack n (List.mem_cons_of_mem _ hn)
    obtain ⟨all, hall, hwanted, hrest, hfollowing⟩ := ih hstack' (h.cons hg)
    obtain ⟨hname, hwanted⟩ := List.cons_subset.1 hwanted
    refine ⟨all, (follow_of_some hw hg).trans hall, hwanted, ?_, hfollowing⟩
    exact List.cons_subset.2 ⟨hname, fun n hn => hrest (List.mem_append_right _ hn)⟩

/-- The selection has the groups that were named, and all that its groups depend on. -/
theorem select_closed (hn : (groups.map (·.id)).Nodup)
    (hcomplete : ({ items := groups } : Siblings Group).Complete)
    (hnames : ∀ name ∈ names, name ∈ groups.map (·.id)) :
    ∃ selected, select groups names = .ok selected ∧
      (∀ name ∈ names, name ∈ selected.map (·.id)) ∧
      Siblings.Closed { items := selected } { items := groups } := by
  cases names with
  | nil => exact ⟨groups, rfl, fun _ h => absurd h List.not_mem_nil, .refl _, hcomplete⟩
  | cons first rest =>
    have hstack : ∀ name ∈ (first :: rest).reverse, name ∈ groups.map (·.id) := fun n hn =>
      hnames n (List.mem_reverse.1 hn)
    have hstart : Following groups [] (first :: rest).reverse := fun _ h =>
      absurd h List.not_mem_nil
    obtain ⟨all, hall, -, hsub, hfollowing⟩ := exists_follow hstack hstart
    refine ⟨groups.filter fun g => all.contains g.id, ?_, fun name hname => ?_,
      List.filter_sublist, fun g hg t ht => ?_⟩
    · change (follow groups [] (first :: rest).reverse).map _ = _
      rw [hall]
      rfl
    · obtain ⟨g, hg, rfl⟩ := List.mem_map.1 (hnames name hname)
      refine List.mem_map_of_mem (List.mem_filter.2 ⟨hg, ?_⟩)
      exact List.contains_iff_mem.2 (hsub (List.mem_reverse.2 hname))
    · obtain ⟨hg, hwanted⟩ := List.mem_filter.1 hg
      obtain ⟨g', hg', hid, hnamed⟩ := exists_named? (List.mem_map_of_mem hg)
      cases List.inj_on_of_nodup_map hn hg' hg hid
      have ht' : t ∈ groups.map (·.id) := hcomplete g hg t ht
      obtain ⟨b, hb, rfl⟩ := List.mem_map.1 ht'
      have hall : b.id ∈ all := by
        refine (hfollowing g.id (List.contains_iff_mem.1 hwanted) g hnamed b.id
          (mem_needs.2 ⟨ht, ht'⟩)).resolve_right List.not_mem_nil
      exact List.mem_map_of_mem (List.mem_filter.2 ⟨hb, List.contains_iff_mem.2 hall⟩)

/-! ## What is selected -/

/-- A group named `s` depends on a group of the list named `t`. -/
def Leads (groups : List Group) (s t : String) : Prop :=
  ({ items := groups } : Siblings Group).Needs s t ∧ t ∈ groups.map (·.id)

/-- One can come to that name from one of the others. -/
def Reached (groups : List Group) (names : List String) (t : String) : Prop :=
  ∃ name ∈ names, ReflTransGen (Leads groups) name t

theorem named?_eq_some (h : named? groups name = some g) : g ∈ groups ∧ g.id = name := by
  have hid := List.find?_some h
  exact ⟨List.mem_reverse.1 (List.mem_of_find?_eq_some h), beq_iff_eq.1 hid⟩

theorem named?_of_mem (hn : (groups.map (·.id)).Nodup) (hg : g ∈ groups) :
    named? groups g.id = some g := by
  obtain ⟨g', hg', hid, hnamed⟩ := exists_named? (List.mem_map_of_mem hg)
  cases List.inj_on_of_nodup_map hn hg' hg hid
  exact hnamed

theorem leads_of_mem_needs (hg : named? groups name = some g) (ht : t ∈ needs groups g) :
    Leads groups name t := by
  obtain ⟨hmem, hid⟩ := named?_eq_some hg
  obtain ⟨hneeds, hids⟩ := mem_needs.1 ht
  exact ⟨⟨g, hmem, hid, hneeds⟩, hids⟩

/-- All that has been followed was wanted already, or can be reached from the stack. -/
theorem follow_reached (h : follow groups wanted stack = .ok all) (ht : t ∈ all) :
    t ∈ wanted ∨ Reached groups stack t := by
  induction wanted, stack using follow.induct groups with
  | case1 wanted =>
    rw [follow] at h
    cases h
    exact .inl ht
  | case2 wanted name stack hw ih =>
    rw [follow_of_mem hw] at h
    refine (ih h).imp_right ?_
    rintro ⟨n, hn, hreach⟩
    exact ⟨n, List.mem_cons_of_mem _ hn, hreach⟩
  | case3 wanted name stack hw hnone =>
    rw [follow_of_none hw hnone] at h
    cases h
  | case4 wanted name stack hw g hg ih =>
    rw [follow_of_some hw hg] at h
    rcases ih h with hwanted | ⟨n, hn, hreach⟩
    · rcases List.mem_cons.1 hwanted with rfl | hwanted
      · exact .inr ⟨t, List.mem_cons_self, .refl⟩
      · exact .inl hwanted
    · rcases List.mem_append.1 hn with hn | hn
      · exact .inr ⟨name, List.mem_cons_self, .head (leads_of_mem_needs hg hn) hreach⟩
      · exact .inr ⟨n, List.mem_cons_of_mem _ hn, hreach⟩

/-- Once the stack is empty, nothing leads out of the names that are wanted. -/
theorem Following.leads (hn : (groups.map (·.id)).Nodup) (h : Following groups all [])
    (hs : s ∈ all) (hst : Leads groups s t) : t ∈ all := by
  obtain ⟨⟨g, hg, rfl, ht⟩, hids⟩ := hst
  have hnamed := named?_of_mem hn hg
  exact (h _ hs g hnamed t (mem_needs.2 ⟨ht, hids⟩)).resolve_right List.not_mem_nil

theorem Following.reached (hn : (groups.map (·.id)).Nodup) (h : Following groups all [])
    (hs : s ∈ all) (hreach : ReflTransGen (Leads groups) s t) : t ∈ all := by
  induction hreach with
  | refl => exact hs
  | tail _ hst ih => exact h.leads hn ih hst

/-- Names of groups are followed without a fault, and what they lead to is just what can be
reached from them. -/
theorem exists_follow_reached (hn : (groups.map (·.id)).Nodup)
    (hstack : ∀ name ∈ stack, name ∈ groups.map (·.id)) :
    ∃ all, follow groups [] stack = .ok all ∧ ∀ t, t ∈ all ↔ Reached groups stack t := by
  have hstart : Following groups [] stack := fun _ h => absurd h List.not_mem_nil
  obtain ⟨all, hall, -, hsub, hfollowing⟩ := exists_follow hstack hstart
  refine ⟨all, hall, fun t => ⟨fun ht => ?_, ?_⟩⟩
  · exact (follow_reached hall ht).resolve_left List.not_mem_nil
  · rintro ⟨name, hname, hreach⟩
    exact hfollowing.reached hn (hsub hname) hreach

/-! ## What is refused -/

/-- The first name on the stack that no group has is refused: what the names before it lead to are
groups. -/
theorem follow_unknown (hw : wanted ⊆ groups.map (·.id))
    (h : stack.find? (· ∉ groups.map (·.id)) = some name) :
    follow groups wanted stack = .error (unknown groups name) := by
  induction wanted, stack using follow.induct groups with
  | case1 wanted => cases h
  | case2 wanted top stack hin ih =>
    rw [follow_of_mem hin]
    refine ih hw ?_
    rwa [List.find?_cons_of_neg (by simpa using hw hin)] at h
  | case3 wanted top stack hin hnone =>
    have htop : top ∉ groups.map (·.id) := by
      intro hmem
      obtain ⟨_, _, _, hsome⟩ := exists_named? hmem
      rw [hnone] at hsome
      cases hsome
    rw [List.find?_cons_of_pos (by simpa using htop)] at h
    cases h
    exact follow_of_none hin hnone
  | case4 wanted top stack hin g hg ih =>
    have htop := mem_of_named? hg
    rw [List.find?_cons_of_neg (by simpa using htop)] at h
    have hneeds : (needs groups g).find? (· ∉ groups.map (·.id)) = none :=
      List.find?_eq_none.2 fun t ht => by simpa using (mem_needs.1 ht).2
    rw [follow_of_some hin hg]
    refine ih (List.cons_subset.2 ⟨htop, hw⟩) ?_
    rw [List.find?_append, hneeds, Option.none_or, h]

/-! ## What misses in the selection -/

section Missing

variable {α : Type} [WorkItem α] {l : Siblings α} {kind : Kind} {known : List String}

/-- What is reported as missing is no sibling, and one of the list depends on it. -/
theorem missing_of_stuckFault? (h : l.stuckFault? = some (.missingDependency kind s t known)) :
    kind = WorkItem.kind α ∧ ∃ a ∈ l.items, t ∈ (WorkItem.item a).needs ∧ t ∉ l.ids := by
  unfold Siblings.stuckFault? at h
  split at h
  · cases h
  · next a rest hstuck =>
    rw [← hstuck] at h
    split at h
    · next f hf =>
      obtain ⟨b, hb, hmissing⟩ := List.exists_of_findSome?_eq_some hf
      obtain ⟨u, hu, rfl⟩ := Option.map_eq_some_iff.1 hmissing
      cases h
      have hids : t ∉ l.ids := by simpa using List.find?_some hu
      exact ⟨rfl, b, (List.mem_filter.1 hb).1, List.mem_of_find?_eq_some hu, hids⟩
    · cases h

theorem missing_of_sequence (h : l.sequence.2 = some (.missingDependency kind s t known)) :
    kind = WorkItem.kind α ∧ ∃ a ∈ l.items, t ∈ (WorkItem.item a).needs ∧ t ∉ l.ids := by
  have hranked := (Siblings.sequence_reranked l).1
  obtain ⟨hkind, b, hb, ht, hids⟩ := missing_of_stuckFault? h
  obtain ⟨a, ha, hab⟩ := hranked.exists_of_mem_right hb
  have hsame : l.sequence.1.ids = l.ids := Siblings.ids_of_reranked hranked
  exact ⟨hkind, a, ha, hab.2.needs ▸ ht, hsame ▸ hids⟩

/-- That a case misses one is not reported of groups. -/
theorem kind_of_sequenceCases {gs : List Group}
    (h : (Siblings.sequenceCases gs).2 = some (.missingDependency kind s t known)) :
    kind = .case := by
  induction gs with
  | nil => cases h
  | cons g gs ih =>
    unfold Siblings.sequenceCases at h
    split at h
    · next hcases =>
      cases h
      exact (missing_of_sequence (congrArg (·.2) hcases)).1
    · exact ih h

theorem missing_of_sequenceGroups {l : Siblings Group}
    (h : l.sequenceGroups.2 = some (.missingDependency .group s t known)) :
    ∃ g ∈ l.items, t ∈ g.needs ∧ t ∉ l.ids := by
  unfold Siblings.sequenceGroups at h
  split at h
  · next hl =>
    cases h
    exact (missing_of_sequence (congrArg (·.2) hl)).2
  · cases kind_of_sequenceCases h

end Missing

/-! ## The selection -/

theorem select_of_ne_nil (h : names ≠ []) : select groups names =
    (follow groups [] names.reverse).map fun all => groups.filter fun g => all.contains g.id := by
  cases names with
  | nil => exact absurd rfl h
  | cons => rfl

theorem reached_reverse : Reached groups names.reverse t ↔ Reached groups names t := by
  simp [Reached]

/-- Names of groups select the groups that can be reached from them. -/
theorem exists_select (hn : (groups.map (·.id)).Nodup) (hne : names ≠ [])
    (hnames : ∀ name ∈ names, name ∈ groups.map (·.id)) :
    ∃ selected, select groups names = .ok selected ∧ selected.Sublist groups ∧
      ∀ g, g ∈ selected ↔ g ∈ groups ∧ Reached groups names g.id := by
  have hstack : ∀ name ∈ names.reverse, name ∈ groups.map (·.id) := fun n hmem =>
    hnames n (List.mem_reverse.1 hmem)
  obtain ⟨all, hall, hreached⟩ := exists_follow_reached hn hstack
  refine ⟨_, by rw [select_of_ne_nil hne, hall]; rfl, List.filter_sublist, fun g => ?_⟩
  rw [List.mem_filter, List.contains_iff_mem, hreached, reached_reverse]

/-- The last name that no group has is refused. -/
theorem select_unknown (h : names.reverse.find? (· ∉ groups.map (·.id)) = some name) :
    select groups names = .error (unknown groups name) := by
  have hne : names ≠ [] := by
    rintro rfl
    cases h
  rw [select_of_ne_nil hne, follow_unknown (List.nil_subset _) h]
  rfl

/-- What is missing in the selection is missing in the list of all groups too: a dependency that
leads to a group is followed. -/
theorem not_mem_of_missing (hselected : ∀ g, g ∈ selected ↔ g ∈ groups ∧ Reached groups names g.id)
    (hg : g ∈ selected) (ht : t ∈ g.needs) (hids : t ∉ selected.map (·.id)) :
    t ∉ groups.map (·.id) := by
  intro hmem
  obtain ⟨hin, name, hname, hreach⟩ := (hselected g).1 hg
  obtain ⟨b, hb, rfl⟩ := List.mem_map.1 hmem
  have hleads : Leads groups g.id b.id := ⟨⟨g, hin, rfl, ht⟩, hmem⟩
  exact hids (List.mem_map_of_mem ((hselected b).2 ⟨hb, name, hname, hreach.tail hleads⟩))

/-- Without names everything is selected. Otherwise the selection fails for a name that no group
has, and then for the last one, or it is what can be reached from the names. What is missing when
it is ranked is no group at all. -/
theorem select_reached (hn : (groups.map (·.id)).Nodup) (names : List String) :
    select groups [] = .ok groups ∧
    ((∃ f, select groups names = .error f) ↔ ∃ name ∈ names, name ∉ groups.map (·.id)) ∧
    (∀ f, select groups names = .error f → f.family = .unknownItem ∧ ∃ before name after,
      names = before ++ name :: after ∧ name ∉ groups.map (·.id) ∧
      (∀ other ∈ after, other ∈ groups.map (·.id)) ∧
      f = .noSuchGroup name (sortedTexts (groups.map (·.id)))) ∧
    (∀ selected, select groups names = .ok selected →
      selected.Sublist groups ∧ (selected.map (·.id)).Nodup ∧
      (names ≠ [] → ∀ g, g ∈ selected ↔ g ∈ groups ∧ Reached groups names g.id) ∧
      ∀ r : Run, r.groups.items = selected → ∀ id t known,
        r.sequence.2 = some (.missingDependency .group id t known) → t ∉ groups.map (·.id)) := by
  refine ⟨rfl, ?_⟩
  cases hfind : names.reverse.find? (· ∉ groups.map (·.id)) with
  | some name =>
    have herror := select_unknown hfind
    obtain ⟨hname, after, before, hsplit, hafter⟩ := List.find?_eq_some_iff_append.1 hfind
    have hnames : names = before.reverse ++ name :: after.reverse := by
      rw [← names.reverse_reverse, hsplit]
      simp
    rw [herror]
    refine ⟨⟨fun _ => ⟨name, ?_, by simpa using hname⟩, fun _ => ⟨_, rfl⟩⟩, ?_, ?_⟩
    · exact List.mem_reverse.1 (List.mem_of_find?_eq_some hfind)
    · rintro f ⟨⟩
      refine ⟨rfl, before.reverse, name, after.reverse, hnames, by simpa using hname, ?_, rfl⟩
      intro other hother
      simpa using hafter other (List.mem_reverse.1 hother)
    · rintro selected ⟨⟩
  | none =>
    have hknown : ∀ name ∈ names, name ∈ groups.map (·.id) := fun n hmem => by
      simpa using List.find?_eq_none.1 hfind n (List.mem_reverse.2 hmem)
    have hunknown : ¬ ∃ name ∈ names, name ∉ groups.map (·.id) := fun ⟨n, hmem, hno⟩ =>
      hno (hknown n hmem)
    by_cases hne : names = []
    · subst hne
      refine ⟨⟨fun ⟨_, h⟩ => (by cases h), fun h => absurd h hunknown⟩, fun _ h => (by cases h), ?_⟩
      rintro selected ⟨⟩
      refine ⟨.refl _, hn, fun h => absurd rfl h, ?_⟩
      rintro r rfl id t known hmissing
      obtain ⟨-, -, -, hids⟩ := missing_of_sequenceGroups hmissing
      exact hids
    · obtain ⟨selected, hok, hsub, hselected⟩ := exists_select hn hne hknown
      rw [hok]
      refine ⟨⟨fun ⟨_, h⟩ => (by cases h), fun h => absurd h hunknown⟩, fun _ h => (by cases h), ?_⟩
      rintro _ ⟨⟩
      refine ⟨hsub, hn.sublist (hsub.map _), fun _ => hselected, ?_⟩
      rintro r rfl id t known hmissing
      obtain ⟨g, hg, ht, hids⟩ := missing_of_sequenceGroups hmissing
      exact not_mem_of_missing hselected hg ht hids

/-- Two groups that depend on each other, one of them on a group that does not exist besides, and a
group on either side. -/
def entangled : List Group :=
  [{ id := "lint" }, { id := "unit", deps := [{ target := "build" }] },
    { id := "build", deps := [{ target := "unit" }, { target := "cache" }] }, { id := "docs" }]

theorem follow_entangled :
    follow entangled [] ["unit", "lint", "unit"] = .ok ["lint", "build", "unit"] :=
  calc follow entangled [] ["unit", "lint", "unit"]
    _ = follow entangled ["unit"] ["build", "lint", "unit"] :=
      follow_of_some (g := entangled[1]) (by decide) rfl
    _ = follow entangled ["build", "unit"] ["unit", "lint", "unit"] :=
      follow_of_some (g := entangled[2]) (by decide) rfl
    _ = follow entangled ["build", "unit"] ["lint", "unit"] := follow_of_mem (by decide)
    _ = follow entangled ["lint", "build", "unit"] ["unit"] :=
      follow_of_some (g := entangled[0]) (by decide) rfl
    _ = follow entangled ["lint", "build", "unit"] [] := follow_of_mem (by decide)
    _ = .ok ["lint", "build", "unit"] := by rw [follow]

theorem select_entangled :
    select entangled ["unit", "lint", "unit"] = .ok (entangled.take 3) :=
  congrArg (Except.map _) follow_entangled

theorem select_reached_entangled :
    (entangled.map (·.id)).Nodup ∧
      (∃ f, select entangled ["unit", "cache", "lint"] = .error f) ∧
      select entangled ["unit", "lint", "unit"] = .ok (entangled.take 3) ∧
      ∀ g, g ∈ entangled.take 3 ↔
        g ∈ entangled ∧ Reached entangled ["unit", "lint", "unit"] g.id := by
  have hn : (entangled.map (·.id)).Nodup := by decide
  have hrefused := (select_reached hn ["unit", "cache", "lint"]).2.1
  have hselected := (select_reached hn ["unit", "lint", "unit"]).2.2.2 _ select_entangled
  exact ⟨hn, hrefused.2 ⟨"cache", by decide, by decide⟩, select_entangled,
    hselected.2.2.1 (by decide)⟩

end RankRunner.Selection
