import RankRunner.Proofs.Declaration.Pool
import RankRunner.Proofs.Declaration.Styles

/-! # Declarations call by call

Cases and groups are declared by calls in any order: a case may be made first and added to a group
later, to several of them too, a group may be declared from cases that exist or be built step by
step, and dependencies may be declared of an item or by way of a list, before and after it is added.
Some of the calls raise a fault; what they did until then is kept, and the calls go on. Whatever the
calls were, the lists are sound, a fault is raised by the calls that the names in the lists forbid
and by no others, and it leaves all that was there as it was (`Workbench.after_lawful`). -/

namespace RankRunner

/-- The cases and the groups that have been made. The list of cases with the number of a group is
its own; the lists of groups are those of runs. -/
structure Workbench where
  cases : Pool Case := {}
  groups : Pool Group := {}

namespace Workbench

/-- Items and lists are given by number. -/
inductive Call where
  | case (id : String) (action : Option Action) (needs : List String)
  | group (id : String) (first cases : List Nat) (needs : List String)
  | builder (id : String)
  | step (group : Nat) (step : Group.Step)
  | addCase (group case : Nat)
  | caseNeeds (case : Nat) (targets : List String)
  | run
  | addGroup (run group : Nat)
  | groupDependsOn (run : Nat) (id target : String)
  deriving Repr, Inhabited

def openGroup (b : Workbench) (id : String) : Workbench :=
  { cases := b.cases.openList, groups := b.groups.make { id } }

def withCases (b : Workbench) (out : Pool Case × Option Fault) : Workbench × Option Fault :=
  ({ b with cases := out.1 }, out.2)

def withGroups (b : Workbench) (out : Pool Group × Option Fault) : Workbench × Option Fault :=
  ({ b with groups := out.1 }, out.2)

/-- The number that the next case gets. -/
def nextCase (b : Workbench) : Nat := b.cases.items.length

/-- The number that the next group gets. -/
def nextGroup (b : Workbench) : Nat := b.groups.items.length

/-- What a call leaves, and the fault that it raises. -/
def perform (b : Workbench) : Call → Workbench × Option Fault
  | .case id action needs =>
    b.withCases ((b.cases.make { id, action }).declareAll b.nextCase needs, none)
  | .group id first cases needs =>
    let opened := b.openGroup id
    match opened.cases.addAll b.nextGroup (first ++ cases) with
    | (p, none) => ({ cases := p, groups := opened.groups.declareAll b.nextGroup needs }, none)
    | (p, some f) => ({ opened with cases := p }, some f)
  | .builder id => (b.openGroup id, none)
  | .step n (.dependsOn targets) => b.withGroups (b.groups.declareAll n targets, none)
  | .step n (.register id action) =>
    b.withCases ((b.cases.make { id, action }).add n b.nextCase)
  | .step n (.caseDependsOn id targets) => b.withCases (b.cases.dependsOnAll n id targets)
  | .addCase n c => b.withCases (b.cases.add n c)
  | .caseNeeds c targets => b.withCases (b.cases.declareAll c targets, none)
  | .run => b.withGroups (b.groups.openList, none)
  | .addGroup r n => b.withGroups (b.groups.add r n)
  | .groupDependsOn r id target => b.withGroups (b.groups.dependsOn r id target)

/-- What there is after some calls, those that raised a fault among them. -/
def after (calls : List Call) : Workbench := calls.foldl (fun b call => (b.perform call).1) {}

/-- A group, with its cases as they are now. -/
def group? (b : Workbench) (n : Nat) : Option Group :=
  (b.groups.items[n]?).map fun g => { g with cases := b.cases.siblings n }

def casesAt (b : Workbench) (cs : List Nat) : List Case := cs.filterMap (b.cases.items[·]?)

/-- The fault that a call is to raise: a name is added to a list that has it, or something is
declared of a name that the list does not have. -/
def complaint? (b : Workbench) : Call → Option Fault
  | .group _ first cases _ =>
    (repeated? [] ((first ++ cases).filterMap b.cases.name?)).map (.duplicateId .case)
  | .step n (.register id _) =>
    if id ∈ (b.cases.siblings n).ids then some (.duplicateId .case id) else none
  | .step n (.caseDependsOn id targets) =>
    if id ∈ (b.cases.siblings n).ids then none else targets.head?.map (.unknownItem id)
  | .addCase n c =>
    ((b.cases.name? c).filter (· ∈ (b.cases.siblings n).ids)).map (.duplicateId .case)
  | .addGroup r n =>
    ((b.groups.name? n).filter (· ∈ (b.groups.siblings r).ids)).map (.duplicateId .group)
  | .groupDependsOn r id target =>
    if id ∈ (b.groups.siblings r).ids then none else some (.unknownItem id target)
  | .case .. | .builder _ | .step _ (.dependsOn _) | .caseNeeds .. | .run => none

/-! ## What stays true -/

structure Sound (b : Workbench) : Prop where
  cases : b.cases.Sound
  groups : b.groups.Sound
  owned : b.cases.lists.length = b.groups.items.length

variable {b : Workbench}

theorem Sound.openGroup (h : b.Sound) (id : String) : (b.openGroup id).Sound where
  cases := h.cases.openList
  groups := h.groups.make rfl
  owned := by simp [Workbench.openGroup, Pool.openList, Pool.make, h.owned]

theorem Sound.withCases (h : b.Sound) {out : Pool Case × Option Fault} (hout : out.1.Sound)
    (hlists : out.1.lists.length = b.cases.lists.length) : (b.withCases out).1.Sound :=
  ⟨hout, h.groups, hlists.trans h.owned⟩

theorem Sound.withGroups (h : b.Sound) {out : Pool Group × Option Fault} (hout : out.1.Sound)
    (hitems : out.1.items.length = b.groups.items.length) : (b.withGroups out).1.Sound :=
  ⟨h.cases, hout, h.owned.trans hitems.symm⟩

/-- A group that is declared from cases gets all of them and its needs, or a fault is raised by one
of the cases. -/
theorem perform_group_cases (b : Workbench) (id : String) (first cases : List Nat)
    (needs : List String) :
    let out := (b.openGroup id).cases.addAll b.nextGroup (first ++ cases)
    let groups := (b.openGroup id).groups
    (out.2 = none ∧ b.perform (.group id first cases needs) =
        ({ cases := out.1, groups := groups.declareAll b.nextGroup needs }, none)) ∨
      ∃ f, out.2 = some f ∧ b.perform (.group id first cases needs) =
        ({ cases := out.1, groups }, some f) := by
  simp only [perform]
  split
  · next heq => exact .inl (by rw [heq]; exact ⟨rfl, rfl⟩)
  · next f heq => exact .inr ⟨f, by rw [heq]; exact ⟨rfl, rfl⟩⟩

/-- Each call keeps the lists sound, also when it raises a fault. -/
theorem Sound.perform (h : b.Sound) (call : Call) : (b.perform call).1.Sound := by
  cases call with
  | case id action needs =>
    exact h.withCases ((h.cases.make rfl).declareAll b.nextCase needs) (by simp [Pool.make])
  | group id first cases needs =>
    have hopened := h.openGroup id
    have hadded := hopened.cases.addAll b.nextGroup (first ++ cases)
    have hlength := ((b.openGroup id).cases.addAll_keptBut b.nextGroup (first ++ cases)).length
    rcases b.perform_group_cases id first cases needs with ⟨-, hout⟩ | ⟨f, -, hout⟩ <;> rw [hout]
    · exact ⟨hadded, hopened.groups.declareAll b.nextGroup needs,
        hlength.trans (hopened.owned.trans (Pool.length_items_declareAll ..).symm)⟩
    · exact ⟨hadded, hopened.groups, hlength.trans hopened.owned⟩
  | builder id => exact h.openGroup id
  | step n s =>
    cases s with
    | dependsOn targets =>
      exact h.withGroups (h.groups.declareAll n targets) (Pool.length_items_declareAll ..)
    | register id action =>
      exact h.withCases ((h.cases.make rfl).add n b.nextCase) (Pool.add_keptBut ..).length
    | caseDependsOn id targets =>
      exact h.withCases (h.cases.dependsOnAll n id targets)
        (congrArg List.length (Pool.dependsOnAll_frame h.cases n id targets).1)
  | addCase n c => exact h.withCases (h.cases.add n c) (Pool.add_keptBut ..).length
  | caseNeeds c targets =>
    exact h.withCases (h.cases.declareAll c targets) (by simp)
  | run => exact h.withGroups h.groups.openList rfl
  | addGroup r n =>
    exact h.withGroups (h.groups.add r n) (congrArg List.length (Pool.add_keptBut ..).items)
  | groupDependsOn r id target =>
    rw [Workbench.perform, ← Pool.dependsOnAll_singleton]
    exact h.withGroups (h.groups.dependsOnAll r id [target])
      (Pool.dependsOnAll_frame h.groups r id [target]).2

theorem after_sound (calls : List Call) : (after calls).Sound := by
  induction calls using List.reverseRecOn with
  | nil => exact ⟨Pool.Sound.empty, Pool.Sound.empty, rfl⟩
  | append_singleton calls call ih =>
    rw [after, List.foldl_append]
    exact ih.perform call

theorem Sound.nextGroup_lt (h : b.Sound) (id : String) :
    b.nextGroup < (b.openGroup id).cases.lists.length := by
  simp [Workbench.openGroup, Pool.openList, nextGroup, h.owned]

/-- A new group has no cases. -/
theorem Sound.siblings_nextGroup (h : b.Sound) (id : String) :
    (b.openGroup id).cases.siblings b.nextGroup = {} :=
  (Pool.siblings_openList ..).trans (Pool.siblings_eq_empty (Nat.le_of_eq h.owned))

/-! ## Which calls raise a fault -/

theorem perform_fault (h : b.Sound) (call : Call) : (b.perform call).2 = b.complaint? call := by
  cases call with
  | group id first cases needs =>
    have hfault := Pool.addAll_fault (h.nextGroup_lt id) (first ++ cases)
    rw [h.siblings_nextGroup id] at hfault
    rcases b.perform_group_cases id first cases needs with ⟨hf, hout⟩ | ⟨f, hf, hout⟩ <;> rw [hout]
    · exact hf.symm.trans hfault
    · exact hf.symm.trans hfault
  | step n s =>
    cases s with
    | dependsOn targets => rfl
    | register id action =>
      refine (Pool.add_fault ..).trans ?_
      rw [h.cases.siblings_make]
      simp [Pool.name?, Pool.make, nextCase, complaint?, Option.filter, WorkItem.id, WorkItem.kind]
    | caseDependsOn id targets => exact Pool.dependsOnAll_fault h.cases n id targets
  | addCase n c => exact Pool.add_fault ..
  | addGroup r n => exact Pool.add_fault ..
  | groupDependsOn r id target =>
    rw [perform, ← Pool.dependsOnAll_singleton]
    exact Pool.dependsOnAll_fault h.groups r id [target]
  | case | builder | caseNeeds | run => rfl

/-- A call that raises a fault leaves all that was there as it was. -/
theorem kept_of_fault (h : b.Sound) {call : Call} (hfault : (b.perform call).2 ≠ none) :
    b.cases.Kept (b.perform call).1.cases ∧ b.groups.Kept (b.perform call).1.groups := by
  cases call with
  | group id first cases needs =>
    have hcases := b.cases.kept_addAll_openList (first ++ cases)
    rw [h.owned] at hcases
    rcases b.perform_group_cases id first cases needs with ⟨-, hout⟩ | ⟨f, -, hout⟩ <;>
      rw [hout] at hfault ⊢
    · exact (hfault rfl).elim
    · exact ⟨hcases, h.groups.kept_make _⟩
  | step n s =>
    cases s with
    | dependsOn targets => exact (hfault rfl).elim
    | register id action =>
      refine ⟨?_, .refl _⟩
      rw [perform, withCases, Pool.add_of_fault hfault]
      exact h.cases.kept_make _
    | caseDependsOn id targets =>
      rw [perform, withCases, Pool.dependsOnAll_of_fault h.cases hfault]
      exact ⟨.refl _, .refl _⟩
  | addCase n c =>
    rw [perform, withCases, Pool.add_of_fault hfault]
    exact ⟨.refl _, .refl _⟩
  | addGroup r n =>
    rw [perform, withGroups, Pool.add_of_fault hfault]
    exact ⟨.refl _, .refl _⟩
  | groupDependsOn r id target =>
    rw [perform, ← Pool.dependsOnAll_singleton] at hfault ⊢
    rw [withGroups, Pool.dependsOnAll_of_fault h.groups hfault]
    exact ⟨.refl _, .refl _⟩
  | case | builder | caseNeeds | run => exact (hfault rfl).elim

/-! ## What comes of a group -/

/-- The outcome of a call is that of a declaration: the group with a number, or the fault. -/
def Comes (out : Workbench × Option Fault) (n : Nat) : Except Fault Group → Prop
  | .ok g => out.2 = none ∧ out.1.group? n = some g
  | .error f => out.2 = some f

theorem group?_eq_some_iff {n : Nat} {g : Group} : b.group? n = some g ↔
    ∃ g', b.groups.items[n]? = some g' ∧ g = { g' with cases := b.cases.siblings n } := by
  rw [group?, Option.map_eq_some_iff]
  exact exists_congr fun g' => and_congr_right fun _ => eq_comm

theorem getElem?_perform_case (b : Workbench) (id : String) (action : Option Action)
    (needs : List String) :
    (b.perform (.case id action needs)).1.cases.items[b.nextCase]? =
      some (Case.declare id action needs) := by
  have hnew : (b.cases.make { id, action }).items[b.nextCase]? = some { id, action } :=
    List.getElem?_concat_length
  rw [perform, withCases, Pool.items_declareAll, List.getElem?_modify_eq, hnew]
  rfl

/-- A new group with its needs. -/
theorem getElem?_openGroup (b : Workbench) (id : String) (needs : List String) :
    ((b.openGroup id).groups.declareAll b.nextGroup needs).items[b.nextGroup]? =
      some { toItem := Item.dependsOnAll { id } needs } := by
  have hnew : (b.openGroup id).groups.items[b.nextGroup]? = some { id } :=
    List.getElem?_concat_length
  rw [Pool.items_declareAll, List.getElem?_modify_eq, hnew]
  rfl

/-- A group that is declared from cases is what it is declared to be. -/
theorem perform_group (h : b.Sound) (id : String) (first cases : List Nat) (needs : List String) :
    Comes (b.perform (.group id first cases needs)) b.nextGroup
      (Group.declare id (b.casesAt first) (b.casesAt cases) needs) := by
  have hsplit : b.casesAt first ++ b.casesAt cases = b.casesAt (first ++ cases) :=
    List.filterMap_append.symm
  have hfault : ((b.openGroup id).cases.addAll b.nextGroup (first ++ cases)).2 =
      (repeated? [] ((b.casesAt first ++ b.casesAt cases).map (·.id))).map
        (.duplicateId .case) := by
    rw [Pool.addAll_fault (h.nextGroup_lt id), h.siblings_nextGroup id, hsplit, casesAt,
      List.map_filterMap]
    rfl
  rcases b.perform_group_cases id first cases needs with ⟨hf, hout⟩ | ⟨f, hf, hout⟩ <;>
    rw [hf] at hfault <;> rw [hout]
  · have hn : ((b.casesAt first ++ b.casesAt cases).map (·.id)).Nodup :=
      (repeated?_eq_none_iff List.nodup_nil).1 (Option.map_eq_none_iff.1 hfault.symm)
    have hcases := Pool.siblings_addAll (h.nextGroup_lt id) hf
    rw [h.siblings_nextGroup id] at hcases
    rw [Group.declare_eq_ok hn, hsplit]
    refine ⟨rfl, group?_eq_some_iff.2 ⟨_, getElem?_openGroup b id needs, ?_⟩⟩
    rw [hcases]
    rfl
  · obtain ⟨id', hid, rfl⟩ := Option.map_eq_some_iff.1 hfault.symm
    have herror : ({ id } : Group).addCases (b.casesAt first ++ b.casesAt cases) =
        .error (.duplicateId .case id') := Group.addCases_eq_error hid
    rw [Group.declare, herror]
    rfl

/-- A group has its list of cases. -/
theorem Sound.list_lt (h : b.Sound) {n : Nat} {g : Group} (hg : b.group? n = some g) :
    n < b.cases.lists.length := by
  obtain ⟨g', hg', -⟩ := group?_eq_some_iff.1 hg
  rw [h.owned]
  exact (List.getElem?_eq_some_iff.1 hg').1

/-- What adding a case makes of the list of a group it makes of the group. -/
theorem comes_addCase {n : Nat} {g : Group} (hg : b.groups.items[n]? = some g) {c : Case}
    {out : Pool Case × Option Fault} (hgives : Pool.Gives out n ((b.cases.siblings n).add c)) :
    Comes (b.withCases out) n (({ g with cases := b.cases.siblings n } : Group).addCase c) := by
  rw [Group.addCase]
  cases hadd : (b.cases.siblings n).add c with
  | ok l =>
    rw [hadd] at hgives
    obtain ⟨hnone, rfl⟩ := hgives
    exact ⟨hnone, group?_eq_some_iff.2 ⟨g, hg, rfl⟩⟩
  | error f =>
    rw [hadd] at hgives
    exact hgives

/-- Adding a case to a group is adding it to the group as it is now. -/
theorem perform_addCase (h : b.Sound) {n c : Nat} {g : Group} {a : Case}
    (hg : b.group? n = some g) (ha : b.cases.items[c]? = some a) :
    Comes (b.perform (.addCase n c)) n (g.addCase a) := by
  have hgives := Pool.add_gives (h.list_lt hg) ha
  obtain ⟨g', hg', rfl⟩ := group?_eq_some_iff.1 hg
  exact comes_addCase hg' hgives

/-- A builder starts with an empty group. -/
theorem perform_builder (h : b.Sound) (id : String) :
    Comes (b.perform (.builder id)) b.nextGroup (Group.build id []) := by
  refine ⟨rfl, group?_eq_some_iff.2 ⟨{ id }, List.getElem?_concat_length, ?_⟩⟩
  rw [perform, h.siblings_nextGroup]

/-- A step does to a group what it does to the group as it is now. -/
theorem perform_step (h : b.Sound) {n : Nat} {g : Group} (hg : b.group? n = some g)
    (s : Group.Step) : Comes (b.perform (.step n s)) n (g.apply s) := by
  obtain ⟨g', hg', rfl⟩ := group?_eq_some_iff.1 hg
  cases s with
  | dependsOn targets =>
    refine ⟨rfl, group?_eq_some_iff.2
      ⟨{ g' with toItem := g'.toItem.dependsOnAll targets }, ?_, rfl⟩⟩
    rw [perform, withGroups, Pool.items_declareAll, List.getElem?_modify_eq, hg']
    rfl
  | register id action =>
    have hgives : Pool.Gives ((b.cases.make { id, action }).add n b.nextCase) n
        (((b.cases.make { id, action }).siblings n).add { id, action }) :=
      Pool.add_gives (h.list_lt hg) List.getElem?_concat_length
    rw [h.cases.siblings_make] at hgives
    exact comes_addCase hg' hgives
  | caseDependsOn id targets =>
    rw [perform, Group.apply]
    rcases Pool.dependsOnAll_cases h.cases n id targets with ⟨m, hm, hout⟩ | ⟨hid, hout⟩ <;>
      rw [hout]
    · rw [Group.caseDependsOnAll_eq_ok (h.cases.distinct n) (Pool.mem_ids_of_member hm)]
      refine ⟨rfl, group?_eq_some_iff.2 ⟨g', hg', ?_⟩⟩
      rw [withCases, Pool.siblings_declareAll h.cases hm]
      rfl
    · cases targets with
      | nil => exact ⟨rfl, hg⟩
      | cons t ts =>
        rw [Group.caseDependsOnAll, Group.caseDependsOn, Siblings.dependsOn_eq_error hid]
        rfl

/-! ## All calls -/

/-- Lists and dependencies only grow at their ends. -/
theorem perform_grows (h : b.Sound) (call : Call) :
    b.cases.Grows (b.perform call).1.cases ∧ b.groups.Grows (b.perform call).1.groups := by
  suffices hj : b.cases.journal <+: (b.perform call).1.cases.journal ∧
      b.groups.journal <+: (b.perform call).1.groups.journal from
    ⟨h.cases.grows (h.perform call).cases hj.1, h.groups.grows (h.perform call).groups hj.2⟩
  cases call with
  | case id action needs =>
    exact ⟨(b.cases.make { id, action }).journal_declareAll b.nextCase needs, List.prefix_rfl⟩
  | group id first cases needs =>
    have hadded := (b.openGroup id).cases.journal_addAll b.nextGroup (first ++ cases)
    rcases b.perform_group_cases id first cases needs with ⟨-, hout⟩ | ⟨f, -, hout⟩ <;> rw [hout]
    · exact ⟨hadded, (b.openGroup id).groups.journal_declareAll b.nextGroup needs⟩
    · exact ⟨hadded, List.prefix_rfl⟩
  | builder id => exact ⟨List.prefix_rfl, List.prefix_rfl⟩
  | step n s =>
    cases s with
    | dependsOn targets => exact ⟨List.prefix_rfl, b.groups.journal_declareAll n targets⟩
    | register id action =>
      exact ⟨(b.cases.make { id, action }).journal_add n b.nextCase, List.prefix_rfl⟩
    | caseDependsOn id targets =>
      exact ⟨Pool.journal_dependsOnAll h.cases n id targets, List.prefix_rfl⟩
  | addCase n c => exact ⟨b.cases.journal_add n c, List.prefix_rfl⟩
  | caseNeeds c targets => exact ⟨b.cases.journal_declareAll c targets, List.prefix_rfl⟩
  | run => exact ⟨List.prefix_rfl, List.prefix_rfl⟩
  | addGroup r n => exact ⟨List.prefix_rfl, b.groups.journal_add r n⟩
  | groupDependsOn r id target =>
    rw [perform, ← Pool.dependsOnAll_singleton]
    exact ⟨List.prefix_rfl, Pool.journal_dependsOnAll h.groups r id [target]⟩

/-- What holds of all that has been declared, and of any call that comes next. -/
structure Lawful (b : Workbench) : Prop where
  sound : b.Sound
  caseNeeds : ∀ n, (b.cases.needs n).Nodup
  groupNeeds : ∀ n, (b.groups.needs n).Nodup
  /-- A name finds the one case of a group that has it. -/
  findsCase : ∀ k id c, (b.cases.siblings k).get? id = some c ↔
    c ∈ (b.cases.siblings k).items ∧ c.id = id
  /-- A name finds the one group of a run that has it. -/
  findsGroup : ∀ k id g, (b.groups.siblings k).get? id = some g ↔
    g ∈ (b.groups.siblings k).items ∧ g.id = id
  fault : ∀ call, (b.perform call).2 = b.complaint? call
  kept : ∀ call, (b.perform call).2 ≠ none →
    b.cases.Kept (b.perform call).1.cases ∧ b.groups.Kept (b.perform call).1.groups
  grows : ∀ call,
    b.cases.Grows (b.perform call).1.cases ∧ b.groups.Grows (b.perform call).1.groups
  makes : ∀ id action needs,
    (b.perform (.case id action needs)).1.cases.items[b.nextCase]? =
      some (Case.declare id action needs)
  declares : ∀ id first cases needs, Comes (b.perform (.group id first cases needs)) b.nextGroup
    (Group.declare id (b.casesAt first) (b.casesAt cases) needs)
  builds : ∀ id, Comes (b.perform (.builder id)) b.nextGroup (Group.build id [])
  steps : ∀ n g, b.group? n = some g → ∀ s, Comes (b.perform (.step n s)) n (g.apply s)
  addsCase : ∀ n g, b.group? n = some g → ∀ c a, b.cases.items[c]? = some a →
    let out := b.perform (.addCase n c)
    Comes out n (g.addCase a) ∧ b.cases.KeptBut n out.1.cases ∧ out.1.groups = b.groups
  /-- What is declared of a case shows in every list that it stands in. -/
  needsCase : ∀ c targets,
    let out := b.perform (.caseNeeds c targets)
    b.cases.Needing c targets out.1.cases ∧ out.1.groups = b.groups
  addsGroup : ∀ r < b.groups.lists.length, ∀ n g, b.groups.items[n]? = some g →
    let out := b.perform (.addGroup r n)
    Pool.Gives (out.1.groups, out.2) r ((b.groups.siblings r).add g) ∧
      b.groups.KeptBut r out.1.groups ∧ out.1.cases = b.cases
  /-- What is declared by way of a run is declared of the one group that has the name there. -/
  needsGroup : ∀ r id target,
    let out := b.perform (.groupDependsOn r id target)
    Pool.Gives (out.1.groups, out.2) r
        (((b.groups.siblings r).dependsOn id target).map (·.1)) ∧
      (∀ n, b.groups.member? r id = some n → b.groups.Needing n [target] out.1.groups) ∧
      out.1.cases = b.cases

/-- Whatever calls came before, and whichever of them raised a fault: the names in a list are
distinct, and so are the dependencies of an item, which stand in the order of their declaration; a
fault is raised only by what adds a name again or declares something of a name that is not there,
and leaves all lists and all dependencies alone; a call that raises none records what it says. -/
theorem after_lawful (calls : List Call) : (after calls).Lawful := by
  have h := after_sound calls
  let b := after calls
  have hnodup {α : Type} [WorkItem α] {p : Pool α} (hp : p.Sound) (n : Nat) :
      (p.needs n).Nodup := by
    rw [hp.declared]
    exact List.nodup_eraseDups _
  exact {
    sound := h
    caseNeeds := hnodup h.cases
    groupNeeds := hnodup h.groups
    findsCase := fun k _ _ => Siblings.get?_eq_some_iff (h.cases.distinct k)
    findsGroup := fun k _ _ => Siblings.get?_eq_some_iff (h.groups.distinct k)
    fault := perform_fault h
    kept := fun _ => kept_of_fault h
    grows := perform_grows h
    makes := getElem?_perform_case _
    declares := perform_group h
    builds := perform_builder h
    steps := fun _ _ => perform_step h
    addsCase := fun n _ hg c _ ha =>
      ⟨perform_addCase h hg ha, b.cases.add_keptBut n c, rfl⟩
    needsCase := fun c targets => ⟨b.cases.declareAll_needing c targets, rfl⟩
    addsGroup := fun r hr n _ hg => ⟨Pool.add_gives hr hg, b.groups.add_keptBut r n, rfl⟩
    needsGroup := fun r id target => ⟨Pool.dependsOn_gives h.groups r id target,
      fun _ hn => Pool.dependsOn_needing h.groups hn target, rfl⟩ }

/-- A case is made twice in one group and something is declared of a case that is not there; the
calls between and after them do what they would have done. -/
example : let b := after [.builder "net", .step 0 (.register "send" none),
      .step 0 (.register "send" none), .step 0 (.caseDependsOn "close" ["send"]),
      .step 0 (.caseDependsOn "send" ["connect", "close", "connect"]),
      .case "connect" none ["host"], .addCase 0 2, .group "disk" [2] [0, 2] [],
      .step 0 (.caseDependsOn "connect" ["disk", "host"])]
    (b.group? 0).map (fun g => g.cases.items.map fun c => (c.id, c.needs)) =
      some [("send", ["connect", "close"]), ("connect", ["host", "disk"])] := by
  cbv

end Workbench
end RankRunner
