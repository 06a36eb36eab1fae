import RankRunner.Proofs.Declaration.Needs

/-! # Two styles of declaration

A group that is built step by step is the same as one that is declared from its finished cases, as
long as the steps declare the same (`Group.build_eq_declare`), and so it is ranked alike. What a
list of steps comes to does not depend on how they are interleaved: it is told by what the steps
register and by what they declare of each case and of the group, one after the other
(`Group.ofSteps`), if nothing is declared of a case that has not been registered
(`Group.InOrder`). -/

namespace RankRunner

/-- What is to be declared of a case: its name, its function and the siblings it needs. -/
structure CasePlan where
  id : String
  action : Option Action := none
  needs : List String := []

namespace CasePlan

/-- The case that is declared at once. -/
def case (p : CasePlan) : Case := Case.declare p.id p.action p.needs

@[simp] theorem case_id (p : CasePlan) : p.case.id = p.id := Item.dependsOnAll_id ..

/-- The plan with some more needs. -/
def needing (p : CasePlan) (targets : List String) : CasePlan :=
  { p with needs := p.needs ++ targets }

theorem case_needing (p : CasePlan) (targets : List String) : (p.needing targets).case =
    { p.case with toItem := p.case.toItem.dependsOnAll targets } := by
  simp only [case, needing, Case.declare, Item.dependsOnAll_append]

theorem needing_nil (p : CasePlan) : p.needing [] = p := by
  rw [needing, List.append_nil]

end CasePlan

namespace Group

/-! ## What steps declare -/

namespace Step

def registered? : Step → Option (String × Option Action)
  | .register id action => some (id, action)
  | .dependsOn _ | .caseDependsOn _ _ => none

/-- The case that the step declares something of. -/
def dependent? : Step → Option String
  | .caseDependsOn id _ => some id
  | .register _ _ | .dependsOn _ => none

/-- What the step declares that the group needs. -/
def groupNeeds : Step → List String
  | .dependsOn targets => targets
  | .register _ _ | .caseDependsOn _ _ => []

/-- What the step declares that a case needs. -/
def needsOf (id : String) : Step → List String
  | .caseDependsOn id' targets => if id' = id then targets else []
  | .register _ _ | .dependsOn _ => []

end Step

def registered (steps : List Step) : List (String × Option Action) :=
  steps.filterMap Step.registered?

/-- A case is registered before anything is declared of it. -/
def InOrder (steps : List Step) : Prop :=
  ∀ k, ∀ h : k < steps.length, ∀ id ∈ steps[k].dependent?,
    id ∈ (registered (steps.take k)).map (·.1)

/-- The steps register the cases of the plans in their order, and declare of each case and of the
group what it needs, be it in one step or in many. -/
structure Declares (steps : List Step) (plans : List CasePlan) (needs : List String) : Prop where
  registered : registered steps = plans.map fun p => (p.id, p.action)
  cases : ∀ p ∈ plans, steps.flatMap (·.needsOf p.id) = p.needs
  group : steps.flatMap (·.groupNeeds) = needs
  inOrder : InOrder steps

def plansOf (steps : List Step) : List CasePlan :=
  (registered steps).map fun (id, action) => ⟨id, action, steps.flatMap (·.needsOf id)⟩

/-- The group that steps come to, told by what they declare. -/
def ofSteps (id : String) (steps : List Step) : Group where
  toItem := Item.dependsOnAll { id } (steps.flatMap (·.groupNeeds))
  cases := { items := (plansOf steps).map (·.case) }

/-! ## Cases and their needs in a group -/

variable {g : Group} {id : String}

theorem addCase_of_notMem {c : Case} (h : c.id ∉ g.cases.ids) : g.addCase c =
    .ok { g with cases := { g.cases with items := g.cases.items ++ [c] } } := by
  rw [addCase, Siblings.add_of_notMem h]
  rfl

theorem addCases_eq_ok {cs : List Case} (h : (g.cases.ids ++ cs.map (·.id)).Nodup) :
    g.addCases cs = .ok { g with cases := { g.cases with items := g.cases.items ++ cs } } := by
  induction cs generalizing g with
  | nil => rw [List.append_nil, addCases]
  | cons c cs ih =>
    have hnew : c.id ∉ g.cases.ids := fun hm =>
      (List.nodup_append.1 h).2.2 c.id hm c.id (by simp) rfl
    rw [addCases, addCase_of_notMem hnew]
    have hids : (g.cases.ids ++ [c.id] ++ cs.map (·.id)).Nodup := by
      rwa [List.append_assoc]
    refine (ih ?_).trans (by simp)
    rw [Siblings.ids, List.map_append]
    exact hids

theorem addCases_eq_error {cs : List Case}
    (h : repeated? g.cases.ids (cs.map (·.id)) = some id) :
    g.addCases cs = .error (.duplicateId .case id) := by
  induction cs generalizing g with
  | nil => cases h
  | cons c cs ih =>
    rw [List.map_cons, repeated?] at h
    rw [addCases]
    split at h
    · next hmem =>
      cases h
      rw [addCase, Siblings.add_eq_error hmem]
      rfl
    · next hmem =>
      rw [addCase_of_notMem hmem]
      refine ih ?_
      rwa [Siblings.ids, List.map_append]

/-- What is declared of a case by way of its group is declared of the case. -/
theorem caseDependsOnAll_eq_ok (hn : g.cases.ids.Nodup) (hid : id ∈ g.cases.ids)
    (targets : List String) : g.caseDependsOnAll id targets = .ok
      { g with cases := { g.cases with
        items := g.cases.items.map fun c =>
          if c.id = id then { c with toItem := c.toItem.dependsOnAll targets } else c } } := by
  induction targets generalizing g with
  | nil => simp [caseDependsOnAll, Item.dependsOnAll]
  | cons t ts ih =>
    obtain ⟨d, hd⟩ := Siblings.dependsOn_eq_ok hn hid t
    have hkept := Siblings.ids_dependsOn hd
    rw [caseDependsOnAll, caseDependsOn, hd]
    refine (ih (hkept ▸ hn) (hkept ▸ hid)).trans ?_
    have hcase (c : Case) : WorkItem.id c = c.id := rfl
    simp only [List.map_map, hcase]
    refine congrArg (fun items => Except.ok { g with cases := { g.cases with items } })
      (List.map_congr_left fun c _ => ?_)
    by_cases hc : c.id = id
    · have hc' : (WorkItem.update (·.dependsOn t) c).id = id := (Item.dependsOn_id ..).trans hc
      simp only [Function.comp_apply, if_pos hc, if_pos hc']
      rfl
    · simp [hc]

/-! ## Step by step -/

theorem applyAll_append (g : Group) (ss ts : List Step) :
    g.applyAll (ss ++ ts) = (g.applyAll ss).bind (·.applyAll ts) := by
  induction ss generalizing g with
  | nil => rfl
  | cons s ss ih =>
    rw [List.cons_append, applyAll, applyAll]
    cases g.apply s with
    | error f => rfl
    | ok g' => exact ih g'

theorem InOrder.of_append {ss ts : List Step} (h : InOrder (ss ++ ts)) : InOrder ss := by
  intro k hk id hid
  have hmem := h k (by rw [List.length_append]; omega) id (by rwa [List.getElem_append_left hk])
  rwa [List.take_append_of_le_length (Nat.le_of_lt hk)] at hmem

theorem ids_ofSteps (id : String) (steps : List Step) :
    (ofSteps id steps).cases.ids = (registered steps).map (·.1) := by
  simp only [ofSteps, Siblings.ids, plansOf, List.map_map]
  exact List.map_congr_left fun p _ => Item.dependsOnAll_id ..

/-- Nothing was declared of a case that is not registered. -/
theorem InOrder.needsOf_eq_nil {steps : List Step} (h : InOrder steps)
    (hid : id ∉ (registered steps).map (·.1)) : steps.flatMap (·.needsOf id) = [] := by
  refine List.flatMap_eq_nil_iff.2 fun s hs => ?_
  obtain ⟨k, hk, rfl⟩ := List.mem_iff_getElem.1 hs
  cases hstep : steps[k] with
  | caseDependsOn id' targets =>
    have hmem := h k hk id' (by simp [hstep, Step.dependent?])
    have hsub : (registered (steps.take k)).Sublist (registered steps) :=
      (List.take_sublist k steps).filterMap _
    have hne : id' ≠ id := by
      rintro rfl
      exact hid ((hsub.map _).subset hmem)
    exact if_neg hne
  | register | dependsOn => rfl

theorem plansOf_register (steps : List Step) (id : String) (action : Option Action) :
    plansOf (steps ++ [.register id action]) =
      plansOf steps ++ [⟨id, action, steps.flatMap (·.needsOf id)⟩] := by
  simp [plansOf, registered, Step.registered?, Step.needsOf]

theorem plansOf_of_unregistered (steps : List Step) {s : Step} (h : s.registered? = none) :
    plansOf (steps ++ [s]) = (plansOf steps).map fun p => p.needing (s.needsOf p.id) := by
  simp [plansOf, registered, h, CasePlan.needing]

/-- The next step makes of what the steps before it come to what it comes to with them. -/
theorem apply_ofSteps {steps : List Step} {s : Step}
    (hn : ((registered (steps ++ [s])).map (·.1)).Nodup) (h : InOrder (steps ++ [s])) :
    (ofSteps id steps).apply s = .ok (ofSteps id (steps ++ [s])) := by
  have hsplit : ((registered steps).map (·.1) ++ (registered [s]).map (·.1)).Nodup := by
    rwa [registered, List.filterMap_append, List.map_append] at hn
  rw [ofSteps, ofSteps, List.flatMap_append, Item.dependsOnAll_append]
  cases s with
  | dependsOn targets =>
    rw [plansOf_of_unregistered steps rfl]
    simp [apply, Step.groupNeeds, Step.needsOf, CasePlan.needing_nil]
  | register id' action =>
    have hnew : id' ∉ (registered steps).map (·.1) := fun hm =>
      (List.nodup_append.1 hsplit).2.2 id' hm id' (by simp [registered, Step.registered?]) rfl
    rw [plansOf_register, h.of_append.needsOf_eq_nil hnew, apply,
      addCase_of_notMem (by rwa [← ids_ofSteps id] at hnew)]
    simp [Step.groupNeeds, CasePlan.case, Case.declare, Item.dependsOnAll]
  | caseDependsOn id' targets =>
    have hid : id' ∈ (ofSteps id steps).cases.ids := by
      rw [ids_ofSteps]
      have hmem := h steps.length (by simp) id' (by simp [Step.dependent?])
      rwa [List.take_left] at hmem
    have hdistinct : (ofSteps id steps).cases.ids.Nodup := by
      rw [ids_ofSteps]
      exact (List.nodup_append.1 hsplit).1
    have hcases : ((plansOf steps).map (·.case)).map (fun c =>
          if c.id = id' then { c with toItem := c.toItem.dependsOnAll targets } else c) =
        (plansOf (steps ++ [.caseDependsOn id' targets])).map (·.case) := by
      rw [plansOf_of_unregistered steps rfl, List.map_map, List.map_map]
      refine List.map_congr_left fun p _ => ?_
      simp only [Function.comp_apply, CasePlan.case_id, CasePlan.case_needing, Step.needsOf]
      by_cases hp : p.id = id'
      · rw [if_pos hp, if_pos hp.symm]
      · rw [if_neg hp, if_neg (Ne.symm hp)]
        rfl
    rw [← hcases, apply]
    exact caseDependsOnAll_eq_ok hdistinct hid targets

theorem build_eq_ok {steps : List Step} (hn : ((registered steps).map (·.1)).Nodup)
    (h : InOrder steps) (id : String) : build id steps = .ok (ofSteps id steps) := by
  -- From the end: what a case needs is told by all steps, also by those after its registration.
  induction steps using List.reverseRecOn with
  | nil => rfl
  | append_singleton steps s ih =>
    have hbefore : ((registered steps).map (·.1)).Nodup :=
      (List.nodup_append.1 (by simpa [registered] using hn)).1
    have hsteps := ih hbefore h.of_append
    rw [build] at hsteps ⊢
    rw [applyAll_append, hsteps]
    show (do let g ← (ofSteps id steps).apply s; g.applyAll []) = _
    rw [apply_ofSteps hn h]
    rfl

theorem declare_eq_ok {first rest : List Case} (hn : ((first ++ rest).map (·.id)).Nodup)
    (id : String) (needs : List String) : declare id first rest needs = .ok
      { toItem := Item.dependsOnAll { id } needs, cases := { items := first ++ rest } } := by
  rw [declare, addCases_eq_ok (by simpa [Siblings.ids] using hn)]
  rfl

theorem Declares.ofSteps_eq {steps : List Step} {plans : List CasePlan} {needs : List String}
    (h : Declares steps plans needs) (id : String) : ofSteps id steps =
      { toItem := Item.dependsOnAll { id } needs, cases := { items := plans.map (·.case) } } := by
  have hplans : plansOf steps = plans := by
    rw [plansOf, h.registered, List.map_map]
    exact (List.map_congr_left fun p hp => by simp [h.cases p hp]).trans (List.map_id _)
  rw [ofSteps, hplans, h.group]

/-- However its declaration is interleaved, a group that is built step by step is the one that is
declared from its finished cases, wherever their list is divided in two. Its cases stand in the
order of their registration, and the group and each case need what was declared, every name once and
in the place where it came first. -/
theorem build_eq_declare (plans : List CasePlan) (hn : (plans.map (·.id)).Nodup)
    (needs : List String) (steps : List Step) (h : Declares steps plans needs) (id : String) :
    ∃ g, build id steps = .ok g ∧
      (∀ first rest, first ++ rest = plans.map (·.case) →
        declare id first rest needs = .ok g) ∧
      g.id = id ∧ g.needs = needs.eraseDups ∧ g.cases.items = plans.map (·.case) ∧
      ∀ p : CasePlan, p.case.id = p.id ∧ p.case.action = p.action ∧
        p.case.needs = p.needs.eraseDups := by
  have hnone (id : String) : Item.needs { id } = ([] : List String).eraseDups := rfl
  have hids : ((registered steps).map (·.1)).Nodup := by
    rw [h.registered, List.map_map]
    exact hn
  have hbuild := build_eq_ok hids h.inOrder id
  rw [h.ofSteps_eq id] at hbuild
  refine ⟨_, hbuild, fun first rest hcases => ?_, Item.dependsOnAll_id .., ?_, rfl, fun p => ?_⟩
  · rw [← hcases]
    refine declare_eq_ok ?_ id needs
    rw [hcases, List.map_map]
    have hmap : plans.map ((·.id) ∘ (·.case)) = plans.map (·.id) :=
      List.map_congr_left fun p _ => CasePlan.case_id p
    rwa [hmap]
  · exact Item.needs_dependsOnAll (hnone id) needs
  · exact ⟨p.case_id, rfl, Item.needs_dependsOnAll (hnone p.id) p.needs⟩

def netPlans : List CasePlan := [
  { id := "connect", action := some ⟨0, []⟩ },
  { id := "send", action := some ⟨1, []⟩, needs := ["connect", "close", "connect"] },
  { id := "close", needs := ["connect"] }]

/-- Steps of all kinds in turn, with names that are declared again. -/
def netSteps : List Step := [
  .dependsOn ["host"], .register "connect" (some ⟨0, []⟩), .register "send" (some ⟨1, []⟩),
  .caseDependsOn "send" ["connect"], .dependsOn ["disk", "host"], .register "close" none,
  .caseDependsOn "close" ["connect"], .caseDependsOn "send" ["close", "connect"]]

theorem netSteps_declares : Declares netSteps netPlans ["host", "disk", "host"] where
  registered := rfl
  cases := by decide
  group := rfl
  inOrder := by
    unfold InOrder
    decide

theorem build_net_eq_declare : (netPlans.map (·.id)).Nodup ∧
    Declares netSteps netPlans ["host", "disk", "host"] ∧
    ∃ g, build "net" netSteps = .ok g ∧
      declare "net" [Case.declare "connect" (some ⟨0, []⟩) []]
        [Case.declare "send" (some ⟨1, []⟩) ["connect", "close", "connect"],
          Case.declare "close" none ["connect"]] ["host", "disk", "host"] = .ok g ∧
      g.needs = ["host", "disk"] ∧
      g.cases.items.map (·.needs) = [[], ["connect", "close"], ["connect"]] := by
  have hn : (netPlans.map (·.id)).Nodup := by decide
  obtain ⟨g, hbuild, hdeclare, -, hneeds, hcases, hcase⟩ :=
    build_eq_declare netPlans hn _ netSteps netSteps_declares "net"
  refine ⟨hn, netSteps_declares, g, hbuild, hdeclare _ _ rfl, hneeds.trans (by decide), ?_⟩
  have hmap : (netPlans.map (·.case)).map (·.needs) = netPlans.map fun p => p.needs.eraseDups := by
    rw [List.map_map]
    exact List.map_congr_left fun p _ => (hcase p).2.2
  rw [hcases, hmap]
  decide

end Group
end RankRunner
