import RankRunner.Proofs.Outcome
import RankRunner.Proofs.Siblings.Groups
import RankRunner.Proofs.Siblings.Passes

/-! # What is expected of a run

The results of a run are the statuses and the counters that remain. What they ought to be is
defined by recursion over the dependencies of the groups and of the cases, for cases with a fixed
outcome, and does not depend on ranks (`Run.expected_congr`). -/

namespace RankRunner

structure CaseResult where
  id : String
  status : Status
  notRun : Bool
  deriving DecidableEq, Repr

structure GroupResult where
  id : String
  status : Status
  notRun : Bool
  synopsis : Synopsis
  cases : List CaseResult
  deriving DecidableEq, Repr

structure RunResult where
  groups : List GroupResult
  synopsis : Synopsis
  deriving DecidableEq, Repr

def Case.result (c : Case) : CaseResult := ⟨c.id, c.status, c.notRun⟩

def Group.result (g : Group) : GroupResult :=
  ⟨g.id, g.status, g.notRun, g.synopsis, g.cases.items.map (·.result)⟩

def Run.result (r : Run) : RunResult := ⟨r.groups.items.map (·.result), r.synopsis⟩

/-- The counters of a list of cases. -/
def CaseResult.synopsis (cs : List CaseResult) : Synopsis :=
  cs.foldl (fun s c => s.count c.status c.notRun) {}

/-- The counters of a list of groups together. -/
def GroupResult.total (gs : List GroupResult) : Synopsis :=
  gs.foldl (fun s g => s.merge g.synopsis) {}

/-- A good case passes when it is called. -/
def Case.Good (c : Case) : Prop := c.verdict = .success

/-- A good group passes when it is entered: all of its cases pass. -/
def Group.Good (g : Group) : Prop := ∀ c ∈ g.cases.items, g.cases.Passes Case.Good c.id

open Classical

/-- A case is called if its group is entered and all it depends on passes. -/
noncomputable def Case.expected (l : Siblings Case) (entered : Prop) (c : Case) : CaseResult :=
  ⟨c.id, if entered ∧ l.Ready Case.Good c then c.verdict else .skipped, false⟩

/-- A group is entered if all it depends on passes. To skip a group is a failure of it, if there
is a case to be skipped. -/
noncomputable def Group.expected (l : Siblings Group) (g : Group) : GroupResult where
  id := g.id
  status :=
    if l.Ready Group.Good g then if g.Good then .success else .failure
    else if g.cases.items = [] then .skipped else .failure
  notRun := false
  synopsis := CaseResult.synopsis (g.cases.items.map (·.expected g.cases (l.Ready Group.Good g)))
  cases := g.cases.items.map (·.expected g.cases (l.Ready Group.Good g))

noncomputable def Run.expected (r : Run) : RunResult :=
  let groups := r.groups.items.map (·.expected r.groups)
  ⟨groups, GroupResult.total groups⟩

/-- The calls that are due in a list of cases. -/
noncomputable def Siblings.dueCalls (l : Siblings Case) : List Call :=
  (l.items.filter (decide <| l.Ready Case.Good ·)).flatMap (·.calls)

/-- The calls that are due in a run: those of the groups that are entered. -/
noncomputable def Run.dueCalls (r : Run) : List Call :=
  (r.groups.items.filter (decide <| r.groups.Ready Group.Good ·)).flatMap (·.cases.dueCalls)

/-- The exit code tells whether every group passes. -/
noncomputable def Run.expectedCode (r : Run) : Nat :=
  if ∀ g ∈ r.groups.items, r.groups.Passes Group.Good g.id then 0 else 1

theorem Synopsis.count_passed (s : Synopsis) (status : Status) (notRun : Bool) :
    (s.count status notRun).passed =
      s.passed + if status = .success ∧ notRun = false then 1 else 0 := by
  unfold count
  split
  · next hn => simp [hn]
  · next hn =>
    by_cases hs : status = .success
    · simp [hn, hs]
    · simp only [hs, if_false, false_and, Int.add_zero]
      repeat' split
      all_goals rfl

/-- The counters of a list of cases, `s` having been counted before. -/
theorem CaseResult.synopsis_total_passed (cs : List CaseResult) (s : Synopsis) :
    let t := cs.foldl (fun s c => s.count c.status c.notRun) s
    t.total = s.total + cs.length ∧
      t.passed = s.passed + cs.countP fun c => c.status = .success ∧ c.notRun = false := by
  induction cs generalizing s with
  | nil => exact ⟨(Int.add_zero _).symm, (Int.add_zero _).symm⟩
  | cons c cs ih =>
    obtain ⟨htotal, hpassed⟩ := ih (s.count c.status c.notRun)
    simp only [List.foldl_cons, List.length_cons, List.countP_cons, htotal, hpassed,
      Synopsis.count_total, Synopsis.count_passed, decide_eq_true_iff]
    constructor
    · omega
    · split <;> push_cast <;> omega

theorem CaseResult.allPassed_iff (cs : List CaseResult) : (synopsis cs).allPassed = true ↔
    ∀ c ∈ cs, c.status = .success ∧ c.notRun = false := by
  obtain ⟨htotal, hpassed⟩ := synopsis_total_passed cs {}
  have hall : (synopsis cs).allPassed = true ↔
      cs.countP (fun c => c.status = .success ∧ c.notRun = false) = cs.length := by
    rw [Synopsis.allPassed, beq_iff_eq]
    change Synopsis.passed (cs.foldl _ _) = Synopsis.total (cs.foldl _ _) ↔ _
    rw [htotal, hpassed]
    change (0 : Int) + _ = 0 + _ ↔ _
    omega
  rw [hall, List.countP_eq_length]
  simp

theorem Group.recount_eq (g : Group) :
    g.recount = CaseResult.synopsis (g.cases.items.map (·.result)) := by
  rw [recount, CaseResult.synopsis, List.foldl_map]
  rfl

theorem Case.expected_success_iff {l : Siblings Case} {entered : Prop} {c : Case} (hn : l.ids.Nodup)
    (hc : c ∈ l.items) :
    (c.expected l entered).status = .success ↔ entered ∧ l.Passes Case.Good c.id := by
  have hp : l.Passes Good (WorkItem.id c) ↔ _ := Siblings.passes_iff hn hc
  change _ ↔ entered ∧ l.Passes Case.Good (WorkItem.id c)
  rw [hp]
  simp only [expected]
  split
  · next h => exact ⟨fun hv => ⟨h.1, hv, h.2⟩, fun hp => hp.2.1⟩
  · next h => exact ⟨fun hv => absurd hv (by decide), fun hp => absurd ⟨hp.1, hp.2.2⟩ h⟩

theorem Group.allPassed_expected_iff (entered : Prop) {g : Group} (hn : g.cases.ids.Nodup) :
    (CaseResult.synopsis (g.cases.items.map (·.expected g.cases entered))).allPassed = true ↔
      ∀ c ∈ g.cases.items, entered ∧ g.cases.Passes Case.Good c.id := by
  rw [CaseResult.allPassed_iff, List.forall_mem_map]
  exact forall₂_congr fun c hc => (and_iff_left rfl).trans (Case.expected_success_iff hn hc)

theorem Group.expected_success_iff {l : Siblings Group} {g : Group} (hn : l.ids.Nodup)
    (hg : g ∈ l.items) : (g.expected l).status = .success ↔ l.Passes Good g.id := by
  refine Iff.trans ?_ (Siblings.passes_iff hn hg).symm
  simp only [expected]
  split
  · next hr =>
    split
    · next hgood => exact iff_of_true rfl ⟨hgood, hr⟩
    · next hgood => exact iff_of_false (by decide) fun hp => hgood hp.1
  · next hr =>
    refine iff_of_false (fun hs => ?_) fun hp => hr hp.2
    split at hs <;> cases hs

theorem Group.succeededFully_iff (g : Group) : g.succeededFully = true ↔
    (g.result.status = .success ∧ g.result.notRun = false) ∧
      ∀ c ∈ g.result.cases, c.status = .success ∧ c.notRun = false := by
  simp [succeededFully, Item.succeeded, result, Case.result]

theorem Run.exitCode_eq_expectedCode {r s : Run} (hn : r.groups.ids.Nodup)
    (hcases : ∀ g ∈ r.groups.items, g.cases.ids.Nodup) (h : s.result = r.expected) :
    s.exitCode = r.expectedCode := by
  have hall : s.groups.items.map (·.result) = r.groups.items.map (·.expected r.groups) :=
    congrArg RunResult.groups h
  have hpassed : s.groups.items.all (·.succeededFully) = true ↔
      ∀ g ∈ r.groups.items, r.groups.Passes Group.Good g.id := by
    have hmap := List.forall_mem_map (f := Group.result) (l := s.groups.items) (P := fun g =>
      (g.status = .success ∧ g.notRun = false) ∧
        ∀ c ∈ g.cases, c.status = .success ∧ c.notRun = false)
    rw [List.all_eq_true]
    refine (forall₂_congr fun g _ => g.succeededFully_iff).trans (hmap.symm.trans ?_)
    rw [hall, List.forall_mem_map]
    refine forall₂_congr fun g hg => ?_
    rw [Group.expected_success_iff hn hg]
    refine ⟨fun h => h.1.1, fun h => ⟨⟨h, rfl⟩, ?_⟩⟩
    obtain ⟨hgood, hready⟩ := (Siblings.passes_iff hn hg).1 h
    refine List.forall_mem_map.2 fun c hc => ⟨?_, rfl⟩
    exact (Case.expected_success_iff (hcases g hg) hc).2 ⟨hready, hgood c hc⟩
  exact if_congr hpassed rfl rfl

variable {l l' : Siblings Case} {gs gs' : Siblings Group} {c c' : Case} {g g' : Group} {r r' : Run}

theorem Case.action_of_reranked (h : WorkItem.Reranked c c') : c'.action = c.action := by
  rw [h.1]
  rfl

theorem Case.id_of_reranked (h : WorkItem.Reranked c c') : c'.id = c.id := h.2.id

theorem Case.verdict_of_reranked (h : WorkItem.Reranked c c') : c'.verdict = c.verdict := by
  simp only [verdict, outcome, action_of_reranked h]

theorem Case.calls_of_reranked (h : WorkItem.Reranked c c') : c'.calls = c.calls := by
  simp only [calls, action_of_reranked h, id_of_reranked h]

theorem Case.Steady.of_reranked (hs : c.Steady) (h : WorkItem.Reranked c c') : c'.Steady := by
  have ha := action_of_reranked h
  exact ⟨ha ▸ hs.ending, ha ▸ hs.request, ha ▸ hs.signal, ha ▸ hs.fatal⟩

theorem Case.Surviving.of_reranked (hs : c.Surviving) (h : WorkItem.Reranked c c') :
    c'.Surviving :=
  ⟨hs.toSteady.of_reranked h, action_of_reranked h ▸ hs.survives⟩

theorem Case.good_of_reranked (h : WorkItem.Reranked c c') : c.Good ↔ c'.Good := by
  rw [Good, Good, verdict_of_reranked h]

theorem Siblings.ready_of_reranked (hl : List.Forall₂ WorkItem.Reranked l.items l'.items)
    (h : WorkItem.Reranked c c') : l.Ready Case.Good c ↔ l'.Ready Case.Good c' :=
  ready_congr hl (fun _ _ h => h.2.id) (fun _ _ h => h.2.needs)
    (fun _ _ h => Case.good_of_reranked h) h

theorem Case.expected_of_reranked (hl : List.Forall₂ WorkItem.Reranked l.items l'.items)
    {entered entered' : Prop} (he : entered ↔ entered') (h : WorkItem.Reranked c c') :
    c'.expected l' entered' = c.expected l entered := by
  simp only [expected, id_of_reranked h, verdict_of_reranked h, Siblings.ready_of_reranked hl h, he]

theorem Group.Prepared.cases (h : g.Prepared g') :
    List.Forall₂ WorkItem.Reranked g.cases.items g'.cases.items := by
  rw [h.eq]
  exact (Siblings.sequence_reranked g.cases).1

theorem Group.Prepared.good (h : g.Prepared g') : g.Good ↔ g'.Good := by
  have hp (t : String) : g.cases.Passes Case.Good t ↔ g'.cases.Passes Case.Good t :=
    Siblings.passes_congr h.cases (fun _ _ h => h.2.id) (fun _ _ h => h.2.needs)
      fun _ _ h => Case.good_of_reranked h
  unfold Good
  constructor
  · intro hg c' hc'
    obtain ⟨c, hc, hcc⟩ := h.cases.exists_of_mem_right hc'
    exact Case.id_of_reranked hcc ▸ (hp _).1 (hg c hc)
  · intro hg c hc
    obtain ⟨c', hc', hcc⟩ := h.cases.exists_of_mem_left hc
    exact (hp _).2 (Case.id_of_reranked hcc ▸ hg c' hc')

theorem Siblings.ready_of_prepared (hl : List.Forall₂ Group.Prepared gs.items gs'.items)
    (h : g.Prepared g') : gs.Ready Group.Good g ↔ gs'.Ready Group.Good g' :=
  ready_congr hl (fun _ _ h => h.item.id) (fun _ _ h => h.item.needs) (fun _ _ h => h.good) h

theorem Group.expected_of_prepared (hl : List.Forall₂ Group.Prepared gs.items gs'.items)
    (h : g.Prepared g') : g'.expected gs' = g.expected gs := by
  have hready := Siblings.ready_of_prepared hl h
  have hempty : g.cases.items = [] ↔ g'.cases.items = [] := by
    rw [← List.length_eq_zero_iff, ← List.length_eq_zero_iff, h.cases.length_eq]
  have hcases : g'.cases.items.map (·.expected g'.cases (gs'.Ready Good g')) =
      g.cases.items.map (·.expected g.cases (gs.Ready Good g)) :=
    List.map_eq_of_forall₂ h.cases fun c c' hc => Case.expected_of_reranked h.cases hready hc
  simp only [expected, hcases, hready, h.good, hempty, h.item.id]

/-- What is expected does not depend on ranks. -/
theorem Run.expected_congr (h : List.Forall₂ Group.Prepared r.groups.items r'.groups.items) :
    r'.expected = r.expected := by
  have := List.map_eq_of_forall₂ h fun _ _ hg => Group.expected_of_prepared h hg
  simp only [expected, this]

theorem Siblings.dueCalls_of_reranked (hl : List.Forall₂ WorkItem.Reranked l.items l'.items) :
    l'.dueCalls = l.dueCalls :=
  List.flatMap_filter_eq_of_forall₂ hl
    (fun _ _ h => decide_eq_decide.2 (ready_of_reranked hl h).symm)
    fun _ _ h => Case.calls_of_reranked h

theorem Run.dueCalls_congr (h : List.Forall₂ Group.Prepared r.groups.items r'.groups.items) :
    r'.dueCalls = r.dueCalls :=
  List.flatMap_filter_eq_of_forall₂ h
    (fun _ _ hg => decide_eq_decide.2 (Siblings.ready_of_prepared h hg).symm)
    fun _ _ hg => Siblings.dueCalls_of_reranked hg.cases

end RankRunner
