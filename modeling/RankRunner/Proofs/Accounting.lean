import Mathlib.Algebra.BigOperators.Group.List.Basic
import Mathlib.Algebra.Ring.Int.Defs
import RankRunner.Run

/-! # Accounting

Each work item has one `Standing`, whatever its status and whether or not it was run. The counters
of a group tell how many of its cases have each standing (`Group.recount_counts`), and those of the
run are the sums of those of its groups (`Synopsis.counter_merged`). A group whose cases did not all
succeed is a failure; the exit code, which looks at the groups and the cases itself, comes to the
same conclusion (`Group.account_succeededFully`). -/

namespace RankRunner

/-- What a work item is counted as. -/
inductive Standing where
  | passed
  | failed
  | aborted
  | skipped
  | notRun
  deriving DecidableEq, Repr

namespace Standing

/-- Whether an item of that status, run or not, has the standing. An item that was not run has no
other standing, and every status without a standing of its own is a failure. -/
def Holds (status : Status) (notRun : Bool) : Standing → Prop
  | .passed => notRun = false ∧ status = .success
  | .aborted => notRun = false ∧ status = .aborted
  | .skipped => notRun = false ∧ status = .skipped
  | .failed => notRun = false ∧ status ∉ [.success, .aborted, .skipped]
  | .notRun => notRun = true

instance (status : Status) (notRun : Bool) : DecidablePred (Holds status notRun)
  | .passed | .aborted | .skipped | .failed => inferInstanceAs (Decidable (_ ∧ _))
  | .notRun => inferInstanceAs (Decidable (_ = _))

/-- The standing in which an item is found by asking for one after the other. -/
def find (status : Status) (notRun : Bool) : Standing :=
  if notRun then .notRun
  else if status = .success then .passed
  else if status = .aborted then .aborted
  else if status = .skipped then .skipped
  else .failed

theorem holds_iff {status : Status} {notRun : Bool} {k : Standing} :
    k.Holds status notRun ↔ find status notRun = k := by
  have hpassed : Status.success ≠ .aborted ∧ Status.success ≠ .skipped := by decide
  have haborted : Status.aborted ≠ .skipped := by decide
  unfold find
  split_ifs with hrun hsuccess habort hskip
  all_goals cases k <;> simp_all [Holds, Ne.symm]

theorem existsUnique_holds (status : Status) (notRun : Bool) :
    ∃! k : Standing, k.Holds status notRun :=
  ⟨find status notRun, holds_iff.2 rfl, fun _ hk => (holds_iff.1 hk).symm⟩

end Standing

namespace Synopsis

def counter (s : Synopsis) : Standing → Int
  | .passed => s.passed
  | .failed => s.failed
  | .aborted => s.aborted
  | .skipped => s.skipped
  | .notRun => s.notRun

/-- The counters tell how many of the cases there are in all, and of each standing. -/
structure Counts (s : Synopsis) (cs : List Case) : Prop where
  total : s.total = cs.length
  counter : ∀ k, s.counter k = cs.countP fun c => k.Holds c.status c.notRun
  balanced : s.Balanced

theorem counts_nil : ({} : Synopsis).Counts [] where
  total := rfl
  counter k := by cases k <;> rfl
  balanced := rfl

theorem counter_count (s : Synopsis) (status : Status) (notRun : Bool) (k : Standing) :
    (s.count status notRun).counter k =
      s.counter k + if k.Holds status notRun then 1 else 0 := by
  simp only [Standing.holds_iff]
  unfold count Standing.find
  split_ifs <;> cases k <;> simp_all [counter]

theorem counter_merge (s t : Synopsis) (k : Standing) :
    (s.merge t).counter k = s.counter k + t.counter k := by
  cases k <;> rfl

variable {s t : Synopsis} {cs ds : List Case}

theorem Counts.count (h : s.Counts cs) (c : Case) :
    (s.count c.status c.notRun).Counts (cs ++ [c]) where
  total := by
    rw [count_total, h.total, List.length_append]
    rfl
  counter k := by
    rw [counter_count, h.counter, List.countP_append, List.countP_singleton]
    split_ifs <;> simp_all
  balanced := h.balanced.count c.status c.notRun

theorem Counts.foldl (h : s.Counts cs) :
    (ds.foldl (fun s c => s.count c.status c.notRun) s).Counts (cs ++ ds) := by
  induction ds generalizing s cs with
  | nil => rwa [List.append_nil]
  | cons d ds ih =>
    have := ih (h.count d)
    rwa [List.append_assoc] at this

theorem Counts.merge (h : s.Counts cs) (h' : t.Counts ds) : (s.merge t).Counts (cs ++ ds) where
  total := by
    rw [List.length_append, Synopsis.merge, h.total, h'.total]
    rfl
  counter k := by
    rw [counter_merge, h.counter, h'.counter, List.countP_append]
    rfl
  balanced := h.balanced.merge h'.balanced

/-- The counters of groups that are merged count the cases of all of them. -/
theorem Counts.merged {gs : List Group} (h : s.Counts cs)
    (hgs : ∀ g ∈ gs, g.synopsis.Counts g.cases.items) :
    (gs.foldl (fun s g => s.merge g.synopsis) s).Counts (cs ++ gs.flatMap (·.cases.items)) := by
  induction gs generalizing s cs with
  | nil => rwa [List.flatMap_nil, List.append_nil]
  | cons g gs ih =>
    have hg := h.merge (hgs g List.mem_cons_self)
    have := ih hg fun g' hg' => hgs g' (List.mem_cons_of_mem _ hg')
    rwa [List.append_assoc] at this

/-- Merging adds up each counter. -/
theorem counter_merged (s : Synopsis) (gs : List Group) (k : Standing) :
    (gs.foldl (fun s g => s.merge g.synopsis) s).counter k =
      s.counter k + (gs.map (·.synopsis.counter k)).sum := by
  induction gs generalizing s with
  | nil => simp
  | cons g gs ih => rw [List.foldl_cons, ih, counter_merge, List.map_cons, List.sum_cons, add_assoc]

theorem total_merged (s : Synopsis) (gs : List Group) :
    (gs.foldl (fun s g => s.merge g.synopsis) s).total =
      s.total + (gs.map (·.synopsis.total)).sum := by
  induction gs generalizing s with
  | nil => simp
  | cons g gs ih =>
    rw [List.foldl_cons, ih, Synopsis.merge, List.map_cons, List.sum_cons, add_assoc]

theorem Counts.passed (h : s.Counts cs) : s.passed = cs.countP (·.succeeded) := by
  refine (h.counter .passed).trans (congrArg _ (List.countP_congr fun c _ => ?_))
  rw [decide_eq_true_iff]
  simp [Standing.Holds, Item.succeeded, and_comm]

theorem Counts.allPassed_iff (h : s.Counts cs) :
    s.allPassed = true ↔ ∀ c ∈ cs, c.succeeded = true := by
  rw [allPassed, beq_iff_eq, h.passed, h.total, Int.ofNat_inj, List.countP_eq_length]

end Synopsis

/-! ## Groups -/

namespace Group

theorem recount_counts (g : Group) : g.recount.Counts g.cases.items := Synopsis.counts_nil.foldl

@[simp] theorem account_notRun (g : Group) : g.account.notRun = g.notRun := rfl

theorem account_status (g : Group) :
    g.account.status = if g.recount.allPassed then g.status else .failure := rfl

theorem account_account (g : Group) : g.account.account = g.account := by
  have hstatus :
      (if g.recount.allPassed then g.account.status else .failure) = g.account.status := by
    rw [account_status]
    split_ifs <;> rfl
  have hagain : g.account.account =
      { g.account with status := if g.recount.allPassed then g.account.status else .failure } := rfl
  rw [hagain, hstatus]

/-- A group that is a success once its counters have been set is so with all of its cases. -/
theorem account_succeeded_iff (g : Group) :
    g.account.succeeded = true ↔ g.succeededFully = true := by
  rw [succeededFully, Bool.and_eq_true, List.all_eq_true, ← g.recount_counts.allPassed_iff,
    Item.succeeded, account_status, account_notRun, Item.succeeded]
  cases g.recount.allPassed with
  | true => simp
  | false => simp [Status.failure, Status.success]

theorem account_succeededFully (g : Group) : g.account.succeededFully = g.succeededFully := by
  rw [Bool.eq_iff_iff, ← account_succeeded_iff, account_account, account_succeeded_iff]

end Group

/-! ## The run -/

namespace Run

theorem aggregate_cases (r : Run) : r.aggregate.cases = r.cases := by
  rw [cases, aggregate_groups, List.flatMap_map]
  rfl

theorem aggregate_groups_counts (r : Run) :
    ∀ g ∈ r.aggregate.groups.items, g.synopsis.Counts g.cases.items := by
  intro g hg
  obtain ⟨g, -, rfl⟩ := List.mem_map.1 hg
  exact g.recount_counts

theorem aggregate_counts (r : Run) : r.aggregate.synopsis.Counts r.aggregate.cases :=
  Synopsis.counts_nil.merged r.aggregate_groups_counts

theorem aggregate_aggregate (r : Run) : r.aggregate.aggregate = r.aggregate := by
  have hgroups : (r.groups.items.map Group.account).map Group.account =
      r.groups.items.map Group.account := by
    rw [List.map_map]
    exact List.map_congr_left fun g _ => g.account_account
  unfold aggregate
  simp only [hgroups]

theorem aggregate_exitCode (r : Run) : r.aggregate.exitCode = r.exitCode := by
  have hall : (r.groups.items.map Group.account).all (·.succeededFully) =
      r.groups.items.all (·.succeededFully) := by
    rw [List.all_map]
    exact List.all_congr rfl fun g => g.account_succeededFully
  rw [exitCode, aggregate_groups, hall, exitCode]

theorem aggregate_exitCode_iff (r : Run) : r.aggregate.exitCode = 0 ↔
    ∀ g ∈ r.aggregate.groups.items, g.status = .success ∧ g.notRun = false := by
  rw [exitCode_eq_zero_iff]
  refine forall₂_congr fun g hg => ?_
  obtain ⟨g, -, rfl⟩ := List.mem_map.1 hg
  rw [g.account_succeededFully, ← g.account_succeeded_iff]
  simp [Item.succeeded]

theorem passed_of_exitCode {r : Run} (h : r.aggregate.exitCode = 0) :
    r.aggregate.synopsis.passed = r.aggregate.synopsis.total := by
  refine beq_iff_eq.1 (r.aggregate_counts.allPassed_iff.2 fun c hc => ?_)
  obtain ⟨g, hg, hc⟩ := List.mem_flatMap.1 hc
  have hfully := (exitCode_eq_zero_iff _).1 h g hg
  rw [Group.succeededFully, Bool.and_eq_true] at hfully
  exact List.all_eq_true.1 hfully.2 c hc

/-- The accounts of a run, in whatever state it is. They count the cases by standing, of which each
has one; to make them again changes nothing; and the exit code can be told by the groups alone. -/
theorem aggregate_accounts (r : Run) :
    (∀ status notRun, ∃! k : Standing, k.Holds status notRun) ∧
    (∀ g ∈ r.aggregate.groups.items, g.synopsis.Counts g.cases.items) ∧
    r.aggregate.synopsis.Counts r.aggregate.cases ∧
    r.aggregate.groups.items.map (·.cases) = r.groups.items.map (·.cases) ∧
    r.aggregate.synopsis.total = (r.aggregate.groups.items.map (·.synopsis.total)).sum ∧
    (∀ k, r.aggregate.synopsis.counter k =
      (r.aggregate.groups.items.map (·.synopsis.counter k)).sum) ∧
    r.aggregate.aggregate = r.aggregate ∧
    r.aggregate.exitCode = r.exitCode ∧
    (r.aggregate.exitCode = 0 ↔
      ∀ g ∈ r.aggregate.groups.items, g.status = .success ∧ g.notRun = false) ∧
    (r.aggregate.exitCode = 0 → r.aggregate.synopsis.passed = r.aggregate.synopsis.total) := by
  have hcases : r.aggregate.groups.items.map (·.cases) = r.groups.items.map (·.cases) := by
    rw [aggregate_groups, List.map_map]
    rfl
  have htotal := Synopsis.total_merged {} r.aggregate.groups.items
  have hcounter := Synopsis.counter_merged {} r.aggregate.groups.items
  refine ⟨Standing.existsUnique_holds, r.aggregate_groups_counts, r.aggregate_counts, hcases,
    htotal.trans (zero_add _), fun k => ?_, r.aggregate_aggregate, r.aggregate_exitCode,
    r.aggregate_exitCode_iff, passed_of_exitCode⟩
  refine (hcounter k).trans ?_
  cases k <;> exact zero_add _

end Run
end RankRunner
