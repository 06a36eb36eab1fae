import RankRunner.Action
import RankRunner.Siblings
import RankRunner.Synopsis
import RankRunner.Usage

/-! Cases, groups of cases, and the run that holds the groups; their counters, and the exit code
of a finished run. -/

namespace RankRunner

/-- A work item with a function to call; without one it always passes. -/
structure Case extends Item where
  action : Option Action := none
  pid : Option Int := none
  usage : Option Usage := none
  deriving Repr, Inhabited

structure Group extends Item where
  cases : Siblings Case := {}
  synopsis : Synopsis := {}
  deriving Repr, Inhabited

instance : WorkItem Case where
  kind := .case
  item := Case.toItem
  setItem i c := { c with toItem := i }
  skip c := { c with status := .skipped }
  item_setItem _ _ := rfl
  setItem_item _ := rfl
  setItem_setItem _ _ _ := rfl
  item_skip _ := rfl

/-- A skipped group takes all of its cases along. -/
def Group.skip (g : Group) : Group :=
  { g with
    status := .skipped
    cases := { g.cases with items := g.cases.items.map fun c => { c with status := .skipped } } }

instance : WorkItem Group where
  kind := .group
  item := Group.toItem
  setItem i g := { g with toItem := i }
  skip := Group.skip
  item_setItem _ _ := rfl
  setItem_item _ := rfl
  setItem_setItem _ _ _ := rfl
  item_skip _ := rfl

@[simp] theorem Case.workItem_item (c : Case) : WorkItem.item c = c.toItem := rfl

@[simp] theorem Group.workItem_item (g : Group) : WorkItem.item g = g.toItem := rfl

namespace Siblings

def positionOfPid? (l : Siblings Case) (pid : Option Int) : Option Nat :=
  l.items.findIdx? (·.pid == pid)

def byPid? (l : Siblings Case) (pid : Option Int) : Option Case := l.items.find? (·.pid == pid)

def live (l : Siblings Case) : List Case := l.items.filter (·.pid.isSome)

end Siblings

namespace Group

def recount (g : Group) : Synopsis :=
  g.cases.items.foldl (fun s c => s.count c.status c.notRun) {}

/-- Set the counters of the group. A group passes only if all of its cases did. -/
def account (g : Group) : Group :=
  let synopsis := g.recount
  { g with synopsis, status := if synopsis.allPassed then g.status else .failure }

def succeededFully (g : Group) : Bool := g.succeeded && g.cases.items.all (·.succeeded)

@[simp] theorem account_synopsis (g : Group) : g.account.synopsis = g.recount := rfl

@[simp] theorem account_cases (g : Group) : g.account.cases = g.cases := rfl

end Group

/-- A run: its groups, how it runs, where its report goes, and its counters. -/
structure Run where
  id : String
  groups : Siblings Group := {}
  sandboxed : Bool := true
  maxParallel : Int := 1
  outfile : String := "report.txt"
  format : String := "txt"
  synopsis : Synopsis := {}
  host : String := ""
  start : Option Timestamp := none
  stop : Option Timestamp := none
  deriving Repr, Inhabited

namespace Run

def cases (r : Run) : List Case := r.groups.items.flatMap (·.cases.items)

def aggregate (r : Run) : Run :=
  let groups := r.groups.items.map Group.account
  { r with
    groups := { r.groups with items := groups }
    synopsis := groups.foldl (fun s g => s.merge g.synopsis) {} }

/-- Zero exactly when every group and every case succeeded. -/
def exitCode (r : Run) : Nat := if r.groups.items.all (·.succeededFully) then 0 else 1

@[simp] theorem aggregate_groups (r : Run) :
    r.aggregate.groups.items = r.groups.items.map Group.account := rfl

theorem exitCode_eq_zero_iff (r : Run) :
    r.exitCode = 0 ↔ ∀ g ∈ r.groups.items, g.succeededFully = true := by
  simp [exitCode]

end Run
end RankRunner
