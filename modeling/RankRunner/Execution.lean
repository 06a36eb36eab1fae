import RankRunner.Schedule.BailOut
import RankRunner.Schedule.Chunks
import RankRunner.Schedule.Inline
import RankRunner.Sequence

/-! Running a whole suite: its groups are ranked and scheduled, the cases of each group are
scheduled within it, and at the end everything is counted. -/

namespace RankRunner

/-- How the cases of a run are dispatched. -/
structure Regime where
  sandboxed : Bool
  /-- How many children may be alive at a time. -/
  limit : Nat
  limit_pos : 0 < limit

/-- The regime that a run asks for. -/
def Regime.ofRun? (r : Run) : Except Raised Regime :=
  if h : 0 < r.maxParallel.toNat then .ok ⟨r.sandboxed, r.maxParallel.toNat, h⟩
  else .error (.badValue s!"max_parallel must be >= 1, got {r.maxParallel}")

/-- How the handlers of signals are put in place for a run, and how those that were there before
are put back. -/
structure Handling (σ : Type) where
  install : Effect (Host σ) Unit := pure ()
  restore : Effect (Host σ) Unit := pure ()

structure Session (σ : Type) where
  run : Run
  host : Host σ

namespace Session

variable {σ α : Type}

def onHost (x : Effect (Host σ) α) : Effect (Session σ) α :=
  x.zoom (·.host) fun host s => { s with host }

def onGroups (x : Effect (Scope Group σ) α) : Effect (Session σ) α :=
  x.zoom (fun s => ⟨s.run.groups, s.host⟩) fun t s =>
    { run := { s.run with groups := t.list }, host := t.host }

end Session

namespace Execution

variable {σ α : Type}

def onCases (pos : Nat) (x : Effect (Scope Case σ) α) : Effect (Scope Group σ) α :=
  x.zoom (fun s => ⟨((s.list.items[pos]?).map (·.cases)).getD {}, s.host⟩) fun t s =>
    { list := s.list.modify pos fun g => { g with cases := t.list }, host := t.host }

def runCases (regime : Regime) (launcher : Launcher σ) : Effect (Scope Case σ) Unit :=
  if regime.sandboxed then Schedule.scheduleChunks launcher regime.limit
  else Schedule.schedule Schedule.runInline

/-- Run the group at a place. If the run was asked to stop meanwhile, it ends here. -/
def runGroup (regime : Regime) (launcher : Launcher σ) (pos : Nat) :
    Effect (Scope Group σ) Unit := do
  let tell (text : Console → Group → Shown) : Effect (Scope Group σ) Unit := do
    match ← Scope.at? pos with
    | none => pure ()
    | some g => Scope.onHost do Host.say (text (← get).console g)
  tell Console.groupStart
  Scope.stampStart pos
  onCases pos (runCases regime launcher)
  Scope.stampStop pos
  Scope.modifyAt pos Group.account
  tell Console.groupResult
  if ← Scope.requested then
    let reason ← Effect.ofExcept (← get).host.interruption.describe
    onCases pos (Schedule.bailOut launcher reason)

/-- The group with its cases after a bail-out: collecting any of them settles its list. -/
def withCollected (g : Group) (items : List Case) : Group :=
  let collected := (g.cases.items.zip items).any fun (before, after) =>
    before.pid.isSome && after.pid.isNone
  let outstanding := if collected then 0 else g.cases.outstanding
  { g with cases := { g.cases with items, outstanding } }

/-- Give each group its own of the cases of all groups. -/
def distribute : List Group → List Case → List Group
  | [], _ => []
  | g :: gs, cases =>
    let n := g.cases.items.length
    withCollected g (cases.take n) :: distribute gs (cases.drop n)

/-- Bail out over the cases of all groups. -/
def bailOutAll (launcher : Launcher σ) (reason : String) : Effect (Session σ) Unit :=
  (Schedule.bailOut launcher reason).zoom (fun s => ⟨{ items := s.run.cases }, s.host⟩) fun t s =>
    let items := distribute s.run.groups.items t.list.items
    { run := { s.run with groups := { s.run.groups with items } }, host := t.host }

def sequence : Effect (Session σ) Unit := do
  let s ← get
  let (run, fault) := s.run.sequence
  set { s with run }
  match fault with
  | some f => Effect.fail f
  | none => pure ()

/-- Dispatch the groups. To be asked to stop between groups ends the run too. -/
def dispatch (regime : Regime) (launcher : Launcher σ) : Effect (Session σ) Unit := do
  Session.onGroups (Schedule.schedule (runGroup regime launcher))
  let h := (← get).host
  if h.requested then
    let reason ← Effect.ofExcept h.interruption.describe
    Effect.fail (.cancelled reason)

/-- Mark the end of the run, restore the handlers of signals and count everything. -/
def close (handling : Handling σ) : Effect (Session σ) Unit := do
  let t ← Session.onHost Host.now
  modify fun s => { s with run := { s.run with stop := some t } }
  Session.onHost handling.restore
  modify fun s => { s with run := s.run.aggregate }

/-- Run a suite under handlers of signals, which are installed once everything has been ranked and
restored in the end, however that comes. -/
def runSuiteUnder (handling : Handling σ) (regime : Regime) (launcher : Launcher σ) :
    Effect (Session σ) Nat := do
  sequence
  let graph := (← get).run.dump
  Session.onHost do Host.say ((← get).console.graph graph)
  Session.onHost handling.install
  let t ← Session.onHost Host.now
  modify fun s => { s with run := { s.run with start := some t } }
  (dispatch regime launcher).ensuring (close handling)
  return (← get).run.exitCode

/-- Run a suite. Which signals reach the run is known to the host, so that nothing remains to be
installed. -/
def runSuite (regime : Regime) (launcher : Launcher σ) : Effect (Session σ) Nat :=
  runSuiteUnder {} regime launcher

end Execution
end RankRunner
