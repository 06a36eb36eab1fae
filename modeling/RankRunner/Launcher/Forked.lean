import RankRunner.Call
import RankRunner.Launcher

/-! A launcher that runs each case in a child process of its own. The children live in a table that
stands for the system: it says which of them can be started, in what order they end, and which
errors and signals come between. -/

namespace RankRunner

inductive WaitEvent where
  | nothing
  | fails (r : Raised)
  /-- The system reports a status word of a process that is not in the table. -/
  | status (pid word : Int)
  /-- A signal arrives while the wait blocks. -/
  | signal (n : Int)
  /-- A signal arrives at the end of the next blocking wait. -/
  | late (n : Int)
  /-- The child at a place among the living ends before the older ones. -/
  | overtakes (place : Nat)
  deriving Repr, Inhabited

structure ProcessTable where
  attempts : Nat := 0
  nextPid : Int := 1001
  /-- The children and the status words they end with, the oldest first. -/
  live : List (Int × Int) := []
  failing : List (Nat × Raised) := []
  /-- The events of the next waits for any child. -/
  events : List WaitEvent := []
  /-- The processes that no wait by number finds. -/
  lost : List Int := []
  usages : List (Int × Usage) := []
  deriving Repr, Inhabited

namespace ProcessTable

def usage (t : ProcessTable) (pid : Int) : Usage := (t.usages.lookup pid).getD .zero

/-- Let the child at a place end first. -/
def overtake (place : Nat) (t : ProcessTable) : ProcessTable :=
  { t with live := (t.live[place]?).toList ++ t.live.eraseIdx place }

def noChildren : Raised := .system 10 "No child processes"

end ProcessTable

/-- A launcher of child processes over a table, which may share the flag of the run or have one of
its own that nobody sets. -/
structure Forked where
  table : ProcessTable := {}
  /-- Whether a blocked wait marks the flag of the run, so that signals break the wait off. -/
  shares : Bool := false
  deriving Repr, Inhabited

namespace Forked

/-- A launcher that is made with a flag. A flag that has not been set counts as none, and without a
flag the launcher has one of its own. -/
def make (table : ProcessTable) (flag : Option Interruption) : Forked :=
  { table, shares := flag.any (·.requested) }

/-- The launcher of a run. One that is given takes over the flag of the run; where none is given,
one is made with that flag. -/
def ofRun (flag : Interruption) (table : ProcessTable) : Option Forked → Forked
  | some given => { given with shares := true }
  | none => make table (some flag)

def updateTable (f : ProcessTable → ProcessTable) : Effect (Host Forked) Unit :=
  modify fun h => { h with backend := { h.backend with table := f h.backend.table } }

/-- Signals that do nothing to a process that does not handle them: no signal at all, those that
are ignored unless handled, and two that the runner ignores from its start. -/
def harmlessSignals : List Int := [0, 13, 17, 18, 23, 25, 28]

/-- The status word of a child that receives a signal, if the signal ends it. A number that is no
signal is an error. -/
def killedWord? (n : Int) : Option Int :=
  if harmlessSignals.contains n then none
  else if isSignal n then some n
  else some (Completion.exitWord Status.aborted.code)

/-- The signals that a child receives in a call. Those that come through the system reach the
child, which handles none itself. -/
def childSignals (h : Host Forked) (d : Deed) : List Int :=
  (if h.filtered then d.signal.toList else []) ++ d.killSelf.toList

/-- The status word a case ends with as a child. The child has a copy of everything, of which only
the status word comes back, and all that it raises but a failed assertion is an abnormal end. -/
def childWord (c : Case) (h : Host Forked) : Int :=
  let deed := c.action.map fun a => a.deed (h.timesCalled a.key)
  match ((deed.map (childSignals h)).getD []).findSome? killedWord? with
  | some word => word
  | none =>
    match c.call.run h with
    | .ok code _ => Completion.exitWord code
    | .error _ _ => Completion.exitWord Status.aborted.code

def start (_ : Siblings Case) (c : Case) : Effect (Host Forked) Int := do
  let h ← get
  let t := h.backend.table
  updateTable ({ · with attempts := t.attempts + 1 })
  match t.failing.lookup t.attempts with
  | some r => Effect.raise r
  | none =>
    updateTable fun t => { t with
      nextPid := t.nextPid + 1
      live := t.live ++ [(t.nextPid, childWord c h)] }
    return t.nextPid

/-- Collect the oldest child. -/
def collect : Effect (Host Forked) (Int × Int × Usage) := do
  let t := (← get).backend.table
  match t.live with
  | [] => Effect.raise ProcessTable.noChildren
  | (pid, word) :: live =>
    updateTable ({ · with live })
    return (pid, word, t.usage pid)

/-- Wait for any child, after the next event. -/
def collectAny : Effect (Host Forked) (Int × Int × Usage) := do
  let t := (← get).backend.table
  updateTable ({ · with events := t.events.tail })
  match t.events.headD .nothing with
  | .nothing => collect
  | .fails r => Effect.raise r
  | .status pid word => return (pid, word, t.usage pid)
  | .signal n =>
    Host.deliver n
    collect
  | .late n =>
    modify fun h => { h with interruption := { h.interruption with late := some n } }
    collect
  | .overtakes place =>
    updateTable (.overtake place)
    collect

/-- Wait for any child, so that signals of the run break the wait off if the flag is shared. A
signal that comes after the child was collected leaves the completion as it is. -/
def blockingCollect : Effect (Host Forked) (Int × Int × Usage) := do
  if (← get).backend.shares then
    let (done, _) ← Host.blocking collectAny
    return done
  else collectAny

def completion (done : Int × Int × Usage) : Effect (Host Forked) Completion :=
  Effect.ofExcept (Completion.decode done.1 done.2.1 (some done.2.2))

def isNoChild : Failure → Bool
  | .raised r => r.isNoChild
  | .fault _ => false

def isInterrupted : Failure → Bool
  | .raised r => r.isInterrupted
  | .fault _ => false

def waitAny : Effect (Host Forked) (Option Completion) := do
  match ← blockingCollect.attempt with
  | .ok done => return some (← completion done)
  | .error f => if isNoChild f then return none else throw f

def collectOne (pid : Int) : Effect (Host Forked) (Int × Int × Usage) := do
  let t := (← get).backend.table
  match t.live.lookup pid with
  | none => Effect.raise ProcessTable.noChildren
  | some word =>
    if t.lost.contains pid then Effect.raise ProcessTable.noChildren
    updateTable ({ · with live := t.live.eraseP (·.1 == pid) })
    return (pid, word, t.usage pid)

/-- The number that stands for any child. -/
def anyPid : Int := -1

def wait (pid : Int) : Effect (Host Forked) Completion := do
  let done ← if pid = anyPid then collectAny else collectOne pid
  completion done

/-- So many waits for any child can be answered: each takes an event or a child away. -/
def patience (h : Host Forked) : Nat :=
  h.backend.table.events.length + h.backend.table.live.length

/-- Collect children until none is left, at most `fuel` times, and count them from `n` on. -/
def drainFrom : Nat → Int → Effect (Host Forked) Int
  | 0, n => return n
  | fuel + 1, n => do
    match ← collectAny.attempt with
    | .ok _ => drainFrom fuel (n + 1)
    | .error f =>
      if isInterrupted f then drainFrom fuel n
      else if isNoChild f then return n
      else throw f

def drain : Effect (Host Forked) Int := do drainFrom (patience (← get) + 1) 0

/-- The launcher. Killing a child that has ended already is no failure. -/
def launcher : Launcher Forked where
  start
  wait
  waitAny
  kill _ := pure ()
  drain
  patience h := patience h + 1

end Forked
end RankRunner
