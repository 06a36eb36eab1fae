import RankRunner.Call
import RankRunner.Launcher
import RankRunner.Schedule.Scope

/-! Collecting the children of a list until none of them is outstanding. -/

namespace RankRunner.Schedule

variable {σ : Type}

inductive Waited where
  | interrupted
  | exhausted
  | done (c : Completion)

/-- Wait for any child. A failing wait is a fault, unless it was only broken off. -/
def awaitAny (launcher : Launcher σ) : Effect (Scope Case σ) Waited := do
  match ← (Scope.onHost launcher.waitAny).attempt with
  | .ok (some c) => return .done c
  | .ok none => return .exhausted
  | .error (.raised r) =>
    if r.isInterrupted then return .interrupted
    else if r.isSystem then
      Effect.fail (.waitFailed r.text r.number (← get).list.outstanding)
    else Effect.raise r
  | .error f => throw f

def completedStatus (case : Case) (c : Completion) : Effect (Host σ) Status := do
  match c.signal with
  | some n =>
    Host.debugging s!"{case.id} killed by signal {n}"
    return .aborted
  | none => case.statusOf c.result

/-- Record the end of the child of the case at a place. -/
def complete (pos : Nat) (case : Case) (c : Completion) : Effect (Scope Case σ) Unit := do
  Scope.addOutstanding (-1)
  Scope.modifyAt pos ({ · with pid := none })
  Scope.stampStop pos
  let status ← Scope.onHost (completedStatus case c)
  Scope.modifyAt pos ({ · with status, usage := c.usage })
  Scope.showCase pos

def pidText (pid : Option Int) : String := (pid.map toString).getD "None"

/-- Take note of a completion, and answer whether it ended a case of the list. Completions of
strangers and of children that were only stopped end none. -/
def note (c : Completion) : Effect (Scope Case σ) Bool := do
  let list := (← get).list
  match list.positionOfPid? c.pid, list.byPid? c.pid with
  | some pos, some case =>
    if c.stopped then
      Scope.onHost
        (Host.debugging s!"{case.id} stopped (pid={pidText c.pid}), still waiting")
      return false
    complete pos case c
    return true
  | _, _ =>
    Scope.onHost (Host.debugging s!"reaped unknown child (pid={pidText c.pid})")
    return false

/-- Collect children with at most `fuel` waits, `reaped` having been collected before. -/
def reapFrom (launcher : Launcher σ) : Nat → Nat → Effect (Scope Case σ) Nat
  | 0, reaped => return reaped
  | fuel + 1, reaped => do
    if (← get).list.outstanding ≤ 0 ∨ (← Scope.requested) then return reaped
    match ← awaitAny launcher with
    | .exhausted => return reaped
    | .interrupted => reapFrom launcher fuel reaped
    | .done c =>
      if ← note c then reapFrom launcher fuel (reaped + 1)
      else reapFrom launcher fuel reaped

/-- Wait until every outstanding child of the list has been collected, and answer with their
number. To leave children outstanding is a fault. -/
def reap (launcher : Launcher σ) : Effect (Scope Case σ) Nat := do
  let reaped ← reapFrom launcher (launcher.patience (← get).host) 0
  let outstanding := (← get).list.outstanding
  if 0 < outstanding then Effect.fail (.reapIncomplete outstanding)
  return reaped

end RankRunner.Schedule
