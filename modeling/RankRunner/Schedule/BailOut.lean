import RankRunner.Launcher
import RankRunner.Schedule.Scope

/-! Stopping a run at once: every running child is killed and waited for, and whatever else is
still around is collected. -/

namespace RankRunner.Schedule

variable {σ : Type}

def killAll (launcher : Launcher σ) : List Nat → Effect (Scope Case σ) Unit
  | [] => pure ()
  | pos :: rest => do
    match ← Scope.at? pos with
    | some { id, pid := some pid, .. } =>
      Scope.onHost do
        Host.debugging s!"bail-out: killing {id} (pid={pid})"
        launcher.kill pid
    | _ => pure ()
    killAll launcher rest

/-- Wait for one child. It may have been collected already, by a wait that was broken off. -/
def awaitKilled (launcher : Launcher σ) (pid : Int) :
    Effect (Host σ) (Option Completion) := do
  match ← (launcher.wait pid).attempt with
  | .ok c => return some c
  | .error (.raised r) => if r.isNoChild then return none else Effect.raise r
  | .error f => throw f

/-- Wait for the child of the case at a place, which is aborted. -/
def abort (launcher : Launcher σ) (pos : Nat) : Effect (Scope Case σ) Unit := do
  match ← Scope.at? pos with
  | some { pid := some pid, .. } =>
    let done ← Scope.onHost (awaitKilled launcher pid)
    Scope.modifyAt pos ({ · with pid := none })
    Scope.stampStop pos
    Scope.modifyAt pos ({ · with status := .aborted })
    match done with
    | some c => Scope.modifyAt pos ({ · with usage := c.usage })
    | none => pure ()
    modify fun s => { s with list := { s.list with outstanding := 0 } }
  | _ => pure ()

def abortAll (launcher : Launcher σ) : List Nat → Effect (Scope Case σ) Unit
  | [] => pure ()
  | pos :: rest => do
    abort launcher pos
    abortAll launcher rest

def livePositions (l : Siblings Case) : List Nat :=
  (List.range l.items.length).filter fun pos => (l.items[pos]?).any (·.pid.isSome)

/-- Kill and collect every running child of the list, then end with the fault that tells of it. -/
def bailOut (launcher : Launcher σ) (reason : String) : Effect (Scope Case σ) Unit := do
  let list := (← get).list
  let live := livePositions list
  killAll launcher live
  abortAll launcher live
  let drained ← Scope.onHost launcher.drain
  Scope.onHost (Host.debugging s!"bail-out: drained {drained} more child process(es)")
  Effect.fail (.bailedOut reason (list.live.map (·.id)) drained)

end RankRunner.Schedule
