import RankRunner.Launcher
import RankRunner.Schedule.Scope

/-! Starting a case in a child process. -/

namespace RankRunner.Schedule

variable {σ : Type}

def spawnFailed (c : Case) (r : Raised) : Shown :=
  Console.error "Spawn failed" s!"could not start a child process for case '{c.id}'" [r.text] ""

/-- Start the case at a place, and answer whether it was started. A case for which no child could
be started is not run, which does not stop the others. -/
def launch (launcher : Launcher σ) (pos : Nat) : Effect (Scope Case σ) Bool := do
  match ← Scope.at? pos with
  | none => return false
  | some c =>
    Scope.stampStart pos
    let siblings := (← get).list
    match ← (Scope.onHost (launcher.start siblings c)).attempt with
    | .ok pid =>
      Scope.modifyAt pos ({ · with pid := some pid })
      Scope.addOutstanding 1
      return true
    | .error (.raised r) =>
      if r.isSystem then
        Scope.onHost (Host.say (spawnFailed c r))
        Scope.modifyAt pos ({ · with notRun := true })
        Scope.stampStop pos
        return false
      else Effect.raise r
    | .error f => throw f

end RankRunner.Schedule
