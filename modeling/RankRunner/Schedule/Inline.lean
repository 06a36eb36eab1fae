import RankRunner.Call
import RankRunner.Schedule.Scope

/-! Running a case in the runner itself. -/

namespace RankRunner.Schedule

variable {σ : Type}

/-- Call the function of the case at a place and set its status. A case that raises is aborted,
unless what it raises stops the runner as well. -/
def runInline (pos : Nat) : Effect (Scope Case σ) Unit := do
  match ← Scope.at? pos with
  | none => pure ()
  | some c =>
    Scope.stampStart pos
    let status ← Scope.onHost do
      match ← c.call.attempt with
      | .ok code => c.statusOf code
      | .error f =>
        if f.isFatal then throw f
        Host.warn (c.raisedText f)
        return Status.aborted
    Scope.modifyAt pos ({ · with status })
    Scope.stampStop pos
    Scope.showCase pos

end RankRunner.Schedule
