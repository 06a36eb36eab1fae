import RankRunner.Call
import RankRunner.Launcher

/-! A launcher without processes: a case runs to its end as it is started, and its completion is
kept until someone waits for it. -/

namespace RankRunner

structure InProcess where
  nextPid : Int := 1
  /-- The completions that nobody has waited for, the oldest first. -/
  done : List Completion := []
  deriving Repr, Inhabited

namespace InProcess

/-- The completion of a case that raised something. -/
def abortSignal : Int := 6

def push (c : Completion) : Effect (Host InProcess) Unit :=
  modify fun h => { h with backend := { h.backend with done := h.backend.done ++ [c] } }

def start (_ : Siblings Case) (c : Case) : Effect (Host InProcess) Int := do
  let pid := (← get).backend.nextPid
  modify fun h => { h with backend := { h.backend with nextPid := pid + 1 } }
  match ← c.call.attempt with
  | .ok code => push { pid := some pid, exit := some code }
  | .error f =>
    if f.isFatal then throw f
    Host.warn (c.raisedText f)
    push { pid := some pid, signal := some abortSignal }
  return pid

def wait (pid : Int) : Effect (Host InProcess) Completion := do
  let done := (← get).backend.done
  match done.find? (·.pid == some pid) with
  | none => Effect.raise (.noSuchChild pid)
  | some c =>
    modify fun h => { h with
      backend := { h.backend with done := h.backend.done.eraseP (·.pid == some pid) } }
    return c

def waitAny : Effect (Host InProcess) (Option Completion) := do
  match (← get).backend.done with
  | [] => return none
  | c :: done =>
    modify fun h => { h with backend := { h.backend with done } }
    return some c

def drain : Effect (Host InProcess) Int := do
  let n := (← get).backend.done.length
  modify fun h => { h with backend := { h.backend with done := [] } }
  return n

/-- The launcher. There is never anything to kill. -/
def launcher : Launcher InProcess where
  start
  wait
  waitAny
  kill _ := pure ()
  drain
  patience h := h.backend.done.length

end InProcess
end RankRunner
