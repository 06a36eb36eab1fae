import RankRunner.Launcher

/-! A launcher that follows a script. It runs nothing, and records everything it is asked for. -/

namespace RankRunner

namespace Script

inductive StartReply where
  /-- The process with the next number of the launcher's own. -/
  | next
  | pid (n : Int)
  | fails (r : Raised)
  deriving Repr, Inhabited

inductive AnyReply where
  | nothing
  | fails (r : Raised)
  /-- A completion, before which an interruption is requested or a signal arrives. -/
  | done (c : Completion) (request : Bool) (signal : Option Int)
  deriving Repr, Inhabited

inductive WaitReply where
  | noChild
  | done (c : Completion)
  deriving Repr, Inhabited

end Script

open Script

structure Scripted where
  starts : List StartReply := []
  anys : List AnyReply := []
  waits : List WaitReply := []
  drained : Int := 0
  /-- The number of the next process that the script does not number. -/
  nextPid : Int := 1001
  deriving Repr, Inhabited

namespace Scripted

/-- A child about which the script says nothing was killed. -/
def killSignal : Int := 9

def start (_ : Siblings Case) (c : Case) : Effect (Host Scripted) Int := do
  Host.record (.start c.id)
  let s := (← get).backend
  modify fun h => { h with backend := { s with starts := s.starts.tail } }
  match s.starts.headD .next with
  | .pid n => return n
  | .fails r => Effect.raise r
  | .next =>
    modify fun h => { h with backend := { h.backend with nextPid := s.nextPid + 1 } }
    return s.nextPid

def waitAny : Effect (Host Scripted) (Option Completion) := do
  Host.record .waitAny
  let s := (← get).backend
  modify fun h => { h with backend := { s with anys := s.anys.tail } }
  match s.anys.headD .nothing with
  | .nothing => return none
  | .fails r => Effect.raise r
  | .done c request signal =>
    if request then Host.request
    match signal with
    | some n => Host.deliver n
    | none => pure ()
    return some c

def wait (pid : Int) : Effect (Host Scripted) Completion := do
  Host.record (.wait pid)
  let s := (← get).backend
  modify fun h => { h with backend := { s with waits := s.waits.tail } }
  match s.waits.headD (.done { pid := some pid, signal := some killSignal }) with
  | .noChild => Effect.raise (.noSuchChild pid)
  | .done c => return c

def kill (pid : Int) : Effect (Host Scripted) Unit := Host.record (.kill pid)

def drain : Effect (Host Scripted) Int := do
  Host.record .drain
  return (← get).backend.drained

/-- The launcher. Behind the end of the script no child is left. -/
def launcher : Launcher Scripted where
  start
  wait
  waitAny
  kill
  drain
  patience h := h.backend.anys.length + 1

end Scripted
end RankRunner
