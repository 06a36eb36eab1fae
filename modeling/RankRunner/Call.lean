import RankRunner.Host
import RankRunner.Run
import RankRunner.Value.Integer

/-! Calling the function of a case, and turning the outcome into an exit code. -/

namespace RankRunner

variable {σ : Type}

def Action.perform (a : Action) (id : String) : Effect (Host σ) Value := do
  let d := a.deed ((← get).timesCalled a.key)
  Host.record (.body a.key id)
  modify fun h => { h with clock := h.clock.advance d.advance }
  match d.print with
  | some text => Host.say (.onOut (text ++ "\n"))
  | none => pure ()
  if d.request then Host.request
  match d.signal with
  | some n => Host.deliver n
  | none => pure ()
  match d.ending with
  | .returns v => return v
  | .raises f => throw f

namespace Case

/-- Exit codes of processes are below this. -/
def exitCodes : Int := 256

/-- The exit code for what a case function returned: nothing is success, and a number that is no
exit code is a failure. -/
def codeOf (c : Case) : Value → Effect (Host σ) Int
  | .null => return Status.success.code
  | v => do
    let n ← Effect.ofExcept v.toInt
    if 0 ≤ n ∧ n < exitCodes then return n
    Host.warn s!"{c.id}: exit status {n} out of range, counted as failure"
    return Status.failure.code

/-- Call the function of a case. A failed assertion is a failure of the case, and everything else
that is raised is left to the caller. -/
def call (c : Case) : Effect (Host σ) Int := do
  match c.action with
  | none => return Status.success.code
  | some a =>
    match ← (a.perform c.id).attempt with
    | .ok v => c.codeOf v
    | .error f => if f.isAssertion then return Status.failure.code else throw f

def raisedText (c : Case) (f : Failure) : String := s!"{c.id}: raised {f.name}: {f.text}"

/-- The status for an exit code. An unexpected code is kept and reported. -/
def statusOf (c : Case) (code : Int) : Effect (Host σ) Status := do
  if !(Status.mk code).isExpected then Host.warn s!"{c.id}: suspicious exit status {code}"
  return ⟨code⟩

end Case
end RankRunner
