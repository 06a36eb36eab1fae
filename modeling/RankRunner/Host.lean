import RankRunner.Console
import RankRunner.Effect
import RankRunner.Interruption

/-! The surroundings of a run: the clock, the terminal, the flag that asks it to stop, and the
state of whatever starts its child processes. -/

namespace RankRunner

/-- What was called: the function of a case, or an operation of a launcher. -/
inductive Call where
  | body (key : Nat) (id : String)
  | start (id : String)
  | waitAny
  | wait (pid : Int)
  | kill (pid : Int)
  | drain
  deriving DecidableEq, Repr, Inhabited

def Call.text : Call → String
  | .body _ id => id
  | .start id => "start " ++ id
  | .waitAny => "wait_any"
  | .wait pid => s!"wait {pid}"
  | .kill pid => s!"kill {pid}"
  | .drain => "drain"

structure Host (σ : Type) where
  clock : Clock := ⟨0, (0 : Int)⟩
  console : Console := {}
  shown : Shown := {}
  calls : List Call := []
  interruption : Interruption := {}
  heedful : Bool := true
  /-- Whether signals come through the system, which passes only those to the runner that it
  handles. Otherwise all of them reach it. -/
  filtered : Bool := false
  /-- How often a chunk of children was waited for. -/
  barriers : Nat := 0
  backend : σ
  deriving Repr

namespace Host

variable {σ α : Type}

def now : Effect (Host σ) Timestamp := do
  let h ← get
  set { h with clock := h.clock.tick }
  return h.clock.reading

def say (text : Shown) : Effect (Host σ) Unit :=
  modify fun h => { h with shown := h.shown ++ text }

def debugging (message : String) : Effect (Host σ) Unit := do say ((← get).console.debugging message)

def warn (message : String) : Effect (Host σ) Unit := say (Console.warning message)

def record (c : Call) : Effect (Host σ) Unit := modify fun h => { h with calls := h.calls ++ [c] }

def timesCalled (h : Host σ) (key : Nat) : Nat :=
  h.calls.countP fun
    | .body k _ => k == key
    | _ => false

def request : Effect (Host σ) Unit :=
  modify fun h => { h with interruption := h.interruption.request }

/-- Whether the run is asked to stop. -/
def requested (h : Host σ) : Bool := h.heedful && h.interruption.requested

/-- The runner handles a signal. It only sets the flag, unless it finds the runner blocked in a
wait: then it breaks the wait off. -/
def handle (n : Int) : Effect (Host σ) Unit := do
  modify fun h => { h with interruption := h.interruption.signal n }
  if (← get).interruption.blocking then Effect.raise (.signalled n)

/-- A number that is no signal is sent. -/
def notASignal : Raised := .system 22 "Invalid argument"

/-- A signal is sent. Through the system, those that the runner does not handle are lost. -/
def deliver (n : Int) : Effect (Host σ) Unit := do
  if (← get).filtered then
    if handledSignals.contains n then handle n
    else if !isSignal n then Effect.raise notASignal
  else handle n

def setBlocking (b : Bool) : Effect (Host σ) Unit :=
  modify fun h => { h with interruption := { h.interruption with blocking := b } }

/-- A late signal arrives at the end of a blocking wait, where it finds the mark still set. -/
def deliverLate : Effect (Host σ) Unit := do
  match (← get).interruption.late with
  | none => pure ()
  | some n =>
    modify fun h => { h with interruption := { h.interruption with late := none } }
    deliver n

/-- Wait, marked as blocking. A signal that is late for the wait itself comes after the result is
in hand, which is then answered together with the complaint. -/
def blocking (wait : Effect (Host σ) α) : Effect (Host σ) (α × Option Failure) :=
  Effect.ensuring
    (do
      setBlocking true
      let a ← wait
      match ← deliverLate.attempt with
      | .ok () => return (a, none)
      | .error f => return (a, some f))
    (setBlocking false)

end Host
end RankRunner
