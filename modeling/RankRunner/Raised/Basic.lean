import RankRunner.Value

/-! Conditions that stop an operation: what a case function or the system raises. A condition has a
name, which tells its kind, and arguments. -/

namespace RankRunner

structure Raised where
  name : String
  args : List Value := []
  deriving Repr, Inhabited

namespace Raised

/-- Conditions that are system errors: their first two arguments are a number and a message. -/
def systemNames : List String := [
  "OSError", "BlockingIOError", "ChildProcessError", "ConnectionError", "BrokenPipeError",
  "ConnectionAbortedError", "ConnectionRefusedError", "ConnectionResetError", "FileExistsError",
  "FileNotFoundError", "InterruptedError", "IsADirectoryError", "NotADirectoryError",
  "PermissionError", "ProcessLookupError", "TimeoutError"]

def isSystem (r : Raised) : Bool := systemNames.contains r.name

def isAssertion (r : Raised) : Bool :=
  r.name == "AssertionError" || r.name == "CustomAssertion"

/-- Conditions that no handler of a case stops: they end the run. -/
def isFatal (r : Raised) : Bool :=
  r.name == "KeyboardInterrupt" || r.name == "GeneratorExit" || r.name == "BaseException"

def isInterrupted (r : Raised) : Bool := r.name == "InterruptedError"

def isNoChild (r : Raised) : Bool := r.name == "ChildProcessError"

def isNoProcess (r : Raised) : Bool := r.name == "ProcessLookupError"

def badValue (message : String) : Raised := ⟨"ValueError", [.text message]⟩

def badType (message : String) : Raised := ⟨"TypeError", [.text message]⟩

def overflow (message : String) : Raised := ⟨"OverflowError", [.text message]⟩

def noSuchChild (pid : Int) : Raised :=
  ⟨"ChildProcessError", [.text ("no such child: " ++ toString pid)]⟩

/-- A wait broken off by a signal. -/
def signalled (signum : Int) : Raised :=
  ⟨"InterruptedError", [.int signum, .text "interrupted by signal"]⟩

@[simp] theorem isInterrupted_signalled (n : Int) : (signalled n).isInterrupted = true := rfl

@[simp] theorem isNoChild_noSuchChild (pid : Int) : (noSuchChild pid).isNoChild = true := rfl

end Raised
end RankRunner
