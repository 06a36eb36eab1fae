import RankRunner.Failure

/-! The flag that asks a run to stop. It is set by a request or by a signal, and stays set. -/

namespace RankRunner

/-- The names of the signals; of the realtime ones only the first and the last have a name. -/
def signalNames : List (Int × String) := [
  (1, "SIGHUP"), (2, "SIGINT"), (3, "SIGQUIT"), (4, "SIGILL"), (5, "SIGTRAP"), (6, "SIGABRT"),
  (7, "SIGBUS"), (8, "SIGFPE"), (9, "SIGKILL"), (10, "SIGUSR1"), (11, "SIGSEGV"),
  (12, "SIGUSR2"), (13, "SIGPIPE"), (14, "SIGALRM"), (15, "SIGTERM"), (16, "SIGSTKFLT"),
  (17, "SIGCHLD"), (18, "SIGCONT"), (19, "SIGSTOP"), (20, "SIGTSTP"), (21, "SIGTTIN"),
  (22, "SIGTTOU"), (23, "SIGURG"), (24, "SIGXCPU"), (25, "SIGXFSZ"), (26, "SIGVTALRM"),
  (27, "SIGPROF"), (28, "SIGWINCH"), (29, "SIGIO"), (30, "SIGPWR"), (31, "SIGSYS"),
  (34, "SIGRTMIN"), (64, "SIGRTMAX")]

def handledSignals : List Int := [2, 3, 15]

/-- Numbers that can be sent as signals; zero only asks whether there is someone to receive one. -/
def isSignal (n : Int) : Bool := 0 ≤ n && n ≤ 64

structure Interruption where
  requested : Bool := false
  /-- The signal that asked last. -/
  signum : Option Int := none
  /-- Whether the runner is blocked in a wait, which a signal then breaks off. -/
  blocking : Bool := false
  /-- A signal that arrives at the end of the next blocking wait. -/
  late : Option Int := none
  deriving DecidableEq, Repr, Inhabited

namespace Interruption

def request (i : Interruption) : Interruption := { i with requested := true }

def signal (n : Int) (i : Interruption) : Interruption :=
  { i with requested := true, signum := some n }

/-- Why the run is to stop. A number without a name is no signal. -/
def describe (i : Interruption) : Except Raised String :=
  match i.signum with
  | none => .ok "interrupted"
  | some n =>
    match signalNames.lookup n with
    | some name => .ok ("interrupted by " ++ name)
    | none => .error (.badValue (toString n ++ " is not a valid Signals"))

end Interruption
end RankRunner
