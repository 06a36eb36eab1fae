import RankRunner.Run

/-! The messages of the runner to its user. Each is a text for the standard output or the standard
error stream, and some are shown only to those who asked for more. -/

namespace RankRunner

structure Shown where
  out : String := ""
  err : String := ""
  deriving DecidableEq, Repr, Inhabited

namespace Shown

def append (s t : Shown) : Shown := ⟨s.out ++ t.out, s.err ++ t.err⟩

instance : Append Shown := ⟨append⟩

def onOut (text : String) : Shown := { out := text }

def onErr (text : String) : Shown := { err := text }

end Shown

structure Console where
  debug : Bool := false
  verbose : Bool := false
  deriving DecidableEq, Repr, Inhabited

namespace Console

/-- Debugging asks for everything. -/
def isVerbose (c : Console) : Bool := c.verbose || c.debug

def ifVerbose (c : Console) (text : String) : Shown := if c.isVerbose then .onOut text else {}

def ifDebug (c : Console) (text : String) : Shown := if c.debug then .onErr text else {}

def runStarted (r : Run) (suiteFile : String) : Shown :=
  let cases := r.cases.length
  let mode :=
    if r.sandboxed then s!"sandboxed (max {r.maxParallel} in parallel)" else "simple"
  .onOut s!"\nRUN STARTED\nRun: {r.id}\nSuite: {suiteFile}\nGroups: {r.groups.items.length}\nCases: {cases}\nMode: {mode}\n\n"

def groupStart (c : Console) (g : Group) : Shown :=
  c.ifVerbose s!"\nGROUP STARTED: {g.id} (rank {g.rank})\n"

def caseText (c : Case) : String :=
  if c.notRun then s!"  {c.id}: NOT RUN\n"
  else
    match c.duration? with
    | some d => s!"  {c.id}: {c.status.label} ({durationText d}s)\n"
    | none => s!"  {c.id}: {c.status.label}\n"

def caseResult (c : Console) (case : Case) : Shown := c.ifVerbose (caseText case)

def skipped (c : Console) (id reason : String) : Shown := c.ifVerbose s!"  {id}: SKIP ({reason})\n"

def groupResult (c : Console) (g : Group) : Shown :=
  c.ifVerbose
    s!"GROUP {g.status.label}: {g.id} ({g.synopsis.passed}/{g.synopsis.total} passed)\n"

def graph (c : Console) (text : String) : Shown := c.ifDebug (text ++ "\n")

def rule : String := String.ofList (List.replicate 40 '=')

def results (r : Run) : Shown :=
  let s := r.synopsis
  let groups := r.groups.items.map fun g => s!"  {g.id}: {g.status.label}\n"
  .onOut ("\n" ++ rule ++ "\nRESULTS\n" ++ rule ++ "\n" ++ String.join groups ++
    s!"\n{s.total} case(s): {s.passed} passed, {s.failed} failed, " ++
    s!"{s.aborted} aborted, {s.skipped} skipped" ++
    (if s.notRun = 0 then "" else s!", {s.notRun} not run") ++ "\n")

/-- A complaint with its details and a suggestion, which may be empty. -/
def error (title message : String) (details : List String) (suggestion : String) : Shown :=
  .onErr (s!"\nERROR: {title}\n{message}\n" ++
    String.join (details.map fun d => s!"  {d}\n") ++
    (if suggestion = "" then "" else s!"\n{suggestion}\n"))

def warning (message : String) : Shown := .onErr s!"WARNING: {message}\n"

def failure (text : String) : Shown := .onErr s!"Error: {text}\n"

def info (message : String) : Shown := .onOut (message ++ "\n")

def debugging (c : Console) (message : String) : Shown := c.ifDebug s!"[DEBUG] {message}\n"

end Console
end RankRunner
