import RankRunner.CommandLine.Arguments
import RankRunner.CommandLine.Help
import RankRunner.Execution
import RankRunner.Files
import RankRunner.Launcher.Forked
import RankRunner.Report
import RankRunner.Selection
import RankRunner.Text.Escapes
import RankRunner.Text.Lines

/-! The command line: it reads its arguments, finds and loads a suite, runs it, writes the report
and ends with an exit code. -/

namespace RankRunner.CommandLine

/-- The state of an invocation: the surroundings of the run, and the folder it works in. -/
structure Shell where
  host : Host Forked
  files : Files

def defaultSuite : String := "suiterun_suite.py"

def suiteEnding : String := "_suite.py"

def say (text : Shown) : Effect Shell Unit :=
  (Host.say text).zoom (·.host) fun host s => { s with host }

/-! ### Finding the suite -/

/-- The suite files right in the folder, in order: the default one alone if it is there. -/
def suiteFiles (f : Files) : List String :=
  let isFile (name : String) : Bool := (f.at? (f.location ++ [name])).any Entry.isFile
  if isFile defaultSuite then [defaultSuite]
  else (f.here.filter fun name => name.endsWith suiteEnding && isFile name).mergeSort (· ≤ ·)

def notFound (arg : String) : Shown :=
  Console.error "Suite file not found" s!"{arg} is not a suite file." []
    "A suite file defines suite() or GROUPS, e.g.:\n  suiterun tests/net_suite.py"

def noSuite : Shown :=
  Console.error "No suite file found"
    s!"Neither {defaultSuite} nor any *{suiteEnding} in the current directory." []
    s!"Create {defaultSuite} or pass a suite file:\n  suiterun path/to/my_suite.py"

def ambiguous (found : List String) : Shown :=
  Console.error "Ambiguous suite"
    s!"{found.length} suite files match *{suiteEnding}; pick one:" found ""

/-- The path of the suite to run, or why there is none. The suffix of a named suite file may be
left out. -/
def findSuite (f : Files) (arg : Option String) : Except Raised (Except Shown String) :=
  match arg.filter (· != "") with
  | some arg => do
    if ← f.isFile arg then return .ok arg
    if ← f.isFile (arg ++ ".py") then return .ok (arg ++ ".py")
    return .error (notFound arg)
  | none =>
    match suiteFiles f with
    | [] => .ok (.error noSuite)
    | [path] => .ok (.ok path)
    | found => .ok (.error (ambiguous found))

/-! ### Running it -/

def configOf (env : Environment) (cpus : Option Int) (c : Choice) : Config.Checked Config :=
  Config.read env cpus ([
    ("outfile", .text c.output), ("format", .text c.format), ("simple", .bool c.simple),
    ("verbose", .bool c.verbose), ("debug", .bool c.debug), ("groups", .texts c.groups)] ++
    (c.parallel.map fun n => ("max_parallel", Value.int n)).toList)

def invalid (problems : List Config.Problem) : Shown :=
  Console.error "Invalid options" "The run configuration is not valid."
    (problems.map fun p => s!"{p.location}: {p.flaw.message}") ""

/-- An item with what it depends on, unless there is nothing to show of that. -/
def listed (i : Item) : String :=
  let needs := ", ".intercalate i.needs
  if needs = "" then i.id else s!"{i.id} (needs: {needs})"

def listing (groups : List Group) : Shown :=
  .onOut (String.join (groups.map fun g =>
    listed g.toItem ++ "\n" ++
      String.join (g.cases.items.map fun c => "    " ++ listed c.toItem ++ "\n")))

/-- A run of the groups that the configuration selects. -/
def buildRun (groups : List Group) (config : Config) (id host : String) : Except Fault Run := do
  let run : Run :=
    { id, sandboxed := config.sandboxed, maxParallel := config.maxParallel
      outfile := config.outfile, format := config.format, host }
  run.addGroups (← Selection.select groups config.groups)

/-- Write the report of a run where it goes: to a file, or to the standard output. -/
def writeReport (run : Run) : Effect Shell Unit := do
  let report := Report.render {} run
  if run.outfile == "-" then say (.onOut report.text)
  else
    let files ← Effect.ofExcept ((← get).files.write run.outfile "")
    modify ({ · with files })
    let files ← Effect.ofExcept (files.write run.outfile report.text)
    modify ({ · with files })
  match report.failure with
  | none => pure ()
  | some r => Effect.raise r

/-- Run a suite, and answer with the run as it ended and its exit code. -/
def execute (run : Run) : Effect Shell (Run × Nat) := do
  let regime ← Effect.ofExcept (Regime.ofRun? run)
  let s ← get
  match (Execution.runSuite regime Forked.launcher).run ⟨run, s.host⟩ with
  | .ok code t =>
    set { s with host := t.host }
    return (t.run, code)
  | .error f t =>
    set { s with host := t.host }
    throw f

/-- Load the suite at a path, and run or list it. -/
def runSuite (config : Config) (list : Bool) (path hostName : String) : Effect Shell Int := do
  let groups ←
    match (← get).files.load path with
    | .ok groups => pure groups
    | .error f => throw f
  if list then
    say (listing groups)
    return 0
  let name := Path.name path
  let run ←
    match buildRun groups config (Path.stem name) hostName with
    | .ok run => pure run
    | .error f => Effect.fail f
  say (Console.runStarted run name)
  let (run, code) ← execute run
  writeReport run
  say (Console.results run)
  if run.outfile != "-" then say (Console.info s!"Report written to {run.outfile}")
  return code

/-! ### Ending -/

/-- How an invocation ends. An exit that was asked for can give a truth value for its code. -/
inductive Exit where
  | code (n : Int)
  | truth (b : Bool)
  deriving DecidableEq, Repr, Inhabited

def Exit.toInt : Exit → Int
  | .code n => n
  | .truth b => if b then 1 else 0

/-- What is shown for an exit that was asked for, and its code. A text is an error. -/
def exitOf (r : Raised) : Shown × Exit :=
  match r.args with
  | [] | [.null] => ({}, .code 0)
  | [.int n] => ({}, .code n)
  | [.bool b] => ({}, .truth b)
  | _ => (.onOut (r.text ++ "\n"), .code 1)

def faultText (f : Fault) : Shown :=
  if f.family.isSetup then Console.error "Setup failed" "Nothing was run." (lines f.text) ""
  else if f.family = .interrupted then Console.info ("\n" ++ f.message.display)
  else if f.family = .reap then
    Console.error "Process management failed" "The run was aborted." (lines f.text) ""
  else Console.failure f.text

def explain : Failure → Shown × Exit
  | .fault f => (faultText f, .code 1)
  | .raised r =>
    if r.name == "SystemExit" then exitOf r
    else if r.name == "KeyboardInterrupt" then (Console.info "\nInterrupted by user", .code 130)
    else (Console.failure r.text, .code 1)

/-- Whether nothing is made of a failure but to pass it on. -/
def escapes : Failure → Bool
  | .fault _ => false
  | .raised r => r.isFatal && r.name != "KeyboardInterrupt"

def usageText (e : UsageError) : Shown :=
  .onErr (withoutEscapes
    ((if e.showsUsage then Help.usage ++ "Try 'cli -h' for help.\n\n" else "") ++
      s!"Error: {e.message}\n"))

def leave (text : Shown) (exit : Exit) : Effect Shell Exit := do
  say text
  return exit

/-- What an invocation depends on besides its arguments. -/
structure Surroundings where
  env : Environment := {}
  cpus : Option Int := none
  hostName : String

def perform (w : Surroundings) (c : Choice) : Effect Shell Exit := do
  modify fun s => { s with
    host := { s.host with console := { debug := c.debug, verbose := c.verbose } } }
  match configOf w.env w.cpus c with
  | .error problems => leave (invalid problems) (.code 2)
  | .ok config =>
    match ← Effect.ofExcept (findSuite (← get).files c.suite) with
    | .error text => leave text (.code 1)
    | .ok path =>
      match ← (runSuite config c.list path w.hostName).attempt with
      | .ok code => return .code code
      | .error f =>
        if escapes f then throw f
        let (text, exit) := explain f
        leave text exit

/-- Invoke the command line, and answer with the exit. Help comes before everything else that
the arguments give. -/
def invoke (w : Surroundings) (args : List String) : Effect Shell Exit := do
  match parse args with
  | .error e => leave (usageText e) (.code 2)
  | .ok given =>
    if !(flagsOf .help given).isEmpty then leave (.onOut (withoutEscapes (Help.text w.env))) (.code 0)
    else
      match choose w.env given with
      | .error e => leave (usageText e) (.code 2)
      | .ok c => perform w c

end RankRunner.CommandLine
