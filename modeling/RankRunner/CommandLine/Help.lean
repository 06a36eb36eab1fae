import RankRunner.CommandLine.Options
import RankRunner.Text.Paragraphs

/-! The help of the command line, for a terminal of 80 columns. -/

namespace RankRunner.CommandLine.Help

def usage : String := "Usage: cli [OPTIONS] [SUITE_FILE]\n"

/-- The default of an option, as help shows it. -/
def default? (env : Environment) : Setting → Option String
  | .output => some (if env.outputOrDefault = "" then "\"\"" else env.outputOrDefault)
  | .format => some (if env.formatOrDefault = "" then "\"\"" else env.formatOrDefault)
  | .simple => some (if env.simpleOrDefault then "s" else "sandboxed")
  | _ => none

def description (env : Environment) (o : Opt) : String :=
  match default? env o.setting with
  | some d => s!"{o.help}  [default: {d}]"
  | none => o.help

/-- The width of the column of names, with the blanks around it. -/
def nameColumn : Nat := (options.map (·.usage.length)).foldl max 0 + 2

def pad (n : Nat) : String := String.ofList (List.replicate n ' ')

/-- The lines of one option: the names, and beside them the description. -/
def entry (env : Environment) (o : Opt) : String :=
  let lines := reflow (80 - nameColumn - 2) (description env o)
  let gap := pad (nameColumn - o.usage.length)
  "  " ++ o.usage ++ gap ++ ("\n" ++ pad (nameColumn + 2)).intercalate lines ++ "\n"

def text (env : Environment) : String :=
  usage ++ "\n  SuiteRun: rank-scheduled, sandboxed test suite runner.\n\nOptions:\n" ++
    String.join (options.map (entry env))

end RankRunner.CommandLine.Help
