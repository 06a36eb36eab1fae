import RankRunner.Value

/-! The runner's own faults, by cause, each with its text. They come in families, of which some are
more general than others. -/

namespace RankRunner

inductive Kind where
  | group
  | case
  deriving DecidableEq, Repr, Inhabited

def Kind.name : Kind → String
  | .group => "group"
  | .case => "case"

inductive Family where
  | general
  | setup
  | duplicateId
  | unknownItem
  | cycle
  | missingDependency
  | suiteLoad
  | reap
  | reapIncomplete
  | interrupted
  deriving DecidableEq, Repr, Inhabited

namespace Family

def name : Family → String
  | .general => "RunError"
  | .setup => "SetupError"
  | .duplicateId => "DuplicateIdError"
  | .unknownItem => "UnknownItemError"
  | .cycle => "CycleError"
  | .missingDependency => "MissingDependencyError"
  | .suiteLoad => "SuiteLoadError"
  | .reap => "ReapError"
  | .reapIncomplete => "ReapIncomplete"
  | .interrupted => "Interrupted"

def all : List Family := [.general, .setup, .duplicateId, .unknownItem, .cycle,
  .missingDependency, .suiteLoad, .reap, .reapIncomplete, .interrupted]

def ofName? (s : String) : Option Family := all.find? (·.name == s)

def base? : Family → Option Family
  | .general => none
  | .setup | .reap | .reapIncomplete | .interrupted => some .general
  | .duplicateId | .unknownItem | .cycle | .missingDependency | .suiteLoad => some .setup

/-- Faults that are found before anything is dispatched. -/
def isSetup (f : Family) : Bool := f == .setup || f.base? == some .setup

/-- A family and the more general ones, down to the most general. -/
def ancestry : Family → List Family
  | .general => [.general]
  | .setup => [.setup, .general]
  | .reap => [.reap, .general]
  | .reapIncomplete => [.reapIncomplete, .general]
  | .interrupted => [.interrupted, .general]
  | f => [f, .setup, .general]

/-- An ancestry goes from each family to its base. -/
theorem ancestry_eq (f : Family) :
    f.ancestry = f :: (match f.base? with | none => [] | some b => b.ancestry) := by
  cases f <;> rfl

end Family

inductive Fault where
  | duplicateId (kind : Kind) (id : String)
  | unknownItem (id dep : String)
  | noSuchGroup (id : String) (known : List String)
  | missingDependency (kind : Kind) (id dep : String) (known : List String)
  | cycle (id : String) (waitingOn : List String)
  | suiteNotFound (path : String)
  | suiteSuffix (name : String)
  | suiteShape (path : String)
  | waitFailed (why : String) (number : Value) (outstanding : Int)
  | reapIncomplete (outstanding : Int)
  | reapStopped (outstanding : Int)
  | cancelled (why : String)
  | bailedOut (why : String) (killed : List String) (drained : Int)
  /-- A fault given by its parts, which suites may choose freely. -/
  | given (family : Family) (kind item message : Value) (details : List (String × Value))
  deriving Repr, Inhabited

namespace Fault

def family : Fault → Family
  | .duplicateId .. => .duplicateId
  | .unknownItem .. | .noSuchGroup .. => .unknownItem
  | .missingDependency .. => .missingDependency
  | .cycle .. => .cycle
  | .suiteNotFound .. | .suiteSuffix .. | .suiteShape .. => .suiteLoad
  | .waitFailed .. | .reapStopped .. => .reap
  | .reapIncomplete .. => .reapIncomplete
  | .cancelled .. | .bailedOut .. => .interrupted
  | .given family .. => family

def kind : Fault → Value
  | .duplicateId .. => .text "duplicate-id"
  | .unknownItem .. | .noSuchGroup .. => .text "unknown-item"
  | .missingDependency .. => .text "missing-dependency"
  | .cycle .. => .text "cycle"
  | .suiteNotFound .. | .suiteSuffix .. | .suiteShape .. => .text "suite-load"
  | .waitFailed .. | .reapStopped .. => .text "reap"
  | .reapIncomplete .. => .text "reap-incomplete"
  | .cancelled .. | .bailedOut .. => .text "interrupted"
  | .given _ kind .. => kind

def item : Fault → Value
  | .duplicateId _ id | .unknownItem id _ | .noSuchGroup id _ | .missingDependency _ id _ _
  | .cycle id _ => .text id
  | .given _ _ item .. => item
  | _ => .null

def message : Fault → Value
  | .duplicateId kind id => .text s!"{kind.name} '{id}' is already defined in this list"
  | .unknownItem id dep => .text s!"cannot add dependency on '{dep}': '{id}' is not defined"
  | .noSuchGroup id _ => .text s!"no such group '{id}'"
  | .missingDependency kind id dep _ =>
    .text s!"{kind.name} '{id}' depends on missing {kind.name} '{dep}'"
  | .cycle id _ => .text s!"{id} not sequenced: dependency loop !"
  | .suiteNotFound path => .text s!"Suite file not found: {path}"
  | .suiteSuffix name => .text s!"Suite must be a .py file, got: {name}"
  | .suiteShape _ => .text ("Suite must return/define a List[Group]. " ++
      "Define suite() -> List[Group] or GROUPS = [Group, ...].")
  | .waitFailed why .. => .text s!"wait failed: {why}"
  | .reapIncomplete n | .reapStopped n => .text s!"{n} child process(es) still outstanding"
  | .cancelled why => .text s!"run {why}"
  | .bailedOut why .. => .text s!"run {why}, outstanding children killed"
  | .given _ _ _ message _ => message

def details : Fault → List (String × Value)
  | .noSuchGroup _ known | .missingDependency _ _ _ known => [("known", .texts known)]
  | .cycle _ waitingOn => [("waiting_on", .texts waitingOn)]
  | .suiteShape path => [("file", .text path)]
  | .waitFailed _ number n => [("errno", number), ("outstanding", .int n)]
  | .reapIncomplete n | .reapStopped n => [("outstanding", .int n)]
  | .bailedOut _ killed drained => [("killed", .texts killed), ("drained", .int drained)]
  | .given _ _ _ _ details => details
  | _ => []

/-- The lines of a fault: what and why, the item if there is one, and each detail. -/
def textLines (f : Fault) : List String :=
  let item := if f.item.isSomething then ["item=" ++ f.item.display] else []
  (f.kind.display ++ ": " ++ f.message.display) :: item ++
    f.details.map fun (key, v) => key ++ "=" ++ v.display

def text (f : Fault) : String := "\n".intercalate f.textLines

end Fault

end RankRunner
