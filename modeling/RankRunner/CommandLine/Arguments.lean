import RankRunner.CommandLine.Options
import RankRunner.Number.Numeral
import RankRunner.Text.Similarity

/-! Reading the arguments of the command line. Options and the suite file may come in any order,
short options may be written together, and a value follows its option or is attached to it. -/

namespace RankRunner.CommandLine

/-- One thing that the arguments give, in the order of the arguments. -/
inductive Given where
  | value (setting : Setting) (text : String)
  | flag (setting : Setting) (on : Bool)
  | argument (text : String)
  deriving DecidableEq, Repr, Inhabited

inductive UsageError where
  | noSuchOption (name : String) (similar : List String)
  | needsValue (name : String)
  | takesNoValue (name : String)
  | badFormat (value : String)
  | badInteger (value : String)
  | extraArguments (args : List String)
  deriving DecidableEq, Repr, Inhabited

namespace UsageError

def hintOf (s : Setting) : String := ((options.find? (·.setting == s)).map Opt.hint).getD ""

def badValue (s : Setting) (message : String) : String :=
  s!"Invalid value for {hintOf s}: {message}"

def message : UsageError → String
  | .noSuchOption name [] => s!"No such option: {name}"
  | .noSuchOption name [similar] => s!"No such option: {name} Did you mean {similar}?"
  | .noSuchOption name similar =>
    s!"No such option: {name} (Possible options: " ++ ", ".intercalate similar ++ ")"
  | .needsValue name => s!"Option '{name}' requires an argument."
  | .takesNoValue name => s!"Option '{name}' does not take a value."
  | .badFormat value =>
    badValue .format (Literal.quote value ++ " is not one of " ++
      ", ".intercalate (Config.formats.map Literal.quote) ++ ".")
  | .badInteger value => badValue .parallel (Literal.quote value ++ " is not a valid integer.")
  | .extraArguments args =>
    (if args.length = 1 then "Got unexpected extra argument ("
      else "Got unexpected extra arguments (") ++ " ".intercalate args ++ ")"

def showsUsage : UsageError → Bool
  | .needsValue _ | .takesNoValue _ => false
  | _ => true

end UsageError

abbrev Parsed (α : Type) := Except UsageError α

/-- What one argument gives: flags, and then perhaps an option whose value is attached or is the
next argument. -/
structure Piece where
  flags : List Given := []
  pending : Option (String × Setting × Option String) := none
  deriving Repr, Inhabited

/-- A long option, split from the value attached to it. -/
def splitLong (arg : List Char) : String × Option String :=
  let name := String.ofList (arg.takeWhile (· != '='))
  match arg.dropWhile (· != '=') with
  | _ :: value => (name, some (String.ofList value))
  | [] => (name, none)

/-- The piece of a long option, if there is one of that name. -/
def longPiece? (arg : List Char) : Option (Parsed Piece) :=
  let (name, value) := splitLong arg
  (byLong? name).map fun (o, on) =>
    if o.takesValue then .ok { pending := some (name, o.setting, value) }
    else
      match value with
      | some _ => .error (.takesNoValue name)
      | none => .ok { flags := [.flag o.setting on] }

/-- The piece of short options that are written together. -/
def shortPiece : List Char → Parsed Piece
  | [] => .ok {}
  | c :: cs =>
    match byShort? c with
    | none => .error (.noSuchOption (Opt.shortName c) [])
    | some o =>
      if o.takesValue then
        let value := if cs.isEmpty then none else some (String.ofList cs)
        .ok { pending := some (Opt.shortName c, o.setting, value) }
      else do
        let rest ← shortPiece cs
        return { rest with flags := .flag o.setting true :: rest.flags }

/-- The piece of an argument that starts with a hyphen. Long names are tried first. -/
def piece (arg : List Char) : Parsed Piece :=
  match longPiece? arg with
  | some p => p
  | none =>
    match arg with
    | _ :: '-' :: _ =>
      let name := (splitLong arg).1
      .error (.noSuchOption name ((closeMatches name allLongNames).mergeSort (· ≤ ·)))
    | _ => shortPiece (arg.drop 1)

/-- Whether an argument is taken for an option. A lone hyphen is not. -/
def isOption (arg : String) : Bool :=
  match arg.toList with
  | '-' :: _ :: _ => true
  | _ => false

/-- What the arguments give. After two hyphens there are no more options. -/
def parse : List String → Parsed (List Given)
  | [] => .ok []
  | arg :: rest =>
    if arg == "--" then .ok (rest.map .argument)
    else if !isOption arg then (parse rest).map (.argument arg :: ·)
    else
      match piece arg.toList with
      | .error e => .error e
      | .ok ⟨flags, none⟩ => (parse rest).map (flags ++ ·)
      | .ok ⟨flags, some (_, setting, some value)⟩ =>
        (parse rest).map (flags ++ .value setting value :: ·)
      | .ok ⟨flags, some (name, setting, none)⟩ =>
        match rest with
        | [] => .error (.needsValue name)
        | value :: rest => (parse rest).map (flags ++ .value setting value :: ·)

structure Choice where
  suite : Option String
  output : String
  format : String
  parallel : Option Int
  simple : Bool
  verbose : Bool
  debug : Bool
  groups : List String
  list : Bool
  deriving Repr, Inhabited

def valuesOf (s : Setting) (given : List Given) : List String :=
  given.filterMap fun
    | .value t text => if t = s then some text else none
    | _ => none

def flagsOf (s : Setting) (given : List Given) : List Bool :=
  given.filterMap fun
    | .flag t on => if t = s then some on else none
    | _ => none

def argumentsOf (given : List Given) : List String :=
  given.filterMap fun
    | .argument text => some text
    | _ => none

def checkFormat (format : String) : Parsed Unit :=
  if Config.formats.contains format then .ok () else .error (.badFormat format)

def checkParallel (parallel : Option String) : Parsed Unit :=
  match parallel with
  | none => .ok ()
  | some s => if (Numeral.read? s).isSome then .ok () else .error (.badInteger s)

/-- The settings that are checked, in the order in which they are. -/
def checkOrder (given : List Given) : List Setting :=
  let named := given.filterMap fun
    | .value .format _ => some Setting.format
    | .value .parallel _ => some Setting.parallel
    | _ => none
  (named ++ [Setting.format, Setting.parallel]).eraseDups

def checkAll (format : String) (parallel : Option String) : List Setting → Parsed Unit
  | [] => .ok ()
  | .format :: rest => do
    checkFormat format
    checkAll format parallel rest
  | .parallel :: rest => do
    checkParallel parallel
    checkAll format parallel rest
  | _ :: rest => checkAll format parallel rest

/-- What is chosen by what is given, and by the environment for what is not. -/
def choose (env : Environment) (given : List Given) : Parsed Choice := do
  let format := (valuesOf .format given).getLast?.getD env.formatOrDefault
  let parallel := (valuesOf .parallel given).getLast?
  checkAll format parallel (checkOrder given)
  let args := argumentsOf given
  if 1 < args.length then throw (.extraArguments (args.drop 1))
  return {
    suite := args.head?
    output := (valuesOf .output given).getLast?.getD env.outputOrDefault
    format
    parallel := parallel.bind Numeral.read?
    simple := (flagsOf .simple given).getLast?.getD env.simpleOrDefault
    verbose := !(flagsOf .verbose given).isEmpty
    debug := !(flagsOf .debug given).isEmpty
    groups := valuesOf .group given
    list := !(flagsOf .list given).isEmpty }

end RankRunner.CommandLine
