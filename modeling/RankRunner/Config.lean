import RankRunner.Config.Reading

/-! The configuration of a run: defaults from the environment, overridden by the fields given. All
given fields are checked, and all that is wrong is reported together. Of the defaults only the
number of parallel cases is checked. -/

namespace RankRunner

/-- The variables of the environment that the runner heeds. -/
structure Environment where
  output : Option String := none
  format : Option String := none
  simple : Option String := none
  parallel : Option String := none
  deriving DecidableEq, Repr, Inhabited

structure Config where
  outfile : String
  format : String
  maxParallel : Int
  simple : Bool
  verbose : Bool
  debug : Bool
  groups : List String
  deriving DecidableEq, Repr, Inhabited

namespace Environment

def outputOrDefault (e : Environment) : String := e.output.getD "report.txt"

def formatOrDefault (e : Environment) : String := e.format.getD "txt"

def simpleOrDefault (e : Environment) : Bool :=
  ["1", "true", "yes"].contains ((e.simple.getD "0").toLower)

/-- As many parallel cases as the environment says; else one less than there are processors, two
being assumed where their number is not known. -/
def parallelOrDefault (e : Environment) (cpus : Option Int) : Value :=
  match e.parallel.filter (· != "") with
  | some s => .text s
  | none => .int (max 1 ((cpus.filter (· != 0)).getD 2 - 1))

end Environment

namespace Config

def sandboxed (c : Config) : Bool := !c.simple

/-- A flaw and the field that has it. -/
structure Problem where
  location : String
  flaw : Flaw
  deriving DecidableEq, Repr, Inhabited

abbrev Checked (α : Type) := Except (List Problem) α

variable {α : Type}

def problems : Checked α → List Problem
  | .ok _ => []
  | .error ps => ps

/-- The value of a field that is read by `read`. -/
def checked (location : String) (read : Value → Except Flaw α) (v : Value) : Checked α :=
  match read v with
  | .ok a => .ok a
  | .error flaw => .error [⟨location, flaw⟩]

/-- The value of a field that may be given. -/
def field (given : List (String × Value)) (location : String) (dflt : α)
    (read : Value → Except Flaw α) : Checked α :=
  match given.lookup location with
  | none => .ok dflt
  | some v => checked location read v

def nonempty (v : Value) : Except Flaw String := do
  let s ← text v
  if s = "" then .error .stringTooShort else .ok s

def formats : List String := ["txt", "xml"]

def formatName (v : Value) : Except Flaw String :=
  match v with
  | .text s => if formats.contains s then .ok s else .error .notAFormat
  | _ => .error .notAFormat

def positive (v : Value) : Except Flaw Int := do
  let n ← int v
  if n < 1 then .error .belowOne else .ok n

/-- The items of a list of texts, each of which is checked; the first has the number `n`. -/
def textItems (location : String) : Nat → List Value → Checked (List String)
  | _, [] => .ok []
  | n, v :: vs =>
    match checked s!"{location}.{n}" text v, textItems location (n + 1) vs with
    | .ok s, .ok ss => .ok (s :: ss)
    | first, rest => .error (problems first ++ problems rest)

def textList (given : List (String × Value)) (location : String) : Checked (List String) :=
  match given.lookup location with
  | none => .ok []
  | some (.list vs) => textItems location 0 vs
  | some _ => .error [⟨location, .listType⟩]

/-- The configuration with the fields given. Fields that are not known are ignored. -/
def read (env : Environment) (cpus : Option Int) (given : List (String × Value)) :
    Checked Config :=
  let outfile := field given "outfile" env.outputOrDefault nonempty
  let format := field given "format" env.formatOrDefault formatName
  let maxParallel := checked "max_parallel" positive
    ((given.lookup "max_parallel").getD (env.parallelOrDefault cpus))
  let simple := field given "simple" env.simpleOrDefault truth
  let verbose := field given "verbose" false truth
  let debug := field given "debug" false truth
  let groups := textList given "groups"
  match outfile, format, maxParallel, simple, verbose, debug, groups with
  | .ok outfile, .ok format, .ok maxParallel, .ok simple, .ok verbose, .ok debug, .ok groups =>
    .ok { outfile, format, maxParallel, simple, verbose, debug, groups }
  | _, _, _, _, _, _, _ => .error (problems outfile ++ problems format ++ problems maxParallel ++
      problems simple ++ problems verbose ++ problems debug ++ problems groups)

/-- What is given under `format` is one of the formats. -/
theorem formatName_eq_ok {v : Value} {s : String} (h : formatName v = .ok s) : s ∈ formats := by
  unfold formatName at h
  split at h
  · split at h
    · next hc => cases h; simpa using hc
    · cases h
  · cases h

theorem positive_eq_ok {v : Value} {n : Int} (h : positive v = .ok n) : 1 ≤ n := by
  unfold positive at h
  cases hv : int v with
  | error f => rw [hv] at h; cases h
  | ok m =>
    rw [hv] at h
    simp only [bind, Except.bind] at h
    split at h
    · cases h
    · cases h; omega

end Config
end RankRunner
