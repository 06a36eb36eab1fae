import RankRunner.CommandLine
import RankRunner.SuiteFile.Reading

/-! The program. It takes a picture of the folder it is called in, invokes the command line on it,
shows what that shows, and writes the files that it made. Suite files hold their suite as JSON. -/

namespace RankRunner.Main

/-- The entry of a file. Only suite files are read. -/
def entryOf (path : String) : IO Entry := do
  if !path.endsWith ".py" then return .text ""
  let body ← IO.FS.readFile path
  match Json.read? body with
  | some v => return .suite (SuiteFile.ofValue v)
  | none => return .text body

/-- The entries of a folder and of `depth` levels of folders below it, under their places. -/
def entriesOf (location : List String) : Nat → List String → IO (List (List String × Entry))
  | depth, below => do
    let place := location ++ below
    let mut entries := [(place, Entry.folder)]
    for e in ← (← IO.FS.realPath (Path.whole place)).readDir do
      let names := below ++ [e.fileName]
      if ← e.path.isDir then
        match depth with
        | 0 => entries := entries ++ [(location ++ names, Entry.folder)]
        | depth + 1 => entries := entries ++ (← entriesOf location depth names)
      else
        let path := Path.whole (location ++ names)
        entries := entries ++ [(location ++ names, ← entryOf path)]
    return entries

/-- The home folder of the user who runs the program. -/
def homes : IO (List (String × String)) := do
  return ((← IO.getEnv "HOME").map (("", ·))).toList

def environment : IO Environment := do
  return {
    output := ← IO.getEnv "SUITERUN_OUTPUT"
    format := ← IO.getEnv "SUITERUN_FORMAT"
    simple := ← IO.getEnv "SUITERUN_SIMPLE"
    parallel := ← IO.getEnv "SUITERUN_PARALLEL" }

def hostName : IO String := do
  try return (← IO.FS.readFile "/etc/hostname").trimAscii.toString
  catch _ => return ""

/-- Write the texts that were not there before. -/
def writeFiles (before after : Files) : IO Unit := do
  for (place, e) in after.entries do
    match e, before.entries.lookup place with
    | .text body, some (.text old) => if body != old then IO.FS.writeFile (Path.whole place) body
    | .text body, _ => IO.FS.writeFile (Path.whole place) body
    | _, _ => pure ()

/-- Invoke the command line on the folder, and answer with the exit code. -/
def run (args : List String) : IO Int := do
  let location := Path.parts (toString (← IO.FS.realPath "."))
  let files : Files := { location, entries := ← entriesOf location 2 [], homes := ← homes }
  let clock : Clock := ⟨(← IO.monoNanosNow) / 1000, (1 : Int)⟩
  let w : CommandLine.Surroundings := { env := ← environment, hostName := ← hostName }
  let host : Host Forked := { clock, backend := .ofRun {} {} none, filtered := true }
  let (code, s) :=
    match (CommandLine.invoke w args).run ⟨host, files⟩ with
    | .ok exit s => (exit.toInt, s)
    | .error _ s => (1, s)
  IO.print s.host.shown.out
  IO.eprint s.host.shown.err
  writeFiles files s.files
  return code

end RankRunner.Main

def main (args : List String) : IO UInt32 := do
  return ((← RankRunner.Main.run args) % 256).toNat.toUInt32
