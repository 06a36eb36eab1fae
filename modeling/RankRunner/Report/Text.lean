import RankRunner.Report.Basic

/-! The report as plain text: a line for each group and each case, indented by tabulators. -/

namespace RankRunner.Report.Text

def duration (i : Item) : String :=
  match i.duration? with
  | some d => durationText d ++ "s"
  | none => "-"

def counters (s : Synopsis) : String :=
  " ".intercalate (s.entries.map fun (name, n) => s!"{name}={n}")

def run (r : Run) : Tag → String
  | .head =>
    r.id ++ "\n" ++ "host: " ++ r.host ++ "\n" ++
    "mode: " ++ (if r.sandboxed then "sandboxed" else "simple") ++ "\n" ++
    "started: " ++ timeText r.start ++ "\n" ++ "stopped: " ++ timeText r.stop ++ "\n"
  | .tail => "\n" ++ counters r.synopsis ++ "\n"

def group (g : Group) : Tag → String
  | .head => s!"\t{g.id}: {g.status.label} [{duration g.toItem}] {counters g.synopsis}\n"
  | .tail => ""

def usage (u : Usage) : Except Raised String := do
  let utime ← u.utime.fixed 3
  let stime ← u.stime.fixed 3
  return s!" utime={utime} stime={stime} maxrss={u.maxrss}"

/-- The line of a case, which is written as a whole. -/
def case (c : Case) : Draft :=
  .ofExcept do
    let used ← (c.usage.map usage).getD (.ok "")
    return s!"\t\t{c.id}: {caseLabel c} [{duration c.toItem}]" ++ used ++ "\n"

def renderer : Renderer := ⟨run, group, case⟩

end RankRunner.Report.Text
