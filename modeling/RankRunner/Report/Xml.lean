import RankRunner.Report.Basic

/-! The report as an XML document: a `run` element with a `group` element for each group, a `case`
element for each case in it, and a `synopsis` element at the end of every group and of the run. -/

namespace RankRunner.Report.Xml

/-- A character of an attribute value. Line ends and tabulators are written as references, for a
reader turns plain ones into blanks. -/
def escape (c : Char) : String :=
  if c = '&' then "&amp;"
  else if c = '>' then "&gt;"
  else if c = '<' then "&lt;"
  else if c = '\n' then "&#10;"
  else if c = '\r' then "&#13;"
  else if c = '\t' then "&#9;"
  else String.singleton c

/-- An attribute value between quotes: single ones where the value holds double quotes only. -/
def quote (s : String) : String :=
  let cs := s.toList
  if !cs.contains '"' then "\"" ++ String.join (cs.map escape) ++ "\""
  else if !cs.contains '\'' then "'" ++ String.join (cs.map escape) ++ "'"
  else
    "\"" ++ String.join (cs.map fun c => if c = '"' then "&quot;" else escape c) ++ "\""

/-- An attribute with a blank before it. -/
def attr (name value : String) : String := " " ++ name ++ "=" ++ quote value

def intAttr (name : String) (n : Int) : String := attr name (toString n)

def times (start stop : Option Timestamp) : String :=
  attr "start" (timeText start) ++ attr "stop" (timeText stop)

def synopsis (s : Synopsis) : String :=
  "<synopsis" ++ String.join (s.entries.map fun (name, n) => intAttr name n) ++ "/>"

def run (r : Run) : Tag → String
  | .head =>
    "<?xml version=\"1.0\" encoding=\"UTF-8\"?>\n" ++
    "<run" ++ attr "id" r.id ++ attr "host" r.host ++
    attr "sandboxed" (if r.sandboxed then "true" else "false") ++
    times r.start r.stop ++ ">\n"
  | .tail => "  " ++ synopsis r.synopsis ++ "\n</run>\n"

def group (g : Group) : Tag → String
  | .head =>
    "  <group" ++ attr "id" g.id ++ attr "status" g.status.label ++
    intAttr "rank" g.rank ++ times g.start g.stop ++ ">\n"
  | .tail => "    " ++ synopsis g.synopsis ++ "\n  </group>\n"

def usage (u : Usage) : Except Raised String := do
  let utime ← u.utime.fixed 6
  let stime ← u.stime.fixed 6
  return "      <usage" ++ attr "utime" utime ++ attr "stime" stime ++
    intAttr "maxrss" u.maxrss ++
    String.join (u.faults.map fun (name, n) => intAttr name n) ++ "/>\n"

/-- The element of a case. Its start is written before the usage in it. -/
def case (c : Case) : Draft :=
  let head := "    <case" ++ attr "id" c.id ++ attr "status" (caseLabel c) ++
    intAttr "rank" c.rank ++ times c.start c.stop
  match c.usage with
  | none => .ofText (head ++ "/>\n")
  | some u => .ofText (head ++ ">\n") ++ .ofExcept (usage u) ++ .ofText "    </case>\n"

def renderer : Renderer := ⟨run, group, case⟩

end RankRunner.Report.Xml
