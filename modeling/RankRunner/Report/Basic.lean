import RankRunner.Run

/-! The parts of a report. A renderer writes the head and the tail of the run and of each group,
and the cases between; its parts can be replaced one by one. -/

namespace RankRunner.Report

inductive Tag where
  | head
  | tail
  deriving DecidableEq, Repr, Inhabited

def Tag.name : Tag → String
  | .head => "head"
  | .tail => "tail"

/-- What is written of a report. A part that cannot be written breaks the report off, and what
stands before it stays written. -/
structure Draft where
  text : String := ""
  failure : Option Raised := none
  deriving Repr, Inhabited

namespace Draft

def ofText (text : String) : Draft := { text }

def ofExcept : Except Raised String → Draft
  | .ok text => { text }
  | .error r => { failure := some r }

/-- Write on, unless the draft was broken off. -/
def append (d e : Draft) : Draft :=
  match d.failure with
  | some _ => d
  | none => { text := d.text ++ e.text, failure := e.failure }

instance : Append Draft := ⟨append⟩

def concat (ds : List Draft) : Draft := ds.foldl append {}

/-- The text of a report that was written to its end. -/
def finished (d : Draft) : Except Raised String :=
  match d.failure with
  | none => .ok d.text
  | some r => .error r

end Draft

structure Renderer where
  run : Run → Tag → String
  group : Group → Tag → String
  case : Case → Draft

/-- Parts that replace those of a renderer. -/
structure Hooks where
  run : Option (Run → Tag → String) := none
  group : Option (Group → Tag → String) := none
  case : Option (Case → Draft) := none

def Renderer.override (r : Renderer) (h : Hooks) : Renderer where
  run := h.run.getD r.run
  group := h.group.getD r.group
  case := h.case.getD r.case

/-- The part of a report about one group. -/
def Renderer.renderGroup (r : Renderer) (g : Group) : Draft :=
  .ofText (r.group g .head) ++ .concat (g.cases.items.map r.case) ++ .ofText (r.group g .tail)

/-- The whole report, in the order of declaration. -/
def Renderer.render (r : Renderer) (run : Run) : Draft :=
  .ofText (r.run run .head) ++ .concat (run.groups.items.map r.renderGroup) ++
    .ofText (r.run run .tail)

/-- An instant, or a dash where there is none. -/
def timeText (t : Option Timestamp) : String := (t.map Timestamp.text).getD "-"

/-- The label of a case: its status counts only if it was run. -/
def caseLabel (c : Case) : String := if c.notRun then "NOTRUN" else c.status.label

@[simp] theorem Renderer.override_none (r : Renderer) : r.override {} = r := rfl

end RankRunner.Report
