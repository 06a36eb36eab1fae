import RankRunner.Report.Text
import RankRunner.Report.Xml

/-! The report of a run in the format that the run names. -/

namespace RankRunner.Report

def formats : List (String × Renderer) := [("txt", Text.renderer), ("xml", Xml.renderer)]

def unknownFormat (format : String) : Raised :=
  .badValue ("Unknown report format: " ++ Literal.quote format)

/-- The report of a run, with some parts of the renderer replaced. -/
def render (hooks : Hooks) (r : Run) : Draft :=
  match formats.lookup r.format with
  | some renderer => (renderer.override hooks).render r
  | none => { failure := some (unknownFormat r.format) }

end RankRunner.Report
