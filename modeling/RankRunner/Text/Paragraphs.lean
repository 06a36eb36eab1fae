import RankRunner.Text.Lines
import RankRunner.Text.Wrap

/-! Texts in paragraphs, which empty lines separate. Each paragraph is broken into lines anew, within
a given width and as far indented as its first line was. A paragraph whose first line is a
backspace character keeps its lines as they are. -/

namespace RankRunner

/-- With blanks in the place of tabulators, up to the next of the stops, which are eight columns
apart. The first character is in the given column. -/
def expandTabs (column : Nat) : List Char → List Char
  | [] => []
  | c :: cs =>
    if c == '\t' then
      let n := 8 - column % 8
      List.replicate n ' ' ++ expandTabs (column + n) cs
    else if c == '\n' || c == '\r' then c :: expandTabs 0 cs
    else c :: expandTabs (column + 1) cs

/-- A paragraph, with its first line apart. -/
structure Paragraph where
  indent : Nat
  first : String
  rest : List String
  deriving DecidableEq, Repr, Inhabited

namespace Paragraph

def ofLines? : List String → Option Paragraph
  | [] => none
  | line :: rest =>
    let first := trimStart line.toList
    some ⟨line.length - first.length, String.ofList first, rest⟩

/-- The lines of each paragraph, those in `seen` being the last ones of the first paragraph in
reverse. -/
def group (seen : List String) : List String → List (List String)
  | [] => [seen.reverse]
  | line :: rest =>
    if line = "" then seen.reverse :: group [] rest else group (line :: seen) rest

/-- The paragraphs of a text that is given by its lines. -/
def ofText (lines : List String) : List Paragraph := (group [] lines).filterMap ofLines?

/-- Whether the lines are kept. -/
def isFixed (p : Paragraph) : Bool := trimSpaces p.first.toList == ['\x08']

/-- The lines of a paragraph, broken anew. -/
def lines (width : Nat) (p : Paragraph) : List String :=
  if p.isFixed then
    let blanks := String.ofList (List.replicate p.indent ' ')
    p.rest.map (blanks ++ ·)
  else wrap width p.indent (" ".intercalate (p.first :: p.rest))

end Paragraph

/-- The lines of a text that is broken anew within a width. -/
def reflow (width : Nat) (text : String) : List String :=
  let expanded := String.ofList (expandTabs 0 text.toList)
  let paragraphs := Paragraph.ofText (lines expanded)
  lines ("\n\n".intercalate (paragraphs.map fun p => "\n".intercalate (p.lines width)))

end RankRunner
