/-! Splitting a text into lines at every line boundary, not only at newlines. -/

namespace RankRunner

/-- Newlines, tabulations and separators that end a line. -/
def isLineBoundary (c : Char) : Bool :=
  let n := c.toNat
  (10 ≤ n && n ≤ 13) || (28 ≤ n && n ≤ 30) || n == 133 || n == 8232 || n == 8233

/-- The lines of a text without their ends. A carriage return and the newline after it end one
line, and a text that ends with a line end has no further line. `line` holds the characters of
the current line, last first. -/
def splitLines (line : List Char) : List Char → List String
  | [] => if line.isEmpty then [] else [String.ofList line.reverse]
  | '\r' :: '\n' :: cs => String.ofList line.reverse :: splitLines [] cs
  | c :: cs =>
    if isLineBoundary c then String.ofList line.reverse :: splitLines [] cs
    else splitLines (c :: line) cs

def lines (s : String) : List String := splitLines [] s.toList

end RankRunner
