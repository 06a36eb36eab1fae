import RankRunner.Raised.Basic

/-! Complaints about the way a text is written. They can say where: their second argument then
lists the file, the line, the column and the text of the line, and perhaps the end. -/

namespace RankRunner.Raised

def locatedNames : List String := ["SyntaxError", "IndentationError", "TabError"]

def isLocated (r : Raised) : Bool := locatedNames.contains r.name

/-- What is wrong with the second argument, where there are just two. -/
def placeComplaint? (r : Raised) : Option Raised :=
  match r.args with
  | [_, place] =>
    match place.sequence? with
    | none => some (.badType s!"'{place.typeName}' object is not iterable")
    | some parts =>
      let n := parts.length
      if n < 4 then some (.badType s!"function takes at least 4 arguments ({n} given)")
      else if n = 5 then some (.badType "end_offset must be provided when end_lineno is provided")
      else if 6 < n then some (.badType s!"function takes at most 6 arguments ({n} given)")
      else none
  | _ => none

/-- Line numbers from here on, and their negatives, are not shown. -/
def lineLimit : Int := 9223372036854775808

def lineText (n : Int) : String :=
  let shown := if -lineLimit ≤ n ∧ n < lineLimit then n else -1
  s!"line {shown}"

def lastName (path : String) : String := (path.splitOn "/").getLast?.getD path

/-- The parts of the place that are shown: the file without its folder, and the line. -/
def placeTexts (place : Value) : List String :=
  match place.sequence? with
  | some (file :: line :: _) =>
    (match file with | .text s => [lastName s] | _ => []) ++
      (match line with | .int n => [lineText n] | _ => [])
  | _ => []

/-- The message of a complaint, with its place. -/
def locatedText (r : Raised) : String :=
  let message := (r.args.headD .null).display
  let place := match r.args with
    | [_, place] => placeTexts place
    | _ => []
  if place.isEmpty then message else message ++ " (" ++ ", ".intercalate place ++ ")"

end RankRunner.Raised
