import RankRunner.Number.Binary64
import RankRunner.Text.Classes

/-! Reading floating-point numbers from text: a sign, decimal digits of any script with a point
among them, and an exponent, or the names of infinity and of what is no number. Single underscores
are allowed between digits, and white space around the whole. -/

namespace RankRunner.Binary64

/-- Decimal digits of any script as ASCII digits. -/
def withAsciiDigits (cs : List Char) : List Char :=
  cs.map fun c => ((decimalDigit? c).map fun d => Char.ofNat (48 + d)).getD c

/-- Without the underscores between digits, `last` being the character before. There may be no
others. -/
def dropSeparators? (last : Char) : List Char → Option (List Char)
  | [] => some []
  | '_' :: c :: cs =>
    if last.isDigit && c.isDigit then (dropSeparators? c cs).map (c :: ·) else none
  | ['_'] => none
  | c :: cs => (dropSeparators? c cs).map (c :: ·)

def splitSign : List Char → Bool × List Char
  | '-' :: cs => (true, cs)
  | '+' :: cs => (false, cs)
  | cs => (false, cs)

def digitsValue (ds : List Char) : Nat := ds.foldl (fun n d => 10 * n + (d.toNat - 48)) 0

/-- The exponent of a number; nothing at all is zero. -/
def exponent? : List Char → Option Int
  | [] => some 0
  | e :: cs =>
    let (negative, ds) := splitSign cs
    if (e == 'e' || e == 'E') && !ds.isEmpty && ds.all Char.isDigit then
      some (if negative then -(digitsValue ds : Int) else digitsValue ds)
    else none

/-- A number without its sign. -/
def unsigned? (negative : Bool) (cs : List Char) : Option Binary64 :=
  let whole := cs.takeWhile Char.isDigit
  let rest := cs.drop whole.length
  let (part, rest) := match rest with
    | '.' :: rest => (rest.takeWhile Char.isDigit, rest.dropWhile Char.isDigit)
    | rest => ([], rest)
  if whole.isEmpty && part.isEmpty then none
  else (exponent? rest).map fun e => ofDecimal negative (digitsValue (whole ++ part)) (e - part.length)

/-- The number that a text spells. -/
def read? (s : String) : Option Binary64 := do
  let cs ← dropSeparators? ' ' (withAsciiDigits (trimWhiteSpace s.toList))
  let (negative, cs) := splitSign cs
  let word := (String.ofList cs).toLower
  if word == "inf" || word == "infinity" then some (.infinity negative)
  else if word == "nan" then some .nan
  else unsigned? negative cs

example : read? " -1_0.5e1 " = some (ofDecimal true 105 0) := by decide +kernel
example : (read? "1_e5").isNone = true := by decide +kernel

end RankRunner.Binary64
