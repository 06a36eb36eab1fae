import RankRunner.Text.Classes

/-! Reading integers from text: a sign, then decimal digits of any script, with single underscores
allowed between digits and white space around the whole. -/

namespace RankRunner.Numeral

/-- The number that the digits continue, `acc` being the number read so far. -/
def digitsFrom (digit? : Char → Option Nat) (acc : Nat) : List Char → Option Nat
  | [] => some acc
  | '_' :: c :: cs =>
    match digit? c with
    | some d => digitsFrom digit? (acc * 10 + d) cs
    | none => none
  | c :: cs =>
    match digit? c with
    | some d => digitsFrom digit? (acc * 10 + d) cs
    | none => none

def natural? (digit? : Char → Option Nat) : List Char → Option Nat
  | [] => none
  | c :: cs =>
    match digit? c with
    | some d => digitsFrom digit? d cs
    | none => none

def signed? (digit? : Char → Option Nat) : List Char → Option Int
  | '-' :: cs => (natural? digit? cs).map fun n => -(n : Int)
  | '+' :: cs => (natural? digit? cs).map fun n => (n : Int)
  | cs => (natural? digit? cs).map fun n => (n : Int)

def maxDigits : Nat := 4300

/-- The number of digits up to the first other character, `n` digits having come before, where
underscores stand only between digits. -/
def runLength? (n : Nat) : List Char → Option Nat
  | [] => some n
  | '_' :: c :: cs => if (decimalDigit? c).isSome then runLength? (n + 1) cs else none
  | ['_'] => none
  | c :: cs => if (decimalDigit? c).isSome then runLength? (n + 1) cs else some n

def unsigned : List Char → List Char
  | '-' :: cs | '+' :: cs => cs
  | cs => cs

/-- The number of digits that a text starts with, if there are more than a numeral may have. -/
def excess? (s : String) : Option Nat :=
  match unsigned (trimWhiteSpace s.toList) with
  | '_' :: _ => none
  | cs => (runLength? 0 cs).filter (maxDigits < ·)

def read? (s : String) : Option Int :=
  if (excess? s).isSome then none else signed? decimalDigit? (trimWhiteSpace s.toList)

end RankRunner.Numeral
