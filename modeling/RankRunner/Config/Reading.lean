import RankRunner.Number.Numeral
import RankRunner.Value

/-! Reading the fields of a configuration from dynamic values. Each field accepts what can stand
for it without loss: numerals for numbers, words for truth values. A value that does not fit has a
flaw, with a code and a message. -/

namespace RankRunner.Config

inductive Flaw where
  | stringType
  | stringTooShort
  | notAFormat
  | belowOne
  | intType
  | intParsing
  | intFraction
  | intSize
  | notFinite
  | boolType
  | boolParsing
  | listType
  deriving DecidableEq, Repr, Inhabited

namespace Flaw

def code : Flaw → String
  | .stringType => "string_type"
  | .stringTooShort => "string_too_short"
  | .notAFormat => "literal_error"
  | .belowOne => "greater_than_equal"
  | .intType => "int_type"
  | .intParsing => "int_parsing"
  | .intFraction => "int_from_float"
  | .intSize => "int_parsing_size"
  | .notFinite => "finite_number"
  | .boolType => "bool_type"
  | .boolParsing => "bool_parsing"
  | .listType => "list_type"

def message : Flaw → String
  | .stringType => "Input should be a valid string"
  | .stringTooShort => "String should have at least 1 character"
  | .notAFormat => "Input should be 'txt' or 'xml'"
  | .belowOne => "Input should be greater than or equal to 1"
  | .intType => "Input should be a valid integer"
  | .intParsing => "Input should be a valid integer, unable to parse string as an integer"
  | .intFraction => "Input should be a valid integer, got a number with a fractional part"
  | .intSize => "Unable to parse input string as an integer, exceeded maximum size"
  | .notFinite => "Input should be a finite number"
  | .boolType => "Input should be a valid boolean"
  | .boolParsing => "Input should be a valid boolean, unable to interpret input"
  | .listType => "Input should be a valid list"

end Flaw

/-! ### Numerals -/

def splitMinus : List Char → List Char × List Char
  | '-' :: cs => (['-'], cs)
  | cs => ([], cs)

/-- A number as it is written without any ornament: no leading zeros and no plus sign. That a
number is too large shows before whatever stands behind it. -/
def plainNumeral (cs : List Char) : Except Flaw Int :=
  let (sign, body) := splitMinus cs
  let digits := body.takeWhile Char.isDigit
  let complete := digits.length == body.length
  match digits with
  | [] => .error .intParsing
  | '0' :: more => if more.isEmpty && complete then .ok 0 else .error .intParsing
  | _ =>
    if Numeral.maxDigits < sign.length + digits.length then .error .intSize
    else
      match (Numeral.natural? asciiDigit? digits).filter fun _ => complete with
      | some n => .ok (if sign.isEmpty then n else -n)
      | none => .error .intParsing

/-- Skip zeros and underscores after a leading zero; `last` is the character before. A zero that
nothing or a point follows is kept, and a number may follow, also a negative one. -/
def skipZeros? (last : Char) : List Char → Option (List Char)
  | [] => some [last]
  | c :: cs =>
    if c == '0' || c == '_' then skipZeros? c cs
    else if c.isDigit || c == '-' then some (c :: cs)
    else if c == '.' then some (last :: c :: cs)
    else none

/-- Without leading zeros, for what starts like a number. -/
def dropZeros? : List Char → Option (List Char)
  | '0' :: cs => skipZeros? '0' cs
  | '-' :: cs => some ('-' :: cs)
  | c :: cs => if c.isDigit then some (c :: cs) else none
  | [] => none

def dropFraction (cs : List Char) : List Char :=
  match cs.dropWhile (· != '.') with
  | _ :: c :: rest => if (c :: rest).all (· == '0') then cs.takeWhile (· != '.') else cs
  | _ => cs

def hasDoubleUnderscore : List Char → Bool
  | '_' :: '_' :: _ => true
  | _ :: cs => hasDoubleUnderscore cs
  | [] => false

/-- Without underscores that stand alone between other characters. -/
def dropUnderscores (cs : List Char) : List Char :=
  if cs.head? == some '_' || cs.getLast? == some '_' || hasDoubleUnderscore cs then cs
  else cs.filter (· != '_')

/-- What follows the sign of a numeral, without the ornaments that are allowed. -/
def unadorned? (cs : List Char) : Option (List Char) :=
  (dropZeros? cs).map fun cs => dropUnderscores (dropFraction cs)

/-- A numeral without its ornaments. A plus sign is one, unless a minus sign follows it. -/
def plain? : List Char → Option (List Char)
  | '+' :: '-' :: _ => none
  | '+' :: cs => unadorned? cs
  | '-' :: cs => (unadorned? cs).map ('-' :: ·)
  | cs => unadorned? cs

/-- The integer that a text spells, with white space around it. Ornaments are looked for only
where the text is no number as it stands. -/
def numeral (s : String) : Except Flaw Int :=
  let cs := trimWhiteSpace s.toList
  match plainNumeral cs with
  | .error .intParsing => ((plain? cs).map plainNumeral).getD (.error .intParsing)
  | result => result

example : numeral " +0_07.00 " = .ok 7 := by cbv
example : numeral "1_000" = .ok 1000 := by cbv
example : numeral "-01" = .ok (-1) := by cbv
example : numeral "1." = .error .intParsing := by cbv
example : numeral "-_1" = .error .intParsing := by cbv

/-! ### Values -/

/-- Floats from here on, and their negatives, are too large to be read as integers. -/
def floatLimit : Int := 9223372036854775808

def ofFloat (x : Binary64) : Except Flaw Int :=
  match x.truncate? with
  | none => .error .notFinite
  | some n =>
    if !x.isWhole then .error .intFraction
    else if -floatLimit < n && n < floatLimit then .ok n
    else .error .intSize

def int : Value → Except Flaw Int
  | .int n => .ok n
  | .bool b => .ok (if b then 1 else 0)
  | .float x => ofFloat x
  | .text s => numeral s
  | _ => .error .intType

def text : Value → Except Flaw String
  | .text s => .ok s
  | _ => .error .stringType

def trueWords : List String := ["1", "on", "t", "true", "y", "yes"]

def falseWords : List String := ["0", "off", "f", "false", "n", "no"]

def truthWord (s : String) : Except Flaw Bool :=
  if trueWords.contains s.toLower then .ok true
  else if falseWords.contains s.toLower then .ok false
  else .error .boolParsing

/-- Zero and one stand for truth values, and numbers out of the range of floats for none. -/
def truthNumber (n : Int) : Except Flaw Bool :=
  if n = 0 then .ok false
  else if n = 1 then .ok true
  else if -floatLimit ≤ n && n < floatLimit then .error .boolParsing
  else .error .boolType

def truth : Value → Except Flaw Bool
  | .bool b => .ok b
  | .int n => truthNumber n
  | .text s => truthWord s
  | .float x =>
    match ofFloat x with
    | .ok n => truthNumber n
    | .error _ => .error .boolType
  | _ => .error .boolType

end RankRunner.Config
