import RankRunner.Raised.Basic

/-! Failures to code a text: a part of it cannot be written in some code, or
turned into another text. -/

namespace RankRunner.Raised

inductive Wanted where
  | text
  | index
  | anything
  deriving DecidableEq, Repr

/-- The arguments of the conditions about codes: the code, the text, the part of it from a first to
before a last place, and the reason. -/
def codingArguments? : String → Option (List Wanted)
  | "UnicodeEncodeError" => some [.text, .text, .index, .index, .text]
  | "UnicodeDecodeError" => some [.text, .anything, .index, .index, .text]
  | "UnicodeTranslateError" => some [.text, .index, .index, .text]
  | _ => none

/-- Places from here on, and their negatives, are out of range. -/
def placeLimit : Int := 9223372036854775808

def argumentComplaint? (position : Nat) : Wanted → Value → Option Raised
  | .text, .text _ => none
  | .text, v => some (.badType s!"argument {position} must be str, not {v.givenName}")
  | .index, .bool _ => none
  | .index, .int n =>
    if -placeLimit ≤ n && n < placeLimit then none
    else some (.overflow "Python int too large to convert to C ssize_t")
  | .index, v => some (.badType s!"'{v.typeName}' object cannot be interpreted as an integer")
  | .anything, _ => none

def argumentsComplaint? (position : Nat) : List Wanted → List Value → Option Raised
  | w :: ws, v :: vs =>
    (argumentComplaint? position w v).or (argumentsComplaint? (position + 1) ws vs)
  | _, _ => none

/-- What is wrong with the arguments of a condition about codes. No value is a sequence of bytes,
which could be decoded. -/
def codingComplaint? (r : Raised) : Option Raised :=
  match codingArguments? r.name with
  | none => none
  | some wanted =>
    if wanted.length ≠ r.args.length then
      some (.badType
        s!"function takes exactly {wanted.length} arguments ({r.args.length} given)")
    else
      let bytesWanted := if wanted.contains .anything then r.args[1]? else none
      (argumentsComplaint? 1 wanted r.args).or <| bytesWanted.map fun v =>
        .badType s!"a bytes-like object is required, not '{v.typeName}'"

def placeOf : Value → Int
  | .int n => n
  | .bool true => 1
  | _ => 0

def numbered (c : Char) : String :=
  let n := c.toNat
  String.ofList <|
    if n < 0x100 then '\\' :: 'x' :: Literal.hex 2 n
    else if n < 0x10000 then '\\' :: 'u' :: Literal.hex 4 n
    else '\\' :: 'U' :: Literal.hex 8 n

/-- The part of a text from `first` to before `last`: a single character is shown. -/
def partText (text : String) (first last : Int) : String :=
  match (text.toList[first.toNat]?).filter fun _ => 0 ≤ first ∧ last = first + 1 with
  | some c => s!"character '{numbered c}' in position {first}"
  | none => s!"characters in position {first}-{last - 1}"

/-- The text of a failure to code a text. -/
def codingText? (r : Raised) : Option String :=
  match r.name, r.args with
  | "UnicodeEncodeError", [code, .text s, first, last, reason] =>
    some (s!"'{code.display}' codec can't encode {partText s (placeOf first) (placeOf last)}" ++
      s!": {reason.display}")
  | "UnicodeTranslateError", [.text s, first, last, reason] =>
    some s!"can't translate {partText s (placeOf first) (placeOf last)}: {reason.display}"
  | _, _ => none

end RankRunner.Raised
