import RankRunner.Value
import RankRunner.Text.Classes

/-! JSON texts: `Json.read?` reads one into a value and `Json.write` writes a value on one line in
ASCII. Numbers without fraction and exponent are integers of any size, and an object keeps the
order of its keys, a repeated key giving its last value at the place of the first. The numbers that
are not finite are written by their names. -/

namespace RankRunner.Json

def isBlank (c : Char) : Bool := c == ' ' || c == '\t' || c == '\n' || c == '\r'

def skipBlanks (cs : List Char) : List Char := cs.dropWhile isBlank

def hexDigit? (c : Char) : Option Nat :=
  if c.isDigit then some (c.toNat - 48)
  else if 'a' ≤ c && c ≤ 'f' then some (c.toNat - 87)
  else if 'A' ≤ c && c ≤ 'F' then some (c.toNat - 55)
  else none

def hex4? : List Char → Option (Nat × List Char)
  | a :: b :: c :: d :: cs => do
    let a ← hexDigit? a
    let b ← hexDigit? b
    let c ← hexDigit? c
    let d ← hexDigit? d
    some (((a * 16 + b) * 16 + c) * 16 + d, cs)
  | _ => none

def simpleEscape? : Char → Option Char
  | '"' => some '"'
  | '\\' => some '\\'
  | '/' => some '/'
  | 'b' => some '\x08'
  | 'f' => some '\x0c'
  | 'n' => some '\n'
  | 'r' => some '\r'
  | 't' => some '\t'
  | _ => none

/-- The code units of a string up to its closing quote, last first. A unit above `0xFFFF` is a
character that was written without an escape. -/
def units (seen : List Nat) : Nat → List Char → Option (List Nat × List Char)
  | 0, _ => none
  | _, [] => none
  | _, '"' :: cs => some (seen, cs)
  | fuel + 1, '\\' :: 'u' :: cs =>
    match hex4? cs with
    | some (n, rest) => units (n :: seen) fuel rest
    | none => none
  | fuel + 1, '\\' :: c :: cs =>
    match simpleEscape? c with
    | some c => units (c.toNat :: seen) fuel cs
    | none => none
  | fuel + 1, c :: cs => units (c.toNat :: seen) fuel cs

/-- Characters from code units: a high and a low surrogate make one character, and a surrogate
that stands alone is replaced. -/
def joinUnits : List Nat → List Char
  | [] => []
  | hi :: lo :: us =>
    if 0xD800 ≤ hi && hi < 0xDC00 && 0xDC00 ≤ lo && lo < 0xE000 then
      Char.ofNat (0x10000 + (hi - 0xD800) * 0x400 + (lo - 0xDC00)) :: joinUnits us
    else if 0xD800 ≤ hi && hi < 0xE000 then '\ufffd' :: joinUnits (lo :: us)
    else Char.ofNat hi :: joinUnits (lo :: us)
  | [u] => if 0xD800 ≤ u && u < 0xE000 then ['\ufffd'] else [Char.ofNat u]

/-- The rest of a string whose opening quote has been read. -/
def string? (cs : List Char) : Option (String × List Char) :=
  (units [] (cs.length + 1) cs).map fun (seen, rest) =>
    (String.ofList (joinUnits seen.reverse), rest)

def spanDigits (cs : List Char) : List Char × List Char :=
  (cs.takeWhile Char.isDigit, cs.dropWhile Char.isDigit)

def digitsValue (cs : List Char) : Nat :=
  cs.foldl (fun n c => n * 10 + (c.toNat - 48)) 0

/-- The decimal exponent after an `e`, and the rest; without an `e` there is none. -/
def exponent? : List Char → Option (Int × List Char)
  | e :: cs =>
    if e == 'e' || e == 'E' then
      let (negative, cs) :=
        match cs with
        | '-' :: cs => (true, cs)
        | '+' :: cs => (false, cs)
        | cs => (false, cs)
      match spanDigits cs with
      | ([], _) => none
      | (ds, rest) =>
        let n : Int := digitsValue ds
        some (if negative then -n else n, rest)
    else none
  | [] => none

/-- The fraction digits after a point, and the rest. -/
def fraction : List Char → Option (List Char × List Char)
  | '.' :: cs =>
    match spanDigits cs with
    | ([], _) => none
    | (ds, rest) => some (ds, rest)
  | _ => none

def number? (negative : Bool) (cs : List Char) : Option (Value × List Char) :=
  match spanDigits cs with
  | ([], 'I' :: 'n' :: 'f' :: 'i' :: 'n' :: 'i' :: 't' :: 'y' :: rest) =>
    some (.float (.infinity negative), rest)
  | ([], _) => none
  | (whole, rest) =>
    let part := fraction rest
    let rest := (part.map (·.2)).getD rest
    let power := exponent? rest
    let rest := (power.map (·.2)).getD rest
    match part, power with
    | none, none =>
      let n : Int := digitsValue whole
      some (.int (if negative then -n else n), rest)
    | _, _ =>
      let places := (part.map (·.1)).getD []
      let e := (power.map (·.1)).getD 0
      let x := Binary64.ofDecimal negative (digitsValue (whole ++ places)) (e - places.length)
      some (.float x, rest)

/-- Put an entry at the end, or in the place of the entry with its key. -/
def insert (key : String) (v : Value) : List (String × Value) → List (String × Value)
  | [] => [(key, v)]
  | (k, w) :: es => if k = key then (k, v) :: es else (k, w) :: insert key v es

mutual

/-- A value and the rest. Every call takes one unit of fuel. -/
def value? : Nat → List Char → Option (Value × List Char)
  | 0, _ => none
  | fuel + 1, cs =>
    match skipBlanks cs with
    | '"' :: cs => (string? cs).map fun (s, rest) => (.text s, rest)
    | '[' :: cs =>
      match skipBlanks cs with
      | ']' :: rest => some (.list [], rest)
      | _ => (items? fuel cs).map fun (vs, rest) => (.list vs, rest)
    | '\x7b' :: cs =>
      match skipBlanks cs with
      | '\x7d' :: rest => some (.dict [], rest)
      | _ => (entries? fuel [] cs).map fun (es, rest) => (.dict es, rest)
    | 'n' :: 'u' :: 'l' :: 'l' :: rest => some (.null, rest)
    | 't' :: 'r' :: 'u' :: 'e' :: rest => some (.bool true, rest)
    | 'f' :: 'a' :: 'l' :: 's' :: 'e' :: rest => some (.bool false, rest)
    | 'N' :: 'a' :: 'N' :: rest => some (.float .nan, rest)
    | '-' :: cs => number? true cs
    | cs => number? false cs

def items? : Nat → List Char → Option (List Value × List Char)
  | 0, _ => none
  | fuel + 1, cs =>
    match value? fuel cs with
    | none => none
    | some (v, rest) =>
      match skipBlanks rest with
      | ',' :: rest => (items? fuel rest).map fun (vs, rest) => (v :: vs, rest)
      | ']' :: rest => some ([v], rest)
      | _ => none

/-- The entries of an object up to its closing brace, after those in `seen`. -/
def entries? : Nat → List (String × Value) → List Char →
    Option (List (String × Value) × List Char)
  | 0, _, _ => none
  | fuel + 1, seen, cs =>
    match skipBlanks cs with
    | '"' :: cs =>
      match string? cs with
      | none => none
      | some (key, rest) =>
        match skipBlanks rest with
        | ':' :: rest =>
          match value? fuel rest with
          | none => none
          | some (v, rest) =>
            let seen := insert key v seen
            match skipBlanks rest with
            | ',' :: rest => entries? fuel seen rest
            | '\x7d' :: rest => some (seen, rest)
            | _ => none
        | _ => none
    | _ => none

end

def read? (s : String) : Option Value :=
  let cs := s.toList
  match value? (2 * cs.length + 2) cs with
  | some (v, rest) => if (skipBlanks rest).isEmpty then some v else none
  | none => none

def writeUnit (n : Nat) : List Char := '\\' :: 'u' :: Literal.hex 4 n

/-- One character of a string, in ASCII. -/
def writeChar (c : Char) : List Char :=
  let n := c.toNat
  if c = '"' then ['\\', '"']
  else if c = '\\' then ['\\', '\\']
  else if c = '\n' then ['\\', 'n']
  else if 32 ≤ n && n < 127 then [c]
  else if n < 0x10000 then writeUnit n
  else writeUnit (0xD800 + (n - 0x10000) / 0x400) ++ writeUnit (0xDC00 + (n - 0x10000) % 0x400)

def writeString (s : String) : String :=
  String.ofList ('"' :: s.toList.flatMap writeChar ++ ['"'])

def writeFloat : Binary64 → String
  | .nan => "NaN"
  | .infinity negative => if negative then "-Infinity" else "Infinity"
  | x => x.shortest

mutual

def write : Value → String
  | .null => "null"
  | .bool b => if b then "true" else "false"
  | .int n => toString n
  | .float x => writeFloat x
  | .text s => writeString s
  | .list items => "[" ++ ", ".intercalate (writeItems items) ++ "]"
  | .dict entries => "\x7b" ++ ", ".intercalate (writeEntries entries) ++ "\x7d"

def writeItems : List Value → List String
  | [] => []
  | v :: vs => write v :: writeItems vs

def writeEntries : List (String × Value) → List String
  | [] => []
  | (k, v) :: es => (writeString k ++ ": " ++ write v) :: writeEntries es

end

end RankRunner.Json
