import RankRunner.Failure
import RankRunner.Number.Numeral

/-! The integer that a value stands for. Numbers lose their fraction, truth values count as one
and zero, texts are read as numerals, and no other value stands for an integer. -/

namespace RankRunner.Value

/-- The complaint about a text that is no numeral. It quotes no more than 200 characters. -/
def notNumeral (s : String) : Raised :=
  .badValue ("invalid literal for int() with base 10: " ++
    String.ofList ((Literal.quote s).toList.take 200))

/-- The complaint about a text with more digits than a numeral may have. -/
def tooLong (digits : Nat) : Raised :=
  .badValue (s!"Exceeds the limit ({Numeral.maxDigits} digits) for integer string conversion: " ++
    s!"value has {digits} digits; use sys.set_int_max_str_digits() to increase the limit")

def toInt : Value → Except Raised Int
  | .bool b => .ok (if b then 1 else 0)
  | .int n => .ok n
  | .float x =>
    match x.truncate? with
    | some n => .ok n
    | none =>
      if x = .nan then .error (.badValue "cannot convert float NaN to integer")
      else .error (.overflow "cannot convert float infinity to integer")
  | .text s =>
    match Numeral.excess? s, Numeral.read? s with
    | some digits, _ => .error (tooLong digits)
    | none, some n => .ok n
    | none, none => .error (notNumeral s)
  | v => .error (.badType ("int() argument must be a string, a bytes-like object " ++
      "or a real number, not '" ++ v.typeName ++ "'"))

end RankRunner.Value
