import RankRunner.Number.Rounding

/-! Binary floating-point numbers with 53 significant bits, kept as an integer significand and a
power of two, so that every reading, rounding and printing is exact integer arithmetic.

`Binary64.ofRatio` rounds a quotient to the nearest number, `Binary64.fixed` prints with a fixed
number of places, and `Binary64.shortest` prints the fewest digits that read back. -/

namespace RankRunner

/-- A finite number is `significand * 2 ^ exponent`, up to its sign. -/
inductive Binary64 where
  | nan
  | infinity (negative : Bool)
  | finite (negative : Bool) (significand : Nat) (exponent : Int)
  deriving DecidableEq, Repr

namespace Binary64

def minExponent : Int := -1074

/-- The exponent of the largest finite numbers, whose significand has 53 bits. -/
def maxExponent : Int := 971

/-- The least significand that has 53 bits. -/
def leastNormal : Nat := Nat.pow 2 52

/-- A nonnegative rational times a power of two, as numerator and denominator. -/
def scale (num den : Nat) (e : Int) : Nat × Nat :=
  if 0 ≤ e then (num * Nat.pow 2 e.toNat, den) else (num, den * Nat.pow 2 (-e).toNat)

/-- The exponent of the highest power of two that is not above `num / den`. -/
def floorLog2 (num den : Nat) : Int :=
  let guess : Int := (num.log2 : Int) - den.log2
  let (n, d) := scale num den (-guess)
  if n < d then guess - 1 else guess

/-- The number nearest to `num / den`; a tie goes to the even significand, and a quotient too
large for every finite number becomes infinite. -/
def ofRatio (negative : Bool) (num den : Nat) : Binary64 :=
  if num = 0 then .finite negative 0 minExponent
  else
    let e := max (floorLog2 num den - 52) minExponent
    let (n, d) := scale num den (-e)
    let q := roundQuotient n d
    let (q, e) := if q = 2 * leastNormal then (leastNormal, e + 1) else (q, e)
    if maxExponent < e then .infinity negative else .finite negative q e

/-- The number nearest to `digits * 10 ^ exponent`. The bounds keep the powers of ten small:
beyond them every value is infinite, or zero. -/
def ofDecimal (negative : Bool) (digits : Nat) (exponent : Int) : Binary64 :=
  let size : Int := (Nat.toDigits 10 digits).length + exponent
  if digits = 0 || size < -330 then .finite negative 0 minExponent
  else if 310 < size then .infinity negative
  else if 0 ≤ exponent then ofRatio negative (digits * Nat.pow 10 exponent.toNat) 1
  else ofRatio negative digits (Nat.pow 10 (-exponent).toNat)

/-- The integer part, with no integer for what is not finite. -/
def truncate? : Binary64 → Option Int
  | .nan | .infinity _ => none
  | .finite negative m e =>
    let (n, d) := scale m 1 e
    let whole : Int := (n / d : Nat)
    some (if negative then -whole else whole)

def isWhole : Binary64 → Bool
  | .nan | .infinity _ => false
  | .finite _ m e => let (n, d) := scale m 1 e; n % d == 0

def signText (negative : Bool) : String := if negative then "-" else ""

/-- The number rounded to `places` decimal places; a half goes to the even digit, and the sign is
kept also where the digits are all zero. -/
def fixed (places : Nat) : Binary64 → String
  | .nan => "nan"
  | .infinity negative => signText negative ++ "inf"
  | .finite negative m e =>
    let (n, d) := scale m 1 e
    signText negative ++ fixedPlaces places (roundQuotient (n * Nat.pow 10 places) d)

/-- The position of the decimal point before the first nonzero digit of `num / den`: the `p` with
`10 ^ (p - 1) ≤ num / den < 10 ^ p`. Quotients below `10 ^ (-400)` are not met. -/
def pointOf (num den : Nat) : Int :=
  if den ≤ num then (Nat.toDigits 10 (num / den)).length
  else
    match (List.range 400).find? fun j => den ≤ num * Nat.pow 10 (j + 1) with
    | some j => -(j : Int)
    | none => -400

/-- `num / den` times a power of ten, as numerator and denominator. -/
def scale10 (num den : Nat) (e : Int) : Nat × Nat :=
  if 0 ≤ e then (num * Nat.pow 10 e.toNat, den) else (num, den * Nat.pow 10 (-e).toNat)

/-- The decimal with `places` digits that is nearest to `num / den` and lies in the interval
from `lo / den` to `hi / den`, as an integer on that grid. -/
def onGrid? (lo num hi den : Nat) (closed : Bool) (unit : Int) : Option Nat :=
  let inside (k : Nat) : Bool :=
    let (kn, kd) := scale10 k 1 unit
    let (l, v, h) := (lo * kd, kn * den, hi * kd)
    if closed then l ≤ v && v ≤ h else l < v && v < h
  let (n, d) := scale10 num den (-unit)
  let below := n / d
  let near := roundQuotient n d
  if inside near then some near
  else if inside below then some below
  else if inside (below + 1) then some (below + 1)
  else none

/-- The fewest digits that read back as the number, the nearest of those, and the unit of the last
of them as a power of ten. -/
def shortestDigits (m : Nat) (e : Int) : Nat × Int :=
  let (num, den) := scale (4 * m) 4 e
  let (hi, _) := scale (4 * m + 2) 4 e
  let (lo, _) := scale (if m = leastNormal && minExponent < e then 4 * m - 1 else 4 * m - 2) 4 e
  let point := pointOf num den
  let units := (List.range 17).map fun (i : Nat) => point - (i + 1)
  match units.findSome? fun unit =>
      (onGrid? lo num hi den (m % 2 == 0) unit).map (·, unit) with
  | some r => r
  | none => (0, 0)

/-- Digits with the decimal point at `point`, that is before the digit with that index.
Positions from -3 to 16 are written in full, all others with an exponent of two or more digits. -/
def layout (digits : List Char) (point : Int) : String :=
  if -4 < point && point ≤ 16 then
    if point ≤ 0 then
      "0." ++ String.ofList (List.replicate (-point).toNat '0' ++ digits)
    else
      let n := point.toNat
      let whole := digits.take n ++ List.replicate (n - digits.length) '0'
      let part := digits.drop n
      String.ofList whole ++ "." ++ (if part.isEmpty then "0" else String.ofList part)
  else
    let e := point - 1
    let head := String.ofList (digits.take 1)
    let tail := if digits.length ≤ 1 then "" else "." ++ String.ofList (digits.drop 1)
    head ++ tail ++ "e" ++ (if e < 0 then "-" else "+") ++ paddedDigits 2 e.natAbs

/-- The shortest decimal text that reads back as the number. -/
def shortest : Binary64 → String
  | .nan => "nan"
  | .infinity negative => signText negative ++ "inf"
  | .finite negative 0 _ => signText negative ++ "0.0"
  | .finite negative m e =>
    let (k, unit) := shortestDigits m e
    let all := Nat.toDigits 10 k
    let digits := (all.reverse.dropWhile (· == '0')).reverse
    signText negative ++ layout digits (all.length + unit)

end Binary64
end RankRunner
