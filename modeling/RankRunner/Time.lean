import RankRunner.Number.Binary64

/-! Instants and clocks. An instant is a number of microseconds since the start of 1970 in
universal time, shown in a time zone; the clock is a counter that every reading moves on. -/

namespace RankRunner

structure Date where
  year : Int
  month : Nat
  day : Nat
  deriving DecidableEq, Repr

namespace Date

/-- The date that many days after the first of January 1970. Years are counted from the first of
March, so that a leap day ends its year, and in eras of 400 years, which have 146097 days. -/
def ofDays (days : Int) : Date :=
  let z := days + 719468
  let era := Int.fdiv z 146097
  let doe := (Int.fmod z 146097).toNat
  let yoe := (doe - doe / 1460 + doe / 36524 - doe / 146096) / 365
  let doy := doe - (365 * yoe + yoe / 4 - yoe / 100)
  let mp := (5 * doy + 2) / 153
  let day := doy - (153 * mp + 2) / 5 + 1
  let month := if mp < 10 then mp + 3 else mp - 9
  ⟨era * 400 + yoe + (if month ≤ 2 then 1 else 0), month, day⟩

def text (d : Date) : String :=
  paddedDigits 4 d.year.toNat ++ "-" ++ paddedDigits 2 d.month ++ "-" ++ paddedDigits 2 d.day

example : ofDays 0 = ⟨1970, 1, 1⟩ := by decide
example : ofDays (-1) = ⟨1969, 12, 31⟩ := by decide
example : ofDays 19782 = ⟨2024, 2, 29⟩ := by decide

end Date

/-- An instant, with the offset of the time zone it is shown in. -/
structure Timestamp where
  micros : Int
  /-- Seconds east of universal time. -/
  offset : Int := 0
  deriving DecidableEq, Repr, Inhabited

namespace Timestamp

/-- Hours, minutes and seconds of a number of seconds, the seconds only as asked. -/
def clockText (seconds : Nat) (withSeconds : Bool) : String :=
  let text := paddedDigits 2 (seconds / 3600) ++ ":" ++ paddedDigits 2 (seconds / 60 % 60)
  if withSeconds then text ++ ":" ++ paddedDigits 2 (seconds % 60) else text

def offsetText (offset : Int) : String :=
  (if offset < 0 then "-" else "+") ++ clockText offset.natAbs (offset.natAbs % 60 != 0)

/-- The date and time in the time zone of the instant, cut to whole milliseconds. -/
def text (t : Timestamp) : String :=
  let millis := Int.fdiv (t.micros + t.offset * 1000000) 1000
  let inDay := (Int.fmod millis 86400000).toNat
  (Date.ofDays (Int.fdiv millis 86400000)).text ++ "T" ++ clockText (inDay / 1000) true ++ "." ++
    paddedDigits 3 (inDay % 1000) ++ offsetText t.offset

end Timestamp

/-- A length of time in seconds with three decimal places. -/
def durationText (micros : Int) : String :=
  (Binary64.ofRatio (micros < 0) micros.natAbs 1000000).fixed 3

/-- By how many microseconds one reading after the other moves a clock on: by the first ones in
turn, and then always by the same number. -/
structure Pace where
  first : List Int := []
  rest : Int
  deriving DecidableEq, Repr, Inhabited

instance : Coe Int Pace := ⟨fun rest => { rest }⟩

/-- A clock that moves on with every reading. -/
structure Clock where
  next : Int
  step : Pace
  deriving DecidableEq, Repr, Inhabited

namespace Clock

def reading (c : Clock) : Timestamp := ⟨c.next, 0⟩

def tick (c : Clock) : Clock where
  next := c.next + c.step.first.headD c.step.rest
  step := { c.step with first := c.step.first.tail }

def advance (c : Clock) (micros : Int) : Clock := { c with next := c.next + micros }

end Clock
end RankRunner
