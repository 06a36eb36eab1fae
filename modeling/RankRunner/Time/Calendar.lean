import RankRunner.Raised.Basic
import RankRunner.Time

/-! The instants that the calendar has: those of the years 1 to 9999, in universal time and in the
time zone in which they are shown, which is less than a day away from it. -/

namespace RankRunner.Calendar

/-- The first instant of the year 1, and the first one after the year 9999. -/
def first : Int := -62135596800000000
def limit : Int := 253402300800000000

def has (micros : Int) : Bool := first ≤ micros && micros < limit

def dayMicros : Int := 86400000000

/-- The most days that a length of time may have. -/
def maxDays : Int := 999999999

def noDate : Raised := .overflow "date value out of range"

/-- What is wrong with a length of time, which counts whole days and a part of a day. -/
def lengthComplaint? (micros : Int) : Option Raised :=
  let days := Int.fdiv micros dayMicros
  if days < -2147483648 || 2147483648 ≤ days then
    some (.overflow "Python int too large to convert to C int")
  else if days < -maxDays || maxDays < days then
    some (.overflow s!"days={days}; must have magnitude <= {maxDays}")
  else none

/-- A number of seconds as days and seconds of a day. -/
def lengthText (seconds : Int) : String :=
  let days := Int.fdiv seconds 86400
  let rest := Int.fmod seconds 86400
  let parts := (if days = 0 then [] else [s!"days={days}"]) ++
    (if rest = 0 then [] else [s!"seconds={rest}"])
  "datetime.timedelta(" ++ (if parts.isEmpty then "0" else ", ".intercalate parts) ++ ")"

/-- What is wrong with the offset of a time zone. -/
def offsetComplaint? (offset : Int) : Option Raised :=
  (lengthComplaint? (offset * 1000000)).or <|
    if offset.natAbs < 86400 then none
    else some (.badValue ("offset must be a timedelta strictly between -timedelta(hours=24) and " ++
      s!"timedelta(hours=24), not {lengthText offset}."))

/-- An instant that the calendar has, or why there is none. -/
def instant (micros offset : Int) : Except Raised Timestamp :=
  match (lengthComplaint? micros).or (if has micros then offsetComplaint? offset else some noDate) with
  | some r => .error r
  | none => if has (micros + offset * 1000000) then .ok ⟨micros, offset⟩ else .error noDate

/-- An instant of the calendar is read as it is. -/
theorem instant_eq_ok {micros offset : Int} {t : Timestamp} (h : instant micros offset = .ok t) :
    t = ⟨micros, offset⟩ ∧ has (micros + offset * 1000000) = true := by
  unfold instant at h
  split at h
  · cases h
  · split at h
    · next hh => exact ⟨(Except.ok.inj h).symm, hh⟩
    · cases h

end RankRunner.Calendar
