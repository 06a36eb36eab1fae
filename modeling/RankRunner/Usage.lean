import RankRunner.Raised.Basic

/-! The resources that a child process used, as the system accounts them. -/

namespace RankRunner

inductive Seconds where
  | whole (n : Int)
  | float (x : Binary64)
  deriving DecidableEq, Repr

namespace Seconds

instance : Inhabited Seconds := ⟨.whole 0⟩

/-- The floating-point number for a number of seconds. There is none for whole ones that are too
large. -/
def toFloat : Seconds → Except Raised Binary64
  | .float x => .ok x
  | .whole n =>
    match Binary64.ofRatio (n < 0) n.natAbs 1 with
    | .infinity _ => .error (.overflow "int too large to convert to float")
    | x => .ok x

def fixed (places : Nat) (s : Seconds) : Except Raised String :=
  s.toFloat.map (·.fixed places)

end Seconds

structure Usage where
  utime : Seconds
  stime : Seconds
  maxrss : Int
  minflt : Int := 0
  majflt : Int := 0
  nvcsw : Int := 0
  nivcsw : Int := 0
  deriving DecidableEq, Repr, Inhabited

namespace Usage

def zero : Usage := ⟨.whole 0, .whole 0, 0, 0, 0, 0, 0⟩

/-- The counters after the largest resident set, under their names in reports. -/
def faults (u : Usage) : List (String × Int) := [
  ("minflt", u.minflt), ("majflt", u.majflt), ("nvcsw", u.nvcsw), ("nivcsw", u.nivcsw)]

end Usage
end RankRunner
