import RankRunner.Status

/-! Counters of work items by outcome. An item that was not run is counted as such whatever its
status, and every status without a counter of its own counts as a failure. -/

namespace RankRunner

structure Synopsis where
  total : Int := 0
  passed : Int := 0
  failed : Int := 0
  aborted : Int := 0
  skipped : Int := 0
  notRun : Int := 0
  deriving DecidableEq, Repr, Inhabited

namespace Synopsis

def count (s : Synopsis) (status : Status) (notRun : Bool) : Synopsis :=
  let s := { s with total := s.total + 1 }
  if notRun then { s with notRun := s.notRun + 1 }
  else if status = .success then { s with passed := s.passed + 1 }
  else if status = .aborted then { s with aborted := s.aborted + 1 }
  else if status = .skipped then { s with skipped := s.skipped + 1 }
  else { s with failed := s.failed + 1 }

def merge (s t : Synopsis) : Synopsis where
  total := s.total + t.total
  passed := s.passed + t.passed
  failed := s.failed + t.failed
  aborted := s.aborted + t.aborted
  skipped := s.skipped + t.skipped
  notRun := s.notRun + t.notRun

def allPassed (s : Synopsis) : Bool := s.passed == s.total

def entries (s : Synopsis) : List (String × Int) := [
  ("total", s.total), ("pass", s.passed), ("fail", s.failed), ("abrt", s.aborted),
  ("skip", s.skipped), ("notrun", s.notRun)]

/-- Whether the counters by outcome add up to the total. -/
def Balanced (s : Synopsis) : Prop :=
  s.passed + s.failed + s.aborted + s.skipped + s.notRun = s.total

@[simp] theorem count_total (s : Synopsis) (st : Status) (b : Bool) :
    (s.count st b).total = s.total + 1 := by
  unfold count; repeat' split
  all_goals rfl

theorem Balanced.count {s : Synopsis} (h : s.Balanced) (st : Status) (b : Bool) :
    (s.count st b).Balanced := by
  unfold Balanced at *
  unfold Synopsis.count; repeat' split
  all_goals dsimp only; omega

theorem Balanced.merge {s t : Synopsis} (hs : s.Balanced) (ht : t.Balanced) :
    (s.merge t).Balanced := by
  unfold Balanced at *
  simp only [Synopsis.merge]; omega

end Synopsis
end RankRunner
