/-! The status of a work item is an exit code. Four codes have a meaning and a label of their own;
every other code is kept and labelled by its number. -/

namespace RankRunner

structure Status where
  code : Int
  deriving DecidableEq, Repr, Inhabited

namespace Status

def success : Status := ⟨0⟩
def failure : Status := ⟨1⟩

/-- Of a case that ended abnormally. No case function answers with it on purpose. -/
def aborted : Status := ⟨2⟩

/-- Of an item that was not dispatched because of its dependencies. -/
def skipped : Status := ⟨3⟩

/-- The label of a status with a meaning of its own. -/
def named? (s : Status) : Option String :=
  if s.code = 0 then some "PASS"
  else if s.code = 1 then some "FAIL"
  else if s.code = 2 then some "ABRT"
  else if s.code = 3 then some "SKIP"
  else none

def label (s : Status) : String := s.named?.getD ("E" ++ toString s.code)

/-- Whether a case may end with this status on its own account. -/
def isExpected (s : Status) : Bool := s == success || s == failure || s == aborted

theorem named?_eq_none_iff (s : Status) : s.named? = none ↔ s.code < 0 ∨ 3 < s.code := by
  unfold named?
  repeat' split
  all_goals simp
  all_goals omega

end Status
end RankRunner
