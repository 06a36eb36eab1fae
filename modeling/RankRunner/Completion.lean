import RankRunner.Failure
import RankRunner.Status
import RankRunner.Usage

/-! What a wait learned about one child process, and how the system encodes it. -/

namespace RankRunner

structure Completion where
  pid : Option Int
  /-- The exit code of a child that ended on its own. -/
  exit : Option Int := none
  /-- The signal that killed the child. -/
  signal : Option Int := none
  usage : Option Usage := none
  /-- Whether the child was only stopped, and still lives. -/
  stopped : Bool := false
  deriving DecidableEq, Repr, Inhabited

namespace Completion

/-- The exit code. A death by a signal is an abnormal end, whatever the signal. -/
def result (c : Completion) : Int :=
  if c.signal.isSome then Status.aborted.code else c.exit.getD Status.aborted.code

/-- Whether a number fits the status word of the system. -/
def isStatusWord (status : Int) : Bool := -2147483648 ≤ status && status < 2147483648

/-- The completion that a status word stands for. Its lowest seven bits hold the signal, all ones
for a child that was stopped, and zero for one that ended on its own; the next byte but one holds
the exit code. -/
def decode (pid status : Int) (usage : Option Usage) : Except Raised Completion :=
  if !isStatusWord status then .error (.overflow "Python int too large to convert to C int")
  else
    let low := status % 256
    let signal := status % 128
    if low = 127 then .ok { pid := some pid, stopped := true }
    else if signal = 0 || signal = 127 then
      .ok { pid := some pid, exit := some (status / 256 % 256), usage }
    else .ok { pid := some pid, signal := some signal, usage }

/-- The status word of a child that exited with `code`. -/
def exitWord (code : Int) : Int := code % 256 * 256

/-- A child that exits with a code from 0 to 255 is decoded to that code. -/
theorem decode_exitWord (pid : Int) {code : Int} (usage : Option Usage) (h : 0 ≤ code)
    (h' : code < 256) :
    decode pid (exitWord code) usage = .ok { pid := some pid, exit := some code, usage } := by
  have hc : exitWord code = code * 256 := by unfold exitWord; omega
  have hw : isStatusWord (code * 256) = true := by simp [isStatusWord]; omega
  have h1 : code * 256 % 256 = 0 := by omega
  have h2 : code * 256 % 128 = 0 := by omega
  simp [decode, hc, hw, h1, h2]
  omega

/-- A child that is killed by a signal from 1 to 126 is decoded to that signal. -/
theorem decode_signal (pid : Int) {signal : Int} (usage : Option Usage) (h : 0 < signal)
    (h' : signal < 127) :
    decode pid signal usage = .ok { pid := some pid, signal := some signal, usage } := by
  have hw : isStatusWord signal = true := by simp [isStatusWord]; omega
  have h1 : signal % 256 = signal := by omega
  have h2 : signal % 128 = signal := by omega
  have h3 : ¬ signal = 127 := by omega
  have h4 : ¬ signal = 0 := by omega
  simp [decode, hw, h1, h2, h3, h4]

end Completion
end RankRunner
