import RankRunner.Completion
import RankRunner.Host
import RankRunner.Run

/-! What can start cases on its own and tell of their ends. -/

namespace RankRunner

structure Launcher (σ : Type) where
  /-- Start a case without waiting for it, and answer with its process. A case knows its siblings
  as they are when it is started. -/
  start : Siblings Case → Case → Effect (Host σ) Int
  wait : Int → Effect (Host σ) Completion
  /-- Wait for whichever child ends next; there may be none. -/
  waitAny : Effect (Host σ) (Option Completion)
  kill : Int → Effect (Host σ) Unit
  /-- Collect all other children, and answer with their number. -/
  drain : Effect (Host σ) Int
  /-- After so many waits for any child there is none left to wait for. -/
  patience : Host σ → Nat

end RankRunner
