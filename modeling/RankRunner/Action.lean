import RankRunner.Failure

/-! What the function of a case does when it is called. An action lists the deeds of its calls in
turn; the last deed is repeated for every further call. -/

namespace RankRunner

inductive Ending where
  | returns (v : Value)
  | raises (f : Failure)
  deriving Repr, Inhabited

/-- The effects of one call in their order, and its ending. -/
structure Deed where
  /-- Microseconds that the call takes. -/
  advance : Int := 0
  print : Option String := none
  /-- Whether the call asks for an interruption. -/
  request : Bool := false
  /-- A signal that arrives during the call. -/
  signal : Option Int := none
  /-- The signal by which a child process dies in the call. -/
  killSelf : Option Int := none
  ending : Ending := .returns .null
  deriving Repr, Inhabited

/-- The key tells an action from every other one, so that its calls can be counted. -/
structure Action where
  key : Nat
  deeds : List Deed
  deriving Repr, Inhabited

namespace Action

/-- The deed of the call after `n` earlier ones. -/
def deed (a : Action) (n : Nat) : Deed :=
  (a.deeds[min n (a.deeds.length - 1)]?).getD {}

theorem deed_of_le {a : Action} {n : Nat} (h : a.deeds.length ≤ n + 1) :
    a.deed n = a.deed (a.deeds.length - 1) := by
  have : min n (a.deeds.length - 1) = a.deeds.length - 1 := by omega
  simp [deed, this]

end Action
end RankRunner
