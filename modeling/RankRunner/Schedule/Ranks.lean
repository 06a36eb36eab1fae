import RankRunner.Schedule.Scope

/-! The simple way to schedule a list: rank by rank, and within a rank in the order of declaration,
each item whose dependencies succeeded is dispatched, and every other one skipped. -/

namespace RankRunner

namespace Siblings

def ranks {α : Type} (l : Siblings α) : List Int :=
  (List.range (l.maxRank + 1).toNat).map Int.ofNat

end Siblings

namespace Schedule

variable {α σ : Type} [WorkItem α]

def skip (pos : Nat) (reason : String) : Effect (Scope α σ) Unit := do
  match ← Scope.at? pos with
  | none => pure ()
  | some a =>
    Scope.modifyAt pos WorkItem.skip
    Scope.onHost do Host.say ((← get).console.skipped (WorkItem.id a) reason)

/-- Whether the item at a place is of the given rank and can be dispatched. An item of that rank
that cannot is skipped. -/
def isDue (rank : Int) (pos : Nat) : Effect (Scope α σ) Bool := do
  let list := (← get).list
  match list.items[pos]? with
  | none => return false
  | some a =>
    let i := WorkItem.item a
    if i.rank ≠ rank then return false
    if list.satisfiesAll i then return true
    skip pos ("depends on " ++ ", ".intercalate (list.unsatisfied i))
    return false

def scheduleRank (dispatch : Nat → Effect (Scope α σ) Unit) (rank : Int) :
    List Nat → Effect (Scope α σ) Unit
  | [] => pure ()
  | pos :: rest => do
    if ← isDue rank pos then dispatch pos
    scheduleRank dispatch rank rest

/-- Go through ranks until the run is asked to stop. -/
def scheduleRanks (dispatch : Nat → Effect (Scope α σ) Unit) :
    List Int → Effect (Scope α σ) Unit
  | [] => pure ()
  | rank :: ranks => do
    if ← Scope.requested then return
    scheduleRank dispatch rank (List.range (← get).list.items.length)
    scheduleRanks dispatch ranks

def schedule (dispatch : Nat → Effect (Scope α σ) Unit) : Effect (Scope α σ) Unit := do
  scheduleRanks dispatch (← get).list.ranks

end Schedule
end RankRunner
