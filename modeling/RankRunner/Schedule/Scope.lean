import RankRunner.Host
import RankRunner.Run

/-! Scheduling works on one sibling list and the host, a `Scope`. Siblings are named by their
places, which do not change while a list is scheduled. -/

namespace RankRunner

structure Scope (α σ : Type) where
  list : Siblings α
  host : Host σ

namespace Scope

variable {α σ β : Type}

def onHost (x : Effect (Host σ) β) : Effect (Scope α σ) β :=
  x.zoom (·.host) fun host s => { s with host }

def at? (pos : Nat) : Effect (Scope α σ) (Option α) := return (← get).list.items[pos]?

def modifyAt (pos : Nat) (f : α → α) : Effect (Scope α σ) Unit :=
  modify fun s => { s with list := s.list.modify pos f }

/-- Count children that were started, or collected. -/
def addOutstanding (n : Int) : Effect (Scope α σ) Unit :=
  modify fun s => { s with list := { s.list with outstanding := s.list.outstanding + n } }

/-- Whether the run is asked to stop. -/
def requested : Effect (Scope α σ) Bool := return (← get).host.requested

def stampStart [WorkItem α] (pos : Nat) : Effect (Scope α σ) Unit := do
  let t ← onHost Host.now
  modifyAt pos (WorkItem.update ({ · with start := some t }))

def stampStop [WorkItem α] (pos : Nat) : Effect (Scope α σ) Unit := do
  let t ← onHost Host.now
  modifyAt pos (WorkItem.update ({ · with stop := some t }))

def showCase (pos : Nat) : Effect (Scope Case σ) Unit := do
  match ← at? pos with
  | none => pure ()
  | some c => onHost do Host.say ((← get).console.caseResult c)

end Scope
end RankRunner
