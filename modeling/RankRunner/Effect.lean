import RankRunner.Failure

/-! Effects: computations that change a state and may fail. A failure keeps the state that was
reached, so that whoever handles it finds what had been done by then. -/

namespace RankRunner

abbrev Effect (S α : Type) := EStateM Failure S α

namespace Effect

variable {S T α : Type}

def attempt (x : Effect S α) : Effect S (Except Failure α) := fun s =>
  match x.run s with
  | .ok a s => .ok (.ok a) s
  | .error f s => .ok (.error f) s

def raise (r : Raised) : Effect S α := throw (.raised r)

def fail (f : Fault) : Effect S α := throw (.fault f)

def ofExcept : Except Raised α → Effect S α
  | .ok a => pure a
  | .error r => raise r

/-- An effect on a part of the state. -/
def zoom (view : S → T) (put : T → S → S) (x : Effect T α) : Effect S α := fun s =>
  match x.run (view s) with
  | .ok a t => .ok a (put t s)
  | .error f t => .error f (put t s)

/-- An effect with a last change of the state, which a failure does not prevent. -/
def ensuring (x : Effect S α) (last : Effect S Unit) : Effect S α := fun s =>
  match x.run s with
  | .ok a s => (do last; pure a : Effect S α).run s
  | .error f s => (do last; throw f : Effect S α).run s

end Effect
end RankRunner
