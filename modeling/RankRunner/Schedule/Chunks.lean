import RankRunner.Schedule.Launch
import RankRunner.Schedule.Ranks
import RankRunner.Schedule.Reap

/-! Scheduling a list of cases in child processes: rank by rank, cases that are due are started in
chunks, and each chunk is collected before the next case is started. -/

namespace RankRunner.Schedule

variable {σ : Type}

/-- Collect a chunk, and answer whether to go on. Children that stay outstanding because the run
was asked to stop are left for later, and without such a cause they are a fault. -/
def barrier (launcher : Launcher σ) : Effect (Scope Case σ) Bool := do
  Scope.onHost (modify fun h => { h with barriers := h.barriers + 1 })
  match ← (reap launcher).attempt with
  | .ok _ => return true
  | .error (.fault f) =>
    if f.family = .reapIncomplete then
      if ← Scope.requested then
        Scope.onHost (Host.debugging f.text)
        return false
      match f with
      | .reapIncomplete n => Effect.fail (.reapStopped n)
      | f => Effect.fail (.given .reap (.text "reap") .null f.message f.details)
    else Effect.fail f
  | .error f => throw f

/-- Start what is due of one rank, `live` children of it being alive, and answer with the number
of children alive at the end, or with nothing where the scheduling has to stop. -/
def chunkRank (launcher : Launcher σ) (limit : Nat) (rank : Int) :
    Nat → List Nat → Effect (Scope Case σ) (Option Nat)
  | live, [] => return some live
  | live, pos :: rest => do
    if ← isDue rank pos then
      let live := if ← launch launcher pos then live + 1 else live
      if live = limit then
        if ← barrier launcher then chunkRank launcher limit rank 0 rest
        else return none
      else chunkRank launcher limit rank live rest
    else chunkRank launcher limit rank live rest

def chunkRanks (launcher : Launcher σ) (limit : Nat) :
    List Int → Effect (Scope Case σ) Unit
  | [] => pure ()
  | rank :: ranks => do
    if ← Scope.requested then return
    match ← chunkRank launcher limit rank 0 (List.range (← get).list.items.length) with
    | none => pure ()
    | some 0 => chunkRanks launcher limit ranks
    | some _ => if ← barrier launcher then chunkRanks launcher limit ranks

/-- Schedule a ranked list of cases with at most `limit` children at a time. -/
def scheduleChunks (launcher : Launcher σ) (limit : Nat) : Effect (Scope Case σ) Unit := do
  chunkRanks launcher limit (← get).list.ranks

end RankRunner.Schedule
