import RankRunner.Run

/-! Two ways to declare a group: from its finished cases, or step by step. -/

namespace RankRunner

def Item.dependsOnAll (i : Item) (targets : List String) : Item :=
  targets.foldl Item.dependsOn i

/-- A case with its function and the siblings it depends on. -/
def Case.declare (id : String) (action : Option Action) (needs : List String) : Case :=
  { toItem := Item.dependsOnAll { id } needs, action }

namespace Group

def addCase (g : Group) (c : Case) : Except Fault Group := do
  let cases ← g.cases.add c
  return { g with cases }

def addCases : Group → List Case → Except Fault Group
  | g, [] => .ok g
  | g, c :: cs => do
    let g ← g.addCase c
    g.addCases cs

/-- A group with its cases, those of `first` before those of `cases`, and the groups it depends
on. -/
def declare (id : String) (first cases : List Case) (needs : List String) :
    Except Fault Group := do
  let g ← addCases { id } (first ++ cases)
  return { g with toItem := g.toItem.dependsOnAll needs }

def caseDependsOn (g : Group) (id target : String) : Except Fault Group := do
  let (cases, _) ← g.cases.dependsOn id target
  return { g with cases }

def caseDependsOnAll (g : Group) (id : String) : List String → Except Fault Group
  | [] => .ok g
  | t :: ts => do
    let g ← g.caseDependsOn id t
    g.caseDependsOnAll id ts

inductive Step where
  | dependsOn (targets : List String)
  | register (id : String) (action : Option Action)
  | caseDependsOn (id : String) (targets : List String)
  deriving Repr, Inhabited

def apply (g : Group) : Step → Except Fault Group
  | .dependsOn targets => .ok { g with toItem := g.toItem.dependsOnAll targets }
  | .register id action => g.addCase { id, action }
  | .caseDependsOn id targets => g.caseDependsOnAll id targets

def applyAll : Group → List Step → Except Fault Group
  | g, [] => .ok g
  | g, s :: ss => do
    let g ← g.apply s
    g.applyAll ss

def build (id : String) (steps : List Step) : Except Fault Group := applyAll { id } steps

end Group

namespace Run

def addGroups : Run → List Group → Except Fault Run
  | r, [] => .ok r
  | r, g :: gs => do
    let groups ← r.groups.add g
    addGroups { r with groups } gs

end Run
end RankRunner
