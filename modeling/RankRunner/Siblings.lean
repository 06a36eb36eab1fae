import RankRunner.Item

/-! Sibling lists: the groups of a run, or the cases of a group. Siblings stay in the order of
their declaration and have distinct identities. -/

namespace RankRunner

structure Siblings (α : Type) where
  items : List α := []
  /-- The largest rank that was reached in ranking the list. -/
  maxRank : Int := 0
  /-- Children of the list that were started and not yet collected. -/
  outstanding : Int := 0
  deriving Repr, Inhabited

namespace Siblings

open WorkItem (item)

variable {α : Type} [WorkItem α]

def ids (l : Siblings α) : List String := l.items.map WorkItem.id

def get? (l : Siblings α) (id : String) : Option α := l.items.find? (WorkItem.id · == id)

def position? (l : Siblings α) (id : String) : Option Nat :=
  l.items.findIdx? (WorkItem.id · == id)

def modify (l : Siblings α) (pos : Nat) (f : α → α) : Siblings α :=
  { l with items := l.items.modify pos f }

def add (l : Siblings α) (a : α) : Except Fault (Siblings α) :=
  match l.get? (WorkItem.id a) with
  | some _ => .error (.duplicateId (WorkItem.kind α) (WorkItem.id a))
  | none => .ok { l with items := l.items ++ [a] }

def dependsOn (l : Siblings α) (id target : String) : Except Fault (Siblings α × Dependency) :=
  match l.position? id, l.get? id with
  | some pos, some a =>
    .ok (l.modify pos (WorkItem.update (·.dependsOn target)),
      ((item a).dependency? target).getD { target })
  | _, _ => .error (.unknownItem id target)

def atRank (l : Siblings α) (rank : Int) : List α :=
  l.items.filter fun a => (item a).rank == rank

/-- Whether the sibling that a dependency names was found and succeeded. -/
def satisfies (l : Siblings α) (d : Dependency) : Bool :=
  d.resolved && (l.get? d.target).any fun a => (item a).succeeded

def satisfiesAll (l : Siblings α) (i : Item) : Bool := i.deps.all l.satisfies

/-- The siblings that `i` depends on and that did not succeed. -/
def unsatisfied (l : Siblings α) (i : Item) : List String :=
  (i.deps.filter (!l.satisfies ·)).map (·.target)

theorem get?_eq_none_iff {l : Siblings α} {id : String} : l.get? id = none ↔ id ∉ l.ids := by
  simp [get?, ids, List.find?_eq_none]

theorem add_eq_error_iff {l : Siblings α} {a : α} :
    (∃ f, l.add a = .error f) ↔ WorkItem.id a ∈ l.ids := by
  unfold add
  split
  · next h =>
    have : ¬ l.get? (WorkItem.id a) = none := by simp [h]
    rw [get?_eq_none_iff] at this
    simpa using this
  · next h => simpa using get?_eq_none_iff.1 h

theorem ids_add {l l' : Siblings α} {a : α} (h : l.add a = .ok l') :
    l'.ids = l.ids ++ [WorkItem.id a] := by
  unfold add at h
  split at h
  · cases h
  · cases h; simp [ids]

/-- A dependency is satisfied as soon as nothing it names is left unsatisfied. -/
theorem unsatisfied_eq_nil_iff (l : Siblings α) (i : Item) :
    l.unsatisfied i = [] ↔ l.satisfiesAll i = true := by
  simp [unsatisfied, satisfiesAll, List.filter_eq_nil_iff]

end Siblings
end RankRunner
