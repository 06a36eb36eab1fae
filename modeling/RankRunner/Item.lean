import RankRunner.Failure
import RankRunner.Status
import RankRunner.Time

/-! What groups and cases have in common: an identity among their siblings, the siblings they
depend on, a rank, a status and the time they took. -/

namespace RankRunner

structure Dependency where
  target : String
  /-- Whether the sibling has been found and ranked. -/
  resolved : Bool := false
  deriving DecidableEq, Repr, Inhabited

structure Item where
  id : String
  deps : List Dependency := []
  status : Status := .success
  rank : Int := 0
  sequenced : Bool := false
  start : Option Timestamp := none
  stop : Option Timestamp := none
  notRun : Bool := false
  deriving DecidableEq, Repr, Inhabited

namespace Item

def dry (i : Item) : Bool := i.deps.all (·.resolved)

def succeeded (i : Item) : Bool := i.status == .success && !i.notRun

/-- The identities of the siblings depended on, as declared. -/
def needs (i : Item) : List String := i.deps.map (·.target)

/-- The dependencies that wait to be resolved. -/
def pending (i : Item) : List String := (i.deps.filter (!·.resolved)).map (·.target)

def duration? (i : Item) : Option Int :=
  match i.start, i.stop with
  | some start, some stop => some (stop.micros - start.micros)
  | _, _ => none

def dependency? (i : Item) (target : String) : Option Dependency :=
  i.deps.find? (·.target == target)

/-- Declare a dependency; one that is already declared stays as it is. -/
def dependsOn (i : Item) (target : String) : Item :=
  match i.dependency? target with
  | some _ => i
  | none => { i with deps := i.deps ++ [{ target }] }

@[simp] theorem dependsOn_id (i : Item) (t : String) : (i.dependsOn t).id = i.id := by
  unfold dependsOn; split <;> rfl

theorem dependency?_eq_none_iff {i : Item} {t : String} :
    i.dependency? t = none ↔ t ∉ i.needs := by
  simp [dependency?, needs, List.find?_eq_none]

theorem mem_needs_dependsOn (i : Item) (s t : String) :
    s ∈ (i.dependsOn t).needs ↔ s ∈ i.needs ∨ s = t := by
  unfold dependsOn
  split
  · next d h =>
    have : t ∈ i.needs := by
      apply Classical.byContradiction
      intro hn
      rw [dependency?_eq_none_iff.2 hn] at h
      cases h
    constructor
    · exact .inl
    · rintro (h | rfl) <;> assumption
  · simp [needs, eq_comm]

end Item

/-- The kinds of work items, each holding an item. -/
class WorkItem (α : Type) where
  kind : Kind
  item : α → Item
  setItem : Item → α → α
  /-- Mark as skipped, with all that belongs to the work item. -/
  skip : α → α
  item_setItem (i : Item) (a : α) : item (setItem i a) = i
  setItem_item (a : α) : setItem (item a) a = a
  setItem_setItem (i j : Item) (a : α) : setItem i (setItem j a) = setItem i a
  item_skip (a : α) : item (skip a) = { item a with status := .skipped }

namespace WorkItem

variable {α : Type} [WorkItem α]

def update (f : Item → Item) (a : α) : α := setItem (f (item a)) a

@[simp] theorem item_update (f : Item → Item) (a : α) : item (update f a) = f (item a) :=
  item_setItem _ _

def id (a : α) : String := (item a).id

@[simp] theorem id_skip (a : α) : id (skip a) = id a := by simp [id, item_skip]

end WorkItem
end RankRunner
