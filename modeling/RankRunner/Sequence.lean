import RankRunner.Run
import RankRunner.Text.Order

/-! Ranking sibling lists. An item without dependencies has rank zero, any other one a rank below
all that it depends on, so that items of one rank can run together. `Siblings.sequence` ranks one
list, and `Siblings.sequenceGroups` a list of groups with the cases of each. -/

namespace RankRunner

def Dependency.awaits (id : String) (d : Dependency) : Bool := !d.resolved && d.target == id

def Dependency.resolve (id : String) (d : Dependency) : Dependency :=
  if d.target = id then { d with resolved := true } else d

/-- Resolve what waits for `top`, and move below its rank. -/
def Item.resolve (top i : Item) : Item :=
  { i with
    deps := i.deps.map (·.resolve top.id)
    rank := if i.deps.any (·.awaits top.id) then max i.rank (top.rank + 1) else i.rank }

namespace Siblings

open WorkItem (item)

variable {α : Type} [WorkItem α]

/-- The place of the first item that is to be ranked next: all it depends on has been. -/
def top? (items : List α) : Option Nat :=
  items.findIdx? fun a => !(item a).sequenced && (item a).dry

def settle (l : Siblings α) (pos : Nat) (top : Item) : Siblings α :=
  { l with
    items := (l.items.modify pos (WorkItem.update ({ · with sequenced := true }))).map
      (WorkItem.update (Item.resolve top))
    maxRank := max l.maxRank top.rank }

def settleAll : Nat → Siblings α → Siblings α
  | 0, l => l
  | n + 1, l =>
    match top? l.items with
    | none => l
    | some pos =>
      match l.items[pos]? with
      | none => l
      | some a => settleAll n (l.settle pos (item a))

def stuck (l : Siblings α) : List α := l.items.filter fun a => !(item a).sequenced

/-- The complaint about an item that names a sibling that does not exist. -/
def missing? (l : Siblings α) (a : α) : Option Fault :=
  ((item a).needs.find? fun t => !l.ids.contains t).map fun t =>
    .missingDependency (WorkItem.kind α) (WorkItem.id a) t (sortedTexts l.ids)

/-- Why items were left without a rank: a missing sibling is reported before a loop. -/
def stuckFault? (l : Siblings α) : Option Fault :=
  match l.stuck with
  | [] => none
  | a :: rest =>
    match (a :: rest).findSome? l.missing? with
    | some f => some f
    | none => some (.cycle (WorkItem.id a) (item a).pending)

/-- Rank one list. On a fault the items that could be ranked keep their ranks. -/
def sequence (l : Siblings α) : Siblings α × Option Fault :=
  let l := settleAll l.items.length { l with maxRank := 0 }
  (l, l.stuckFault?)

def sequenceCases : List Group → List Group × Option Fault
  | [] => ([], none)
  | g :: gs =>
    match g.cases.sequence with
    | (cases, some f) => ({ g with cases } :: gs, some f)
    | (cases, none) =>
      let (gs, f) := sequenceCases gs
      ({ g with cases } :: gs, f)

/-- Rank a list of groups, and then the cases of each group among themselves. -/
def sequenceGroups (l : Siblings Group) : Siblings Group × Option Fault :=
  match l.sequence with
  | (l, some f) => (l, some f)
  | (l, none) =>
    let (items, f) := sequenceCases l.items
    ({ l with items }, f)

/-- The items by rank. Ranks without an item are left out. -/
def levels (l : Siblings α) : List (List α) :=
  ((List.range (l.maxRank + 1).toNat).map fun (r : Nat) => l.atRank r).filter (!·.isEmpty)

@[simp] theorem settle_length (l : Siblings α) (pos : Nat) (top : Item) :
    (l.settle pos top).items.length = l.items.length := by
  simp [settle]

theorem settleAll_length (n : Nat) (l : Siblings α) :
    (settleAll n l).items.length = l.items.length := by
  induction n generalizing l with
  | zero => rfl
  | succ n ih =>
    unfold settleAll
    split
    · rfl
    · split
      · rfl
      · rw [ih]; exact settle_length ..

theorem sequence_length (l : Siblings α) : l.sequence.1.items.length = l.items.length :=
  settleAll_length ..

/-- Ranking succeeds exactly when every item got its rank. -/
theorem sequence_eq_none_iff (l : Siblings α) :
    l.sequence.2 = none ↔ ∀ a ∈ l.sequence.1.items, (item a).sequenced = true := by
  have : ∀ l : Siblings α, l.stuckFault? = none ↔ ∀ a ∈ l.items, (item a).sequenced = true := by
    intro l
    unfold stuckFault?
    split
    · next h => simpa [stuck, List.filter_eq_nil_iff] using h
    · next a rest h =>
      constructor
      · intro hn; split at hn <;> cases hn
      · intro hs
        have ha : a ∈ l.stuck := h ▸ List.mem_cons_self
        simp only [stuck, List.mem_filter, Bool.not_eq_true'] at ha
        rw [hs a ha.1] at ha
        cases ha.2
  exact this _

end Siblings

namespace Run

def sequence (r : Run) : Run × Option Fault :=
  let (groups, f) := r.groups.sequenceGroups
  ({ r with groups }, f)

def itemLines (indent : Nat) (kind : Kind) (i : Item) : List String :=
  let pad := String.ofList (List.replicate indent ' ')
  [s!"{pad}=> [{kind.name}] {i.id}", s!"{pad}    .rank = {i.rank}",
    pad ++ "    .seq = " ++ (if i.sequenced then "true" else "false")] ++
  i.needs.map fun t => s!"{pad}    .<dep> = {t}"

def dump (r : Run) : String :=
  "\n".intercalate (("[run] " ++ r.id) :: r.groups.items.flatMap fun g =>
    itemLines 4 .group g.toItem ++ g.cases.items.flatMap fun c => itemLines 8 .case c.toItem)

end Run
end RankRunner
