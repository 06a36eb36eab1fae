import RankRunner.Proofs.Siblings.Groups

/-! # Ranking what has been ranked

Ranking starts from a `maxRank` of zero and raises it as it ranks one item after the other. A list
that has been ranked has no item left to rank, so that ranking it again changes nothing but
`maxRank`, which stays at zero (`sequence_of_sequenced`, `Run.sequence_again`). Schedules, which go
through the ranks up to `maxRank`, are then about the items of rank zero only. -/

namespace RankRunner

/-- The list without its largest rank. -/
def Siblings.flat (l : Siblings α) : Siblings α := { l with maxRank := 0 }

def Group.flat (g : Group) : Group := { g with cases := g.cases.flat }

/-- The run without the largest ranks, that of the groups and those of their cases. -/
def Run.flat (r : Run) : Run :=
  { r with groups := { r.groups.flat with items := r.groups.items.map Group.flat } }

namespace Siblings

open WorkItem (item)

variable {α : Type} [WorkItem α] {l : Siblings α}

/-- What has been ranked is not ranked again. -/
theorem top?_of_sequenced (h : ∀ a ∈ l.items, (item a).sequenced = true) :
    top? l.items = none := by
  apply List.findIdx?_eq_none_iff.2
  intro a ha
  rw [h a ha]
  rfl

theorem settleAll_of_sequenced (h : ∀ a ∈ l.items, (item a).sequenced = true) (n : Nat) :
    settleAll n l = l := by
  cases n with
  | zero => rfl
  | succ n =>
    unfold settleAll
    rw [top?_of_sequenced h]

theorem sequence_of_sequenced (h : ∀ a ∈ l.items, (item a).sequenced = true) :
    l.sequence = (l.flat, none) := by
  have hlist : l.sequence.1 = l.flat := settleAll_of_sequenced (l := l.flat) h _
  have hnone : l.sequence.2 = none := by
    apply (sequence_eq_none_iff l).2
    rw [hlist]
    exact h
  exact Prod.ext hlist hnone

/-- To rank a list again succeeds, and takes the largest rank away. -/
theorem sequence_again (h : l.sequence.2 = none) :
    l.sequence.1.sequence = (l.sequence.1.flat, none) :=
  sequence_of_sequenced ((sequence_eq_none_iff l).1 h)

theorem sequenceCases_of_sequenced {gs : List Group}
    (h : ∀ g ∈ gs, ∀ c ∈ g.cases.items, c.sequenced = true) :
    sequenceCases gs = (gs.map Group.flat, none) := by
  have hcases (g) (hg : g ∈ gs) : g.cases.sequence = (g.cases.flat, none) :=
    sequence_of_sequenced (h g hg)
  have hnone : (sequenceCases gs).2 = none := by
    apply sequenceCases_eq_none_of_forall
    intro g hg
    rw [hcases g hg]
  refine Prod.ext ?_ hnone
  rw [(sequenceCases_eq_none hnone).2]
  apply List.map_congr_left
  intro g hg
  rw [hcases g hg]
  rfl

theorem sequenceGroups_of_sequenced {l : Siblings Group}
    (h : ∀ g ∈ l.items, g.sequenced = true)
    (hcases : ∀ g ∈ l.items, ∀ c ∈ g.cases.items, c.sequenced = true) :
    l.sequenceGroups = ({ l.flat with items := l.items.map Group.flat }, none) := by
  have hrest : sequenceCases l.flat.items = (l.items.map Group.flat, none) :=
    sequenceCases_of_sequenced hcases
  unfold sequenceGroups
  rw [sequence_of_sequenced h]
  simp only [hrest]

/-- When groups have been ranked, so have their cases. -/
theorem sequenced_of_sequenceGroups {l : Siblings Group} (h : l.sequenceGroups.2 = none) :
    (∀ g ∈ l.sequenceGroups.1.items, g.sequenced = true) ∧
      ∀ g ∈ l.sequenceGroups.1.items, ∀ c ∈ g.cases.items, c.sequenced = true := by
  obtain ⟨hnone, hcases⟩ := sequenceGroups_eq_none_iff.1 h
  have hsequenced := (sequence_eq_none_iff l).1 hnone
  rw [sequenceGroups_of_eq_none h]
  constructor
  · intro g' hg'
    obtain ⟨g, hg, rfl⟩ := List.mem_map.1 hg'
    exact hsequenced g hg
  · intro g' hg'
    obtain ⟨g, hg, rfl⟩ := List.mem_map.1 hg'
    exact (sequence_eq_none_iff g.cases).1 (hcases g hg)

end Siblings

/-- A run that has been ranked is ranked again without a fault, and all it loses are the largest
ranks. -/
theorem Run.sequence_again {r : Run} (h : r.sequence.2 = none) :
    r.sequence.1.sequence = (r.sequence.1.flat, none) := by
  obtain ⟨hgroups, hcases⟩ := Siblings.sequenced_of_sequenceGroups h
  unfold Run.sequence
  rw [Siblings.sequenceGroups_of_sequenced hgroups hcases]
  rfl

end RankRunner
