/-! Sets of characters as runs of code points, for the tables of character classes. -/

namespace RankRunner

/-- Whether the code point `n` lies in one of the runs, each given by its first and last one. -/
def inRuns (runs : List (Nat × Nat)) (n : Nat) : Bool :=
  runs.any fun (first, last) => first ≤ n && n ≤ last

theorem inRuns_iff {runs : List (Nat × Nat)} {n : Nat} :
    inRuns runs n = true ↔ ∃ r ∈ runs, r.1 ≤ n ∧ n ≤ r.2 := by
  simp [inRuns]

end RankRunner
