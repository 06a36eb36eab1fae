/-! Texts in the order of their code points. -/

namespace RankRunner

/-- The texts in order, each of them once. -/
def sortedTexts (ss : List String) : List String :=
  ss.eraseDups.mergeSort fun a b => decide (a ≤ b)

theorem mem_sortedTexts {s : String} {ss : List String} : s ∈ sortedTexts ss ↔ s ∈ ss := by
  simp [sortedTexts]

end RankRunner
