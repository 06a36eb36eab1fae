/-! How similar two texts are: twice the number of characters in their longest common blocks, over
the characters of both. -/

namespace RankRunner

namespace Similarity

def commonStart : List Char → List Char → Nat
  | a :: as, b :: bs => if a = b then commonStart as bs + 1 else 0
  | _, _ => 0

/-- A common block: its length and its places in two texts. -/
structure Block where
  length : Nat := 0
  left : Nat := 0
  right : Nat := 0
  deriving DecidableEq, Repr, Inhabited

/-- The longest common block, of several the first in the left text and then in the right one. -/
def longest (left right : List Char) : Block :=
  (List.range left.length).foldl (fun best i =>
    (List.range right.length).foldl (fun best j =>
      let n := commonStart (left.drop i) (right.drop j)
      if best.length < n then ⟨n, i, j⟩ else best) best) {}

/-- The characters in the longest common block and, on both sides of it, in further ones. Every
block takes characters off the left text, so its length is enough fuel. -/
def common : Nat → List Char → List Char → Nat
  | 0, _, _ => 0
  | fuel + 1, left, right =>
    let b := longest left right
    if b.length = 0 then 0
    else b.length + common fuel (left.take b.left) (right.take b.right) +
      common fuel (left.drop (b.left + b.length)) (right.drop (b.right + b.length))

/-- A text with its similarity to another one, as a quotient. -/
structure Score where
  text : String
  num : Nat
  den : Nat
  deriving DecidableEq, Repr, Inhabited

def score (word candidate : String) : Score :=
  let (left, right) := (candidate.toList, word.toList)
  ⟨candidate, 2 * common left.length left right, left.length + right.length⟩

/-- Whether the lengths of two texts let them be close: they have no more characters in common than
the shorter one has. -/
def canBeClose (word candidate : String) : Bool :=
  3 * (candidate.length + word.length) ≤ 10 * min candidate.length word.length

/-- Whether the similarity is at least three fifths. -/
def Score.isClose (s : Score) : Bool := 3 * s.den ≤ 5 * s.num

/-- Whether a score comes before another one: more similar texts first, and of equally similar
ones the last in order. -/
def Score.before (s t : Score) : Bool :=
  t.num * s.den < s.num * t.den || (t.num * s.den == s.num * t.den && decide (t.text ≤ s.text))

end Similarity

open Similarity in
/-- The up to three candidates that are most similar to a word, the most similar first. -/
def closeMatches (word : String) (candidates : List String) : List String :=
  let close := ((candidates.filter (canBeClose word)).map (score word)).filter Score.isClose
  ((close.mergeSort Score.before).take 3).map (·.text)

end RankRunner
