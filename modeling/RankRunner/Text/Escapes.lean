/-! Escape sequences that set the colours of a terminal: an escape character with an opening bracket,
parameters, and a letter. Where a text does not go to a terminal, they are left out. -/

namespace RankRunner

/-- The characters between the bracket and the letter. -/
def isEscapeParameter (c : Char) : Bool := c.isDigit || c == ';' || c == '?'

/-- The number of the characters that follow an escape character in its sequence, if the text after
it makes one. -/
def escapeTail? : List Char → Option Nat
  | '[' :: cs =>
    let n := (cs.takeWhile isEscapeParameter).length
    if (cs[n]?).any Char.isAlpha then some (n + 2) else none
  | _ => none

/-- Without escape sequences; as many characters as `skipped` says belong to one. -/
def dropEscapes (skipped : Nat) : List Char → List Char
  | [] => []
  | c :: cs =>
    match skipped with
    | n + 1 => dropEscapes n cs
    | 0 =>
      match (escapeTail? cs).filter fun _ => c == '\x1b' with
      | some n => dropEscapes n cs
      | none => c :: dropEscapes 0 cs

/-- A text without its escape sequences. -/
def withoutEscapes (s : String) : String := String.ofList (dropEscapes 0 s.toList)

example : withoutEscapes "\x1b[1;31mred\x1b[0m \x1b[x" = "red " := by decide +kernel

/-- A text without escape characters stays as it is. -/
theorem dropEscapes_of_not_mem {cs : List Char} (h : '\x1b' ∉ cs) : dropEscapes 0 cs = cs := by
  induction cs with
  | nil => rfl
  | cons c cs ih =>
    have hc : c ≠ '\x1b' := fun hc => h (by simp [hc])
    have ht : '\x1b' ∉ cs := fun ht => h (by simp [ht])
    have hf : (escapeTail? cs).filter (fun _ => c == '\x1b') = none := by simp [hc]
    simp only [dropEscapes, hf, ih ht]

end RankRunner
