import RankRunner.Text.Alphanumeric
import RankRunner.Text.Classes

/-! Breaking a text into lines of limited width. Lines are broken at blanks, after hyphens within
words, and around dashes between words; a word that is too long for any line is cut. -/

namespace RankRunner

namespace Wrap

/-- Blanks between words. Other spaces do not separate words. -/
def isBlank (c : Char) : Bool := c == ' ' || (9 ≤ c.toNat && c.toNat ≤ 13)

/-- The characters of words: letters, numbers, and underscores. -/
def isAlnum (c : Char) : Bool := isAlphanumeric c || c == '_'

/-- The characters of words other than decimal digits. -/
def isLetter (c : Char) : Bool := isAlnum c && (decimalDigit? c).isNone

/-- Characters that words consist of, with their punctuation. -/
def isWordChar (c : Char) : Bool := isAlnum c || "!\"'&.,?".toList.contains c

/-- Whether two letters come first, or two letters with a hyphen between them. For the characters
before a hyphen, last first, and for those after it alike, this puts the hyphen within a word. -/
def twoLetters : List Char → Bool
  | c :: '-' :: d :: _ => isLetter c && isLetter d
  | c :: d :: _ => isLetter c && isLetter d
  | _ => false

/-- Whether a run of two or more hyphens comes first, and then a character that satisfies `p`. -/
def dashThen (p : Char → Bool) : List Char → Bool
  | '-' :: '-' :: cs => ((cs.dropWhile (· == '-')).head?).any p
  | _ => false

/-- Whether a word can be broken between the characters before, last first, and those after. -/
def breaksBetween (before after : List Char) : Bool :=
  match before with
  | '-' :: back =>
    (twoLetters back && twoLetters after) ||
      (dashThen isWordChar before && (after.head?).any isAlnum)
  | c :: _ => isWordChar c && dashThen isAlnum after
  | [] => false

/-- Split a word where it can be broken. `before` holds the characters of the word so far and
`chunk` those since the last break, both last first. -/
def splitWord (before chunk : List Char) : List Char → List (List Char)
  | [] => if chunk.isEmpty then [] else [chunk.reverse]
  | c :: cs =>
    if breaksBetween (c :: before) cs then
      (c :: chunk).reverse :: splitWord (c :: before) [] cs
    else splitWord (c :: before) (c :: chunk) cs

/-- Runs of blanks and runs of other characters. -/
def runs : List Char → List (List Char)
  | [] => []
  | c :: cs =>
    match runs cs with
    | (d :: run) :: rest =>
      if isBlank c == isBlank d then (c :: d :: run) :: rest else [c] :: (d :: run) :: rest
    | rest => [c] :: rest

/-- The pieces that lines are made of. -/
def chunks (cs : List Char) : List (List Char) :=
  (runs cs).flatMap fun run => if run.all isBlank then [run] else splitWord [] [] run

def isSpaceChunk (chunk : List Char) : Bool := chunk.all isSpace

/-- The first chunks that fit in a room, and the rest. -/
def fitting (room : Nat) : List (List Char) → List (List Char) × List (List Char)
  | [] => ([], [])
  | c :: cs =>
    if c.length ≤ room then
      let (line, rest) := fitting (room - c.length) cs
      (c :: line, rest)
    else ([], c :: cs)

/-- Put on a line what fits of a chunk that is too long for every line. -/
def cutLong (width : Nat) (line rest : List (List Char)) :
    List (List Char) × List (List Char) :=
  match rest with
  | c :: cs =>
    if width < c.length then
      let room := max (width - line.flatten.length) 1
      (line ++ [c.take room], c.drop room :: cs)
    else (line, rest)
  | [] => (line, [])

def trimEnd (line : List (List Char)) : List (List Char) :=
  if (line.getLast?).any isSpaceChunk then line.dropLast else line

/-- The lines of the chunks. Every round takes characters or a chunk of spaces away, which bounds
the fuel. Spaces are dropped at the start of every line but the first. -/
def fill (width : Nat) : Nat → Bool → List (List Char) → List String
  | 0, _, _ => []
  | fuel + 1, started, chunks =>
    let chunks := match chunks with
      | c :: cs => if started && isSpaceChunk c then cs else c :: cs
      | [] => []
    if chunks.isEmpty then []
    else
      let (line, rest) := fitting width chunks
      let (line, rest) := cutLong width line rest
      let line := trimEnd line
      if line.isEmpty then fill width fuel started rest
      else String.ofList line.flatten :: fill width fuel true rest

end Wrap

/-- The lines of a text, with `indent` blanks before each, and none of them longer than `width`
unless the blanks alone take up all of it. -/
def wrap (width indent : Nat) (text : String) : List String :=
  let blanks := String.ofList (List.replicate indent ' ')
  (Wrap.fill (width - indent) (2 * text.length + 1) false (Wrap.chunks text.toList)).map
    (blanks ++ ·)

end RankRunner
