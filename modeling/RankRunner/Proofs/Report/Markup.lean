import Mathlib.Data.List.DropRight

/-! # Reading XML

A reader of XML 1.0 documents that refuses whatever is not well-formed. It reads an optional
declaration, elements with attributes, character data and references; comments, processing
instructions, marked sections and document types are refused too, for no report has any. Line ends
are made uniform first, blanks of any kind in an attribute value count as spaces, and a reference
stands for its character as it is. -/

namespace RankRunner.Markup

/-! ## Characters -/

def within (ranges : List (Nat × Nat)) (c : Char) : Bool :=
  ranges.any fun (first, last) => first ≤ c.toNat && c.toNat ≤ last

/-- A character that a document may hold, be it by reference. -/
def isLegal (c : Char) : Bool :=
  within [(0x9, 0xA), (0xD, 0xD), (0x20, 0xD7FF), (0xE000, 0xFFFD), (0x10000, 0x10FFFF)] c

def isBlank (c : Char) : Bool := c == ' ' || c == '\t' || c == '\n' || c == '\r'

def isNameStart (c : Char) : Bool :=
  within [(0x3A, 0x3A), (0x41, 0x5A), (0x5F, 0x5F), (0x61, 0x7A), (0xC0, 0xD6), (0xD8, 0xF6),
    (0xF8, 0x2FF), (0x370, 0x37D), (0x37F, 0x1FFF), (0x200C, 0x200D), (0x2070, 0x218F),
    (0x2C00, 0x2FEF), (0x3001, 0xD7FF), (0xF900, 0xFDCF), (0xFDF0, 0xFFFD), (0x10000, 0xEFFFF)] c

def isNameChar (c : Char) : Bool :=
  isNameStart c ||
    within [(0x2D, 0x2E), (0x30, 0x39), (0xB7, 0xB7), (0x300, 0x36F), (0x203F, 0x2040)] c

def isName : List Char → Bool
  | [] => false
  | c :: cs => isNameStart c && cs.all isNameChar

/-- A text of characters that a document may hold. -/
def Legal (s : String) : Prop := ∀ c ∈ s.toList, isLegal c = true

instance (s : String) : Decidable (Legal s) := List.decidableBAll _ s.toList

@[simp] theorem legal_append {s t : String} : Legal (s ++ t) ↔ Legal s ∧ Legal t := by
  rw [Legal, String.toList_append, List.forall_mem_append, Legal, Legal]

/-- Each line end, of one character or two, as one newline. -/
def lineEnds : List Char → List Char
  | '\r' :: '\n' :: cs => '\n' :: lineEnds cs
  | '\r' :: cs => '\n' :: lineEnds cs
  | c :: cs => c :: lineEnds cs
  | [] => []

/-! ## References -/

def digit? (base : Nat) (c : Char) : Option Nat :=
  let value :=
    if '0' ≤ c ∧ c ≤ '9' then some (c.toNat - 0x30)
    else if 'a' ≤ c ∧ c ≤ 'f' then some (c.toNat - 0x61 + 10)
    else if 'A' ≤ c ∧ c ≤ 'F' then some (c.toNat - 0x41 + 10)
    else none
  value.filter (· < base)

/-- The legal character with a number, written in at least one digit. -/
def numbered? (base : Nat) (digits : List Char) : Option Char := do
  guard !digits.isEmpty
  let n ← digits.foldlM (fun n c => (digit? base c).map (base * n + ·)) 0
  let c := Char.ofNat n
  guard (c.toNat = n && isLegal c)
  return c

/-- The character for what stands between `&` and `;`. -/
def expand? : List Char → Option Char
  | '#' :: 'x' :: digits => numbered? 16 digits
  | '#' :: digits => numbered? 10 digits
  | ['a', 'm', 'p'] => some '&'
  | ['l', 't'] => some '<'
  | ['g', 't'] => some '>'
  | ['q', 'u', 'o', 't'] => some '"'
  | ['a', 'p', 'o', 's'] => some '\''
  | _ => none

example : expand? "#x1F600".toList = some '😀' := by decide
example : expand? "#0".toList = none := by decide

/-! ## The declaration -/

/-- The value of a setting in the declaration, white space before it, and what follows it. -/
def setting? (key : String) (cs : List Char) : Option (List Char × List Char) := do
  guard (cs.head?.any isBlank)
  let cs ← (cs.dropWhile isBlank).dropPrefix? key.toList
  let cs ← (cs.dropWhile isBlank).dropPrefix? ['=']
  match cs.dropWhile isBlank with
  | [] => none
  | quote :: cs =>
    guard (quote == '"' || quote == '\'')
    let value := cs.takeWhile (· != quote)
    let cs ← (cs.dropWhile (· != quote)).dropPrefix? [quote]
    return (value, cs)

def isVersion : List Char → Bool
  | '1' :: '.' :: digits => !digits.isEmpty && digits.all Char.isDigit
  | _ => false

/-- What follows a setting that may be left out. -/
def afterSetting? (key : String) (values : List String) (cs : List Char) : Option (List Char) :=
  match setting? key cs with
  | none => some cs
  | some (value, rest) => if values.any (·.toList == value) then some rest else none

/-- What follows the declaration, if there is one. The characters are those of a text in UTF-8, so
that no other encoding can be declared. -/
def body? (cs : List Char) : Option (List Char) :=
  match cs.dropPrefix? "<?xml".toList with
  | none => some cs
  | some cs => do
    let (version, cs) ← setting? "version" cs
    guard (isVersion version)
    let cs ← afterSetting? "encoding" ["UTF-8", "utf-8"] cs
    let cs ← afterSetting? "standalone" ["yes", "no"] cs
    (cs.dropWhile isBlank).dropPrefix? "?>".toList

/-! ## Elements -/

inductive Node where
  | character (c : Char)
  | element (name : String) (attributes : List (String × String)) (content : List Node)

/-- A start tag: the name of its element and the attributes read so far. -/
structure Tag where
  name : String
  attributes : List (String × String) := []
  deriving DecidableEq

/-- No attribute can be given twice. -/
def Tag.add? (t : Tag) (key value : String) : Option Tag :=
  if key ∈ t.attributes.map (·.1) then none
  else some { t with attributes := t.attributes ++ [(key, value)] }

/-- Where in a document the reader is. Names, values and references are read one character at a
time. -/
inductive Mode where
  /-- Between tags, after so many closing brackets. -/
  | text (brackets : Nat)
  | reference (word : List Char)
  | opened
  | name (word : List Char)
  /-- In a start tag, before an attribute or the end of the tag. -/
  | inTag (tag : Tag) (gap : Bool)
  | key (tag : Tag) (word : List Char)
  | keyed (tag : Tag) (key : String)
  | equals (tag : Tag) (key : String)
  | value (tag : Tag) (key : String) (quote : Char) (word : List Char)
  | valueReference (tag : Tag) (key : String) (quote : Char) (word reference : List Char)
  | slash (tag : Tag)
  | ending (word : List Char)
  | ended (word : List Char)
  deriving DecidableEq

structure Reader where
  mode : Mode := .text 0
  /-- The elements that are open, the innermost first, each with what stands before it in the
  element around it. -/
  outer : List (Tag × List Node) := []
  content : List Node := []

namespace Reader

def add (r : Reader) (n : Node) : Reader := { r with content := r.content ++ [n] }

def inText (r : Reader) (c : Char) (brackets : Nat) : Option Reader :=
  if c = '<' then some { r with mode := .opened }
  else if c = '&' then
    -- Around the outermost element there are no references.
    if r.outer.isEmpty then none else some { r with mode := .reference [] }
  else if c = '>' ∧ 2 ≤ brackets then none
  else some { r.add (.character c) with mode := .text (if c = ']' then brackets + 1 else 0) }

def inTag (r : Reader) (c : Char) (tag : Tag) (gap : Bool) : Option Reader :=
  if isBlank c then some { r with mode := .inTag tag true }
  else if c = '>' then some { mode := .text 0, outer := (tag, r.content) :: r.outer }
  else if c = '/' then some { r with mode := .slash tag }
  else if gap && isNameStart c then some { r with mode := .key tag [c] }
  else none

def afterKey (r : Reader) (c : Char) (tag : Tag) (key : String) : Option Reader :=
  if isBlank c then some { r with mode := .keyed tag key }
  else if c = '=' then some { r with mode := .equals tag key }
  else none

def inValue (r : Reader) (c : Char) (tag : Tag) (key : String) (quote : Char)
    (word : List Char) : Option Reader :=
  if c = quote then
    (tag.add? key (String.ofList word)).map fun tag => { r with mode := .inTag tag false }
  else if c = '&' then some { r with mode := .valueReference tag key quote word [] }
  else if c = '<' then none
  else some { r with mode := .value tag key quote (word ++ [if isBlank c then ' ' else c]) }

/-- After the name in an end tag, which must be that of the innermost element. -/
def atEnd (r : Reader) (c : Char) (word : List Char) : Option Reader :=
  if isBlank c then some { r with mode := .ended word }
  else if c = '>' then
    match r.outer with
    | [] => none
    | (tag, before) :: outer =>
      if tag.name.toList = word then
        some ⟨.text 0, outer, before ++ [.element tag.name tag.attributes r.content]⟩
      else none
  else none

def next (r : Reader) (c : Char) : Option Reader :=
  match r.mode with
  | .text brackets => r.inText c brackets
  | .reference word =>
    if c = ';' then (expand? word).map fun d => { r.add (.character d) with mode := .text 0 }
    else some { r with mode := .reference (word ++ [c]) }
  | .opened =>
    if c = '/' then some { r with mode := .ending [] }
    else if isNameStart c then some { r with mode := .name [c] }
    else none
  | .name word =>
    if isNameChar c then some { r with mode := .name (word ++ [c]) }
    else r.inTag c { name := String.ofList word } false
  | .inTag tag gap => r.inTag c tag gap
  | .key tag word =>
    if isNameChar c then some { r with mode := .key tag (word ++ [c]) }
    else r.afterKey c tag (String.ofList word)
  | .keyed tag key => r.afterKey c tag key
  | .equals tag key =>
    if isBlank c then some r
    else if c = '"' ∨ c = '\'' then some { r with mode := .value tag key c [] }
    else none
  | .value tag key quote word => r.inValue c tag key quote word
  | .valueReference tag key quote word reference =>
    if c = ';' then
      (expand? reference).map fun d => { r with mode := .value tag key quote (word ++ [d]) }
    else some { r with mode := .valueReference tag key quote word (reference ++ [c]) }
  | .slash tag =>
    if c = '>' then
      some { r.add (.element tag.name tag.attributes []) with mode := .text 0 }
    else none
  | .ending word =>
    if isNameChar c then some { r with mode := .ending (word ++ [c]) } else r.atEnd c word
  | .ended word => r.atEnd c word

def feed (r : Reader) (cs : List Char) : Option Reader := cs.foldlM next r

@[simp] theorem feed_nil (r : Reader) : r.feed [] = some r := rfl

theorem feed_cons (r : Reader) (c : Char) (cs : List Char) :
    r.feed (c :: cs) = (r.next c).bind (·.feed cs) := by
  cases h : r.next c <;> simp [feed, h]

theorem feed_append (r : Reader) (cs ds : List Char) :
    r.feed (cs ++ ds) = (r.feed cs).bind (·.feed ds) := by
  simp [feed, List.foldlM_append]

theorem feed_next {r s : Reader} {c : Char} (h : r.next c = some s) (cs : List Char) :
    r.feed (c :: cs) = s.feed cs := by
  rw [feed_cons, h, Option.bind_some]

/-- What is read in two parts, the second from where the first one ends. -/
theorem feed_trans {r s : Reader} {cs : List Char} (h : r.feed cs = some s) (ds : List Char) :
    r.feed (cs ++ ds) = s.feed ds := by
  rw [feed_append, h, Option.bind_some]

end Reader

/-! ## Documents -/

namespace Node

def isBlank : Node → Bool
  | character c => Markup.isBlank c
  | element _ _ _ => false

def isNamed (name : String) : Node → Bool
  | character _ => false
  | element name' _ _ => name' == name

def attribute? (key : String) : Node → Option String
  | character _ => none
  | element _ attributes _ => attributes.lookup key

def integer? (key : String) (n : Node) : Option Int := (n.attribute? key).bind String.toInt?

def truth? (key : String) (n : Node) : Option Bool :=
  match n.attribute? key with
  | some "true" => some true
  | some "false" => some false
  | _ => none

/-- What a node holds besides white space. -/
def children : Node → List Node
  | character _ => []
  | element _ _ content => content.filter (!·.isBlank)

end Node

/-- The outermost element, where there is just one and only white space around it. -/
def outermost? (ns : List Node) : Option Node :=
  match ns.dropWhile Node.isBlank with
  | .element name attributes content :: rest =>
    if rest.all Node.isBlank then some (.element name attributes content) else none
  | _ => none

/-- The outermost element of the document that a text is, if it is well-formed. -/
def read? (text : String) : Option Node := do
  let cs := lineEnds text.toList
  guard (cs.all isLegal)
  let r ← Reader.feed {} (← body? cs)
  guard r.outer.isEmpty
  match r.mode with
  | .text _ => outermost? r.content
  | _ => none

example : read? "<a b='1\t&#9;'/>" = some (.element "a" [("b", "1 \t")] []) := by rfl
example : (read? "<a b='1' b='2'/>").isNone = true := by decide

end RankRunner.Markup
