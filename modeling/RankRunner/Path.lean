/-! Paths as texts: names between slashes, and what can be told from them without looking at any
files. -/

namespace RankRunner.Path

def isAbsolute (path : String) : Bool := path.startsWith "/"

def components (path : String) : List String := (path.splitOn "/").filter (· != "")

/-- The names along a path. Single dots lead nowhere and are left out. -/
def parts (path : String) : List String := (components path).filter (· != ".")

def joined (names : List String) : String := "/".intercalate names

def whole (names : List String) : String := "/" ++ joined names

/-- A path without what leads nowhere. -/
def plain (path : String) : String :=
  if isAbsolute path then whole (parts path) else joined (parts path)

def name (path : String) : String := (parts path).getLast?.getD ""

/-- The part of a name before its last dot, and the part from the dot on. Names that start or end
with their last dot have no such part. -/
def splitSuffix (name : String) : String × String :=
  let back := name.toList.reverse
  let suffix := back.takeWhile (· != '.')
  match back.dropWhile (· != '.') with
  | dot :: stem =>
    if suffix.isEmpty || stem.isEmpty then (name, "")
    else (String.ofList stem.reverse, String.ofList (dot :: suffix.reverse))
  | [] => (name, "")

def stem (name : String) : String := (splitSuffix name).1

def suffix (name : String) : String := (splitSuffix name).2

/-- The names that are left when each step back takes the name before it away; `back` holds the
names so far, last first. -/
def normalize (back : List String) : List String → List String
  | [] => back.reverse
  | name :: names =>
    if name == ".." then normalize back.tail names else normalize (name :: back) names

def nameLimit : Nat := 255

def limit : Nat := 4095

/-- No path has a null character in it. -/
def hasNull (path : String) : Bool := path.contains '\x00'

example : splitSuffix "a.b.py" = ("a.b", ".py") := by decide +kernel
example : splitSuffix ".py" = (".py", "") := by decide +kernel
example : splitSuffix "a." = ("a.", "") := by decide +kernel
example : normalize [] ["a", "..", "..", "b"] = ["b"] := by decide +kernel

theorem normalize_of_forall_ne (back names : List String) (h : ∀ n ∈ names, n ≠ "..") :
    normalize back names = back.reverse ++ names := by
  induction names generalizing back with
  | nil => simp [normalize]
  | cons n ns ih =>
    have hn : n ≠ ".." := h n (by simp)
    simp [normalize, hn, ih _ fun m hm => h m (by simp [hm])]

end RankRunner.Path
