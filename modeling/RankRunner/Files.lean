import RankRunner.Path
import RankRunner.SuiteFile
import RankRunner.Text.Literal

/-! The files that the runner can reach, and the folder in which it works. Every file has its place,
which is the list of the names along its whole path. -/

namespace RankRunner

inductive Entry where
  | folder
  | text (body : String)
  | suite (file : SuiteFile)
  /-- A device that keeps nothing of what is written to it. A full one refuses it. -/
  | device (full : Bool)
  deriving Inhabited

def Entry.isFile : Entry → Bool
  | .text _ | .suite _ => true
  | .folder | .device _ => false

inductive Lost where
  | absent
  | throughFile
  | tooLong
  deriving DecidableEq, Repr, Inhabited

def Lost.number : Lost → Int
  | .absent => 2
  | .throughFile => 20
  | .tooLong => 36

def Lost.message : Lost → String
  | .absent => "No such file or directory"
  | .throughFile => "Not a directory"
  | .tooLong => "File name too long"

def Lost.raised (l : Lost) (path : String) : Raised := .systemAt l.number l.message path

structure Files where
  /-- The place of the folder in which the runner works. -/
  location : List String
  /-- What there is, under its place. Folders need not be listed if anything is in them. -/
  entries : List (List String × Entry)
  /-- The home folders of the users; that of the runner's own user has the empty name. -/
  homes : List (String × String) := []
  deriving Inhabited

namespace Files

def at? (f : Files) (place : List String) : Option Entry :=
  match f.entries.lookup place with
  | some e => some e
  | none =>
    if (f.location :: f.entries.map (·.1)).any (place.isPrefixOf ·) then some .folder else none

/-- Follow names from a place on. Each of them is looked up in a folder. -/
def walk (f : Files) (place : List String) : List String → Except Lost (List String)
  | [] => .ok place
  | name :: names =>
    match f.at? place with
    | none => .error .absent
    | some .folder =>
      if name == "." then walk f place names
      else if name == ".." then walk f place.dropLast names
      else if Path.nameLimit < name.utf8ByteSize then .error .tooLong
      else walk f (place ++ [name]) names
    | some _ => .error .throughFile

def start (f : Files) (path : String) : List String :=
  if Path.isAbsolute path then [] else f.location

def find (f : Files) (path : String) : Except Lost Entry :=
  if Path.limit < (Path.plain path).utf8ByteSize then .error .tooLong
  else
    match f.walk (f.start path) (Path.parts path) with
    | .error l => .error l
    | .ok place =>
      match f.at? place with
      | some e => .ok e
      | none => .error .absent

/-- Whether a path leads to a file. A path that is too long is an error. -/
def isFile (f : Files) (path : String) : Except Raised Bool :=
  if Path.hasNull path then .ok false
  else
    match f.find path with
    | .ok e => .ok e.isFile
    | .error .tooLong => .error (Lost.tooLong.raised path)
    | .error _ => .ok false

/-- The names of what is listed right in the working folder. -/
def here (f : Files) : List String :=
  f.entries.filterMap fun (place, _) =>
    match place.drop f.location.length with
    | [name] => if f.location.isPrefixOf place then some name else none
    | _ => none

/-! ### Loading suites -/

def nullInPath : Raised := .badValue "embedded null byte"

def noHome : Raised := ⟨"RuntimeError", [.text "Could not determine home directory."]⟩

/-- A path with a home folder in the place of a tilde and the name of a user at its start. -/
def expand (f : Files) (path : String) : Except Raised String :=
  match Path.isAbsolute path, Path.parts path with
  | false, first :: rest =>
    match first.toList with
    | '~' :: user =>
      if user.contains '\x00' then .error nullInPath
      else
        match f.homes.lookup (String.ofList user) with
        | some home => .ok (Path.joined (home :: rest))
        | none => .error noHome
    | _ => .ok path
  | _, _ => .ok path

/-- The place that a path names, whether anything is there or not. -/
def resolve (f : Files) (path : String) : Except Raised (List String) := do
  let path ← f.expand path
  if Path.hasNull path then throw nullInPath
  return Path.normalize [] (f.start path ++ Path.parts path)

/-- The name of the file that is loaded in the place of the folder that it is in. -/
def mainFile : String := "__main__.py"

/-- A folder without a main file cannot be loaded. -/
def noMainFile (whole : String) : Raised :=
  ⟨"ImportError", [.text ("can't find '__main__' module in " ++ Literal.quote whole)]⟩

/-- The groups of the suite at a place. Of a folder, the main file is loaded. A text defines
nothing. -/
def loadAt (f : Files) (place : List String) : Except Failure (List Group) :=
  let whole := Path.whole place
  let entry := match f.at? place with
    | some .folder => (f.at? (place ++ [mainFile])).filter Entry.isFile
    | e => e
  match entry with
  | some (.suite file) => file.load whole
  | some (.text _) => ({} : SuiteFile).load whole
  | _ => .error (.raised (noMainFile whole))

def load (f : Files) (path : String) : Except Failure (List Group) :=
  match f.resolve path with
  | .error r => .error (.raised r)
  | .ok place =>
    let whole := Path.whole place
    let name := place.getLast?.getD ""
    match f.find whole with
    | .error .tooLong => .error (.raised (Lost.tooLong.raised whole))
    | .error _ => .error (.fault (.suiteNotFound whole))
    | .ok _ =>
      if Path.suffix name != ".py" then .error (.fault (.suiteSuffix name)) else f.loadAt place

/-! ### Writing -/

def isFolder (path : String) : Raised := .systemAt 21 "Is a directory" path

def noSpace : Raised := .system 28 "No space left on device"

/-- The place at which a file can be written. The file can be new, but its folder has to be there,
and a path that ends with a slash or with dots names a folder. -/
def target (f : Files) (path : String) : Except Raised (List String) :=
  if Path.hasNull path then .error nullInPath
  else if Path.limit < path.utf8ByteSize then .error (Lost.tooLong.raised path)
  else
    let names := Path.components path
    match names.getLast? with
    | none => .error (if path = "" then Lost.absent.raised path else isFolder path)
    | some last =>
      -- The dot at the end asks whether the names before lead to a folder.
      match f.walk (f.start path) (names.dropLast ++ ["."]) with
      | .error l => .error (l.raised path)
      | .ok folder =>
        if path.endsWith "/" || last == "." || last == ".." then .error (isFolder path)
        else if Path.nameLimit < last.utf8ByteSize then .error (Lost.tooLong.raised path)
        else
          let place := folder ++ [last]
          match f.at? place with
          | some .folder => .error (isFolder path)
          | _ => .ok place

def put (place : List String) (e : Entry) :
    List (List String × Entry) → List (List String × Entry)
  | [] => [(place, e)]
  | (p, d) :: es => if p = place then (p, e) :: es else (p, d) :: put place e es

/-- Write a text file, in the place of what it held before. -/
def write (f : Files) (path body : String) : Except Raised Files := do
  let place ← f.target path
  match f.at? place with
  | some (.device full) => if full && body != "" then throw noSpace else return f
  | _ => return { f with entries := put place (.text body) f.entries }

theorem lookup_put_self (place : List String) (e : Entry) (es : List (List String × Entry)) :
    (put place e es).lookup place = some e := by
  induction es with
  | nil => simp [put]
  | cons a es ih =>
    obtain ⟨p, d⟩ := a
    by_cases h : p = place
    · simp [put, h]
    · have : (place == p) = false := by simpa using fun h' => h h'.symm
      simp [put, h, List.lookup_cons, this, ih]

end Files
end RankRunner
