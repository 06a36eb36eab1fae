import RankRunner.Declaration

/-! What a suite file defines: a list of groups, a function that makes one, or both. The function
comes first; a list that is defined besides is built when the file is loaded, but not used. -/

namespace RankRunner

/-- What is defined as the groups of a suite. Building it may fail, and it need not be a list of
groups at all. -/
structure Listing where
  groups : Except Fault (List Group)
  isList : Bool := true

instance : Inhabited Listing := ⟨⟨.ok [], true⟩⟩

/-- What a file gives the name of the function that makes its suite. -/
inductive Provider where
  | function (l : Listing)
  | value
  deriving Inhabited

structure SuiteFile where
  /-- What stops the loading of the file. -/
  raises : Option Failure := none
  listing : Option Listing := none
  provider : Option Provider := none
  deriving Inhabited

namespace SuiteFile

def groupsOf (path : String) (l : Listing) : Except Failure (List Group) :=
  match l.groups with
  | .error f => .error (.fault f)
  | .ok groups => if l.isList then .ok groups else .error (.fault (.suiteShape path))

/-- What building a listing comes to on its own. -/
def built (l : Listing) : Except Failure Unit :=
  match l.groups with
  | .error f => .error (.fault f)
  | .ok _ => .ok ()

def load (file : SuiteFile) (path : String) : Except Failure (List Group) := do
  match file.raises with
  | some f => throw f
  | none => pure ()
  match file.listing with
  | some l => built l
  | none => pure ()
  match file.provider, file.listing with
  | some (.function l), _ | _, some l => groupsOf path l
  | _, none => throw (.fault (.suiteShape path))

end SuiteFile
end RankRunner
