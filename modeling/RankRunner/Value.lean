import RankRunner.Number.Binary64
import RankRunner.Text.Literal

/-! Dynamic values: what a case function may return or be raised with, what the details of a fault
hold, and what a suite file is read into. A value is shown on its own by `Value.display` and
inside another value by `Value.literal`; the two differ on texts only. -/

namespace RankRunner

inductive Value where
  | null
  | bool (b : Bool)
  | int (n : Int)
  | float (x : Binary64)
  | text (s : String)
  | list (items : List Value)
  | dict (entries : List (String × Value))
  deriving Inhabited

namespace Value

mutual

/-- The form of a value inside another one: texts are quoted. -/
def literal : Value → String
  | .null => "None"
  | .bool b => if b then "True" else "False"
  | .int n => toString n
  | .float x => x.shortest
  | .text s => Literal.quote s
  | .list items => "[" ++ ", ".intercalate (literals items) ++ "]"
  | .dict entries => "\x7b" ++ ", ".intercalate (entryLiterals entries) ++ "\x7d"

def literals : List Value → List String
  | [] => []
  | v :: vs => literal v :: literals vs

def entryLiterals : List (String × Value) → List String
  | [] => []
  | (k, v) :: es => (Literal.quote k ++ ": " ++ literal v) :: entryLiterals es

end

/-- The form of a value on its own: a text is shown as it is. -/
def display : Value → String
  | .text s => s
  | v => v.literal

instance : Repr Value := ⟨fun v _ => v.literal⟩

@[simp] theorem literals_eq_map (vs : List Value) : literals vs = vs.map literal := by
  induction vs with
  | nil => rfl
  | cons v vs ih => simp [literals, ih]

def texts (ss : List String) : Value := .list (ss.map .text)

def get? (key : String) : Value → Option Value
  | .dict entries => entries.lookup key
  | _ => none

def isNull : Value → Bool
  | .null => true
  | _ => false

/-- Truth values count as numbers. -/
def isNumber : Value → Bool
  | .bool _ | .int _ | .float _ => true
  | _ => false

/-- Whether there is anything to a value: it is neither null nor false, zero or empty. -/
def isSomething : Value → Bool
  | .null => false
  | .bool b => b
  | .int n => n != 0
  | .float (.finite _ m _) => m != 0
  | .float _ => true
  | .text s => s != ""
  | .list vs => !vs.isEmpty
  | .dict es => !es.isEmpty

/-- The items of a value that is a sequence: those of a list, the characters of a text, and the
keys of a dictionary. -/
def sequence? : Value → Option (List Value)
  | .list vs => some vs
  | .text s => some (s.toList.map fun c => .text (String.singleton c))
  | .dict es => some (es.map fun (k, _) => .text k)
  | _ => none

/-- The name of a value's type, as the messages about unsuitable values give it. -/
def typeName : Value → String
  | .null => "NoneType"
  | .bool _ => "bool"
  | .int _ => "int"
  | .float _ => "float"
  | .text _ => "str"
  | .list _ => "list"
  | .dict _ => "dict"

def givenName (v : Value) : String := if v.isNull then "None" else v.typeName

end Value
end RankRunner
