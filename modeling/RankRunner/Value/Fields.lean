import RankRunner.Failure

/-! Looking into dynamic values whose shape is agreed on. What is missing or null has a default,
and what has another shape than agreed is read as well as it can be. -/

namespace RankRunner.Value

def field? (v : Value) (key : String) : Option Value :=
  match v.get? key with
  | none | some .null => none
  | some x => some x

def asInt : Value → Int
  | .int n => n
  | .bool b => if b then 1 else 0
  | .float x => x.truncate?.getD 0
  | _ => 0

def asBool : Value → Bool
  | .bool b => b
  | .int n => n != 0
  | .null => false
  | _ => true

def asFloat : Value → Binary64
  | .float x => x
  | v => .ofRatio (v.asInt < 0) v.asInt.natAbs 1

def items : Value → List Value
  | .list vs => vs
  | _ => []

def entries : Value → List (String × Value)
  | .dict es => es
  | _ => []

def textAt? (v : Value) (key : String) : Option String := (v.field? key).map display

def textAt (v : Value) (key : String) : String := (v.textAt? key).getD ""

def intAt? (v : Value) (key : String) : Option Int := (v.field? key).map asInt

def intAt (v : Value) (key : String) : Int := (v.intAt? key).getD 0

def boolAt (v : Value) (key : String) : Bool := ((v.field? key).map asBool).getD false

def itemsAt (v : Value) (key : String) : List Value := ((v.field? key).map items).getD []

def entriesAt (v : Value) (key : String) : List (String × Value) :=
  ((v.field? key).map entries).getD []

def textsAt (v : Value) (key : String) : List String := (v.itemsAt key).map display

end RankRunner.Value
