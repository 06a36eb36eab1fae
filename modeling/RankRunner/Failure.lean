import RankRunner.Fault
import RankRunner.Raised

/-! What can stop an operation: a condition raised by a case function or by the system, or one of
the runner's own faults. -/

namespace RankRunner

inductive Failure where
  | fault (f : Fault)
  | raised (r : Raised)
  deriving Repr, Inhabited

namespace Failure

/-- The parts of a fault that cannot be left out. -/
def faultParts : List String := ["kind", "item", "message"]

def enumerated : List String → String
  | [] => ""
  | [a] => s!"'{a}'"
  | [a, b] => s!"'{a}' and '{b}'"
  | [a, b, c] => s!"'{a}', '{b}', and '{c}'"
  | a :: rest => s!"'{a}', " ++ enumerated rest

/-- The complaint about a fault with too few or too many parts. -/
def partsComplaint (given : Nat) : Raised :=
  let missing := faultParts.drop given
  if missing.isEmpty then
    .badType s!"RunError.__init__() takes from 4 to 5 positional arguments but {given + 1} were given"
  else
    .badType (s!"RunError.__init__() missing {missing.length} required positional " ++
      (if missing.length = 1 then "argument: " else "arguments: ") ++ enumerated missing)

/-- A failure by its name: a fault of the runner given by its parts, or a raised condition; or the
complaint about its arguments. -/
def make (name : String) (args : List Value) : Except Raised Failure :=
  match Family.ofName? name, args with
  | none, _ => (Raised.make name args).map .raised
  | some family, [kind, item, message] => .ok (.fault (.given family kind item message []))
  | some family, [kind, item, message, .dict details] =>
    .ok (.fault (.given family kind item message details))
  | some family, [kind, item, message, _] => .ok (.fault (.given family kind item message []))
  | some _, args => .error (partsComplaint args.length)

def ofName (name : String) (args : List Value) : Failure :=
  match make name args with
  | .ok f => f
  | .error r => .raised r

def name : Failure → String
  | .fault f => f.family.name
  | .raised r => r.name

def text : Failure → String
  | .fault f => f.text
  | .raised r => r.text

def isFatal : Failure → Bool
  | .fault _ => false
  | .raised r => r.isFatal

def isAssertion : Failure → Bool
  | .fault _ => false
  | .raised r => r.isAssertion

end Failure
end RankRunner
