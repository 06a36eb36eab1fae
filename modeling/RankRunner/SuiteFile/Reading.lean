import RankRunner.Number.Spelling
import RankRunner.SuiteFile
import RankRunner.Value.Fields
import RankRunner.Value.Json

/-! Reading suites from dynamic values: lists of groups with their cases, and what the functions of
the cases do. Actions are numbered in the order in which they are read. -/

namespace RankRunner.SuiteFile

def notFloat (s : String) : Raised :=
  .badValue ("could not convert string to float: " ++ Literal.quote s)

def noFloat (v : Value) : Raised :=
  .badType s!"float() argument must be a string or a real number, not '{v.typeName}'"

/-- What a call returns. A dictionary with the single key `float` stands for a float by its
spelling, which need not be one. -/
def ending : Value → Ending
  | .dict [("float", v)] =>
    match v with
    | .float x => .returns (.float x)
    | .text s =>
      match Binary64.read? s with
      | some x => .returns (.float x)
      | none => .raises (.raised (notFloat s))
    | v =>
      if !v.isNumber then .raises (.raised (noFloat v))
      else
        match (Seconds.whole v.asInt).toFloat with
        | .ok x => .returns (.float x)
        | .error r => .raises (.raised r)
  | v => .returns v

/-- What is raised under the name in `raise` with the arguments in `args`, or the complaint about
the arguments. -/
def failure (v : Value) : Except Raised Failure :=
  Failure.make (v.textAt "raise") (v.itemsAt "args")

def raised (v : Value) : Failure := .ofName (v.textAt "raise") (v.itemsAt "args")

def deed (v : Value) : Deed where
  advance := v.intAt "advance"
  print := v.textAt? "print"
  request := v.boolAt "request"
  signal := v.intAt? "signal"
  killSelf := v.intAt? "kill_self"
  ending :=
    match v.field? "raise" with
    | some _ => .raises (raised v)
    | none => ending ((v.get? "ret").getD .null)

/-- Readers count the actions they have read, and fail as declarations do. -/
abbrev Reader := StateT Nat (Except Fault)

def action? : Value → Reader (Option Action)
  | .null => return none
  | v => do
    let key ← get
    set (key + 1)
    match v with
    | .list ds => return some { key, deeds := ds.map deed }
    | d => return some { key, deeds := [deed d] }

def actionAt? (v : Value) (key : String) : Reader (Option Action) :=
  action? ((v.get? key).getD .null)

def case (v : Value) : Reader Case := do
  return .declare (v.textAt "id") (← actionAt? v "do") (v.textsAt "needs")

/-- One step in declaring a group, given by its name and its arguments. -/
def step (v : Value) : Reader Group.Step := do
  let args := v.items.drop 1
  let names := args.map Value.display
  match v.items.head? with
  | some (.text "depends_on") => return .dependsOn names
  | some (.text "register") =>
    return .register (names.headD "") (← action? ((args[1]?).getD .null))
  | _ => return .caseDependsOn (names.headD "") (names.drop 1)

def group (v : Value) : Reader Group := do
  match v.field? "chain" with
  | some chain => Group.build (v.textAt "id") (← chain.items.mapM step)
  | none =>
    let cases ← (v.itemsAt "cases").mapM case
    let first ← (v.itemsAt "cases_list").mapM case
    Group.declare (v.textAt "id") first cases (v.textsAt "needs")

def groups (vs : List Value) : Reader (List Group) := vs.mapM group

def ofStyle (style : String) (groups : Except Fault (List Group)) : SuiteFile :=
  let list : Listing := { groups }
  let noList : Listing := { groups, isList := false }
  let other : Listing := { groups := .ok [], isList := false }
  match style with
  | "suite" => { provider := some (.function list) }
  | "groups" => { listing := some list }
  | "both" => { provider := some (.function list), listing := some other }
  | "suite_value" => { provider := some .value, listing := some list }
  | "suite_value_only" => { provider := some .value }
  | "tuple" | "bad_item" => { listing := some noList }
  | "suite_none" => { provider := some (.function other), listing := some list }
  | _ => {}

/-- A suite file, its actions being numbered from zero. -/
def ofValue (v : Value) : SuiteFile :=
  let groups := ((groups (v.itemsAt "groups")).run 0).map (·.1)
  { ofStyle (v.textAt "style") groups with raises := (v.field? "raise").map fun _ => raised v }

end RankRunner.SuiteFile
