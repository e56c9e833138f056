import RowGate.Plan.Call
import RowGate.Sql.Draft
/-!
Calls applied to drafts. A call that names no operation, lacks an argument or brings one of the wrong
type is refused; calls inside it are made in order before anything of it is added.
-/
namespace RowGate.Sql

/-- An argument that is ready for use: inner calls have become work on a draft. -/
inductive Prepared where
  | value (v : Value)
  | window (w : FramedWindow)
  | group (g : Group)
  | work (w : Drafting Unit)

/-- The arguments of a call that is ready to be made. -/
abbrev Arguments := List (String × Prepared)

namespace Arguments

/-- All needed arguments are there, and no others than the needed and the optional ones. -/
def check (as : Arguments) (needed : List String) (optional : List String) : Except Fault Unit :=
  if needed.all (fun k => (as.lookup k).isSome) &&
      as.all (fun a => needed.contains a.1 || optional.contains a.1) then .ok ()
  else .error .wrongType

/-- An argument as a value, null if it is absent. -/
def value (as : Arguments) (key : String) : Except Fault Value :=
  match as.lookup key with
  | some (.value v) => .ok v
  | none => .ok .null
  | some _ => .error .wrongType

/-- An argument as a text. -/
def text (as : Arguments) (key : String) : Except Fault String := do
  match ← as.value key with
  | .text s => return s
  | _ => .error .wrongType

/-- An argument as a text that may be absent. -/
def text? (as : Arguments) (key : String) : Except Fault (Option String) := do
  match ← as.value key with
  | .text s => return some s
  | v => if v.truthy then .error .wrongType else return none

/-- The items of an argument; one that is absent has none. -/
def items (as : Arguments) (key : String) : Except Fault (List Value) :=
  match as.lookup key with
  | none => .ok []
  | some (.value v) =>
    match v.items? with
    | some vs => .ok vs
    | none => .error .wrongType
  | some _ => .error .wrongType

/-- A value that has to be a text. -/
def asText : Value → Except Fault String
  | .text s => .ok s
  | _ => .error .wrongType

/-- The items of an argument as texts. -/
def texts (as : Arguments) (key : String) : Except Fault (List String) := do
  (← as.items key).mapM asText

/-- The work that an argument stands for. -/
def work (as : Arguments) (key : String) : Except Fault (Drafting Unit) :=
  match as.lookup key with
  | some (.work w) => .ok w
  | _ => .error .wrongType

/-- A test by the field, operator and value of a call. An operator that is a list or a map cannot be
looked up. -/
def test (as : Arguments) : Except Fault Test := do
  let v ← as.value "value"
  match ← as.value "operator" with
  | .text operator =>
    if (Test.ofOperator? operator).isSome then Test.of (← as.text "field") operator v
    else .error (.unsupported (.operator (.text operator)))
  | other => .error (if other.isHashable then .unsupported (.operator other) else .wrongType)

/-- The type of an aggregate. -/
def aggregateType (as : Arguments) : Except Fault String := do
  match ← as.value "type" with
  | .text type => return type
  | other =>
    .error (if other.isHashable then .unsupported (.aggregateType other) else .wrongType)

end Arguments

namespace Drafting

/-- Groups by fields one after another. -/
def groupByValues : List Value → Drafting Unit
  | [] => return
  | v :: vs => do
    let field ← Arguments.asText v
    addGroupBy [field]
    groupByValues vs

/-- Makes a call with its arguments. -/
def perform (kind : String) (as : Arguments) : Drafting Unit := do
  match kind with
  | "with_cte" =>
    as.check ["name", "operations"] ["columns", "table"]
    addTable (← as.text "name") (← as.work "operations") (← as.texts "columns")
      (← as.text? "table")
  | "with_recursive_cte" =>
    as.check ["name", "initial", "recursive"]
      ["union_all", "columns", "table", "recursive_table", "recursive_columns"]
    addRecursiveTable (← as.text "name") (← as.work "initial") (← as.work "recursive")
      (← as.value "union_all").truthy (← as.texts "columns") (← as.text? "table")
      (← as.text? "recursive_table") (← as.texts "recursive_columns")
  | "select_window" =>
    as.check ["alias", "fragment"] []
    addWindow (← as.text "alias") (← as.text "fragment")
  | "select_advanced_window" =>
    as.check ["window"] []
    match as.lookup "window" with
    | some (.window w) => addFramedWindow w
    | _ => throw .noSuchName
  | "where_equals" =>
    as.check ["values"] []
    match ← as.value "values" with
    | .map fields => addEquals fields
    | _ => throw .noSuchName
  | "where_raw" =>
    as.check ["sql"] ["bindings"]
    addRaw "(" (← as.text "sql") (← as.items "bindings")
  | "where_exists" =>
    as.check ["sql"] ["bindings"]
    addRaw "EXISTS (" (← as.text "sql") (← as.items "bindings")
  | "aggregate" =>
    as.check ["type", "field", "alias"] []
    let type ← as.aggregateType
    if aggregateTypes.contains type then
      addAggregate type (← as.text "field") (← as.text "alias")
    else throw (.unsupported (.aggregateType (.text type)))
  | "where" =>
    as.check ["field", "operator", "value"] []
    addTest as.test
  | "having" =>
    as.check ["field", "operator", "value"] []
    addHaving as.test
  | "where_between" =>
    as.check ["field", "low", "high"] []
    addFieldTest (← as.text "field") (.between · (← as.value "low") (← as.value "high"))
  | "where_null" =>
    as.check ["field"] []
    addFieldTest (← as.text "field") (.isNull · false)
  | "where_not_null" =>
    as.check ["field"] []
    addFieldTest (← as.text "field") (.isNull · true)
  | "where_in" =>
    as.check ["field", "values"] []
    let column ← Column.of (← as.text "field")
    addCriterion (.one (.isIn column false (← as.items "values")))
  | "where_not_in" =>
    as.check ["field", "values"] []
    let column ← Column.of (← as.text "field")
    addCriterion (.one (.isIn column true (← as.items "values")))
  | "where_group" =>
    as.check ["group"] []
    match as.lookup "group" with
    | some (.group g) => addGroup g
    | _ => throw .noSuchName
  | "group_by" =>
    as.check ["fields"] []
    groupByValues (← as.items "fields")
  | "order_by" =>
    as.check ["field"] ["direction", "nulls"]
    let direction ← as.value "direction"
    let nulls ← as.value "nulls"
    addOrder (← as.text "field") direction.plain (nulls.toOption.map (·.plain))
  | "limit" =>
    as.check ["count"] []
    setLimit (← as.value "count")
  | "offset" =>
    as.check ["count"] []
    setOffset (← as.value "count")
  | _ => throw .noSuchName

end Drafting

mutual

/-- Makes a call. -/
def applyCall : Call → Drafting Unit
  | {kind, arguments} => Drafting.perform kind (prepare arguments)

/-- Arguments made ready for use. -/
def prepare : List (String × Argument Call) → Arguments
  | [] => []
  | (k, a) :: rest => (k, prepareOne a) :: prepare rest

/-- An argument made ready for use. -/
def prepareOne : Argument Call → Prepared
  | .value v => .value v
  | .window w => .window w
  | .group g => .group g
  | .calls cs => .work (applyCalls cs)

/-- Makes calls in order; the first that fails is the last. -/
def applyCalls : List Call → Drafting Unit
  | [] => return
  | c :: cs => do
    applyCall c
    applyCalls cs

end
end RowGate.Sql
