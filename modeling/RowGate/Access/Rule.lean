import RowGate.Value.Order
import RowGate.Fault
import RowGate.Text.Basic
import RowGate.Text.Case
import RowGate.Entries
/-!
Rules of access, the rules of a table by operation, and the store of them by table. An operation
without an entry is forbidden; an entry without rules forbids nothing.
-/
namespace RowGate

/-- How a field check compares. -/
inductive CheckOperator where
  | equal | unequal | isIn | notIn
deriving DecidableEq, Repr

namespace CheckOperator

/-- The sign of an operator. -/
def sign : CheckOperator → String
  | .equal => "==="
  | .unequal => "!=="
  | .isIn => "in"
  | .notIn => "notIn"

/-- The operator of a sign. -/
def ofSign? : String → Option CheckOperator
  | "===" => some .equal
  | "!==" => some .unequal
  | "in" => some .isIn
  | "notIn" => some .notIn
  | _ => none

/-- Signs determine operators. -/
theorem ofSign?_sign (o : CheckOperator) : ofSign? o.sign = some o := by
  cases o <;> rfl

end CheckOperator

/-- What a field is compared with. -/
inductive Operand where
  | literal (v : Value)
  /-- A value of the user, by name. -/
  | context (name : String)

/-- A comparison of a field of a row. -/
structure FieldCheck where
  field : String
  operator : CheckOperator
  operand : Operand

/-- A rule of access. -/
inductive Rule where
  /-- Allows everyone. -/
  | everyone
  /-- Denies everyone. -/
  | nobody
  /-- Allows users with one of the roles and denies all others. -/
  | role (roles : List String)
  /-- Allows users with an identity. -/
  | signedIn
  /-- Allows users without an identity. -/
  | guest
  /-- Allows users with one of the labels. -/
  | labels (labels : List String)
  /-- Allows users in one of the teams. -/
  | teams (teams : List String)
  /-- Allows or denies everyone. -/
  | constant (allow : Bool)
  /-- Allows where a field of the row compares. -/
  | field (check : FieldCheck)
  /-- Allows where a template holds. -/
  | template (sql : String)
  /-- An entry that is no rule. -/
  | unknown (got : Value)

namespace FieldCheck

/-- The operator of a field check; a value that cannot be looked up is of the wrong type. -/
def operatorOf (v : Value) : Except Fault (Option CheckOperator) :=
  match v with
  | .text sign => .ok (CheckOperator.ofSign? sign)
  | v => if v.isHashable then .ok none else .error .wrongType

/-- The violations of a field check, given its operator if there is one. -/
def violations (r : Record) (operator : Option CheckOperator) : List Violation :=
  let source := (r.get? "valueType").getD (.text "static")
  let known :=
    match source with
    | .text "static" | .text "userContext" => true
    | _ => false
  let named :=
    match source, r.get "value" with
    | .text "userContext", .text _ => true
    | .text "userContext", _ => false
    | _, _ => true
  (if (r.get "field").truthy then [] else [.checkWithoutField]) ++
    (if operator.isSome then [] else [.checkOperator (r.get "operator")]) ++
    (if known then [] else [.checkSource source]) ++
    (if named then [] else [.checkContextName])

/-- What a field is compared with. A list becomes a tuple. -/
def operandOf (r : Record) : Operand :=
  match r.get "valueType", r.get "value" with
  | .text "userContext", .text name => .context name
  | _, .list vs => .literal (.tuple vs)
  | _, v => .literal v

/-- A field check by its fields, or all its violations. -/
def ofRecord (r : Record) : Except Fault FieldCheck := do
  let operator ← operatorOf (r.get "operator")
  match violations r operator, operator with
  | [], some operator => return ⟨(r.get "field").plain, operator, operandOf r⟩
  | vs, _ => .error (.invalid vs none)

/-- A field check of a request. -/
def read (v : Value) : Except Fault FieldCheck :=
  match v with
  | .map fields => ofRecord fields
  | _ => .error (.violation .checkNotObject)

/-- A field check as a map. -/
def toValue (c : FieldCheck) : Value :=
  let (source, value) :=
    match c.operand with
    | .literal (.tuple vs) => ("static", .list vs)
    | .literal v => ("static", v)
    | .context name => ("userContext", .text name)
  .map [("field", .text c.field), ("operator", .text c.operator.sign),
    ("valueType", .text source), ("value", value)]

end FieldCheck

namespace Rule

/-- Texts under a key; a collection of any items counts, a text does not. -/
def textsUnder (r : Record) (key : String) : Except Fault (List String) :=
  let v := r.get key
  if !v.truthy then .ok []
  else
    match v with
    | .list vs | .tuple vs | .set vs => .ok (vs.map (·.plain))
    | _ => .error (.violation (.notTexts key))

/-- A rule by its fields. -/
def ofRecord (r : Record) : Except Fault Rule := do
  match r.get "allow" with
  | .text "public" => return .everyone
  | .text "private" => return .nobody
  | .text "role" => return .role (← textsUnder r "roles")
  | .text "auth" => return .signedIn
  | .text "guest" => return .guest
  | .text "labels" => return .labels (Text.distinct (← textsUnder r "labels"))
  | .text "teams" => return .teams (Text.distinct (← textsUnder r "teams"))
  | .text "static" =>
    match r.get "static" with
    | .bool b => return .constant b
    | _ => .error (.violation .staticNotBoolean)
  | .text "fieldCheck" => return .field (← FieldCheck.read (r.get "fieldCheck"))
  | .text "customSql" =>
    match r.get "customSql" with
    | .text sql =>
      if (Text.strip sql).isEmpty then .error (.violation .emptyTemplate)
      else return .template sql
    | _ => .error (.violation .emptyTemplate)
  | kind => .error (.violation (.ruleKind kind))

/-- A rule of a request. -/
def read (v : Value) : Except Fault Rule :=
  match v with
  | .map fields => ofRecord fields
  | v => .error (.violation (.ruleNotObject v))

/-- The name of a rule's kind. -/
def kind : Rule → String
  | .everyone => "public"
  | .nobody => "private"
  | .role _ => "role"
  | .signedIn => "auth"
  | .guest => "guest"
  | .labels _ => "labels"
  | .teams _ => "teams"
  | .constant _ => "static"
  | .field _ => "fieldCheck"
  | .template _ => "customSql"
  | .unknown _ => "unknown"

/-- What a rule's map holds besides its kind. -/
def payload : Rule → Record
  | .role roles => [("roles", .texts roles)]
  | .labels names => [("labels", .texts (Text.sorted names))]
  | .teams names => [("teams", .texts (Text.sorted names))]
  | .constant b => [("static", .bool b)]
  | .field check => [("fieldCheck", check.toValue)]
  | .template sql => [("customSql", .text sql)]
  | _ => []

/-- A rule as a map. -/
def toValue (r : Rule) : Value := .map (("allow", .text r.kind) :: r.payload)

/-- A rule that compares a field of a row. -/
def isFieldCheck : Rule → Bool
  | .field _ => true
  | _ => false

end Rule

/-- What can be done to the rows of a table. -/
inductive Action where
  | select | insert | update | delete
deriving DecidableEq, Repr

namespace Action

/-- All actions. -/
def all : List Action := [.select, .insert, .update, .delete]

/-- The name of an action. -/
def name : Action → String
  | .select => "SELECT"
  | .insert => "INSERT"
  | .update => "UPDATE"
  | .delete => "DELETE"

/-- The action of a name in upper case. -/
def ofName? (name : String) : Option Action := all.find? (·.name == name)

end Action

/-- The rules of a table: entries by action, in the order in which they were given. -/
structure Permissions where
  entries : List (Action × List Rule)

namespace Permissions

/-- Puts an entry: in place if the action has one, else at the end. -/
def put (rules : List Rule) (a : Action) : List (Action × List Rule) → List (Action × List Rule)
  | [] => [(a, rules)]
  | (b, old) :: rest => if b = a then (a, rules) :: rest else (b, old) :: put rules a rest

/-- The rules for an operation, named in any case. -/
def rulesFor (p : Permissions) (operation : String) : Option (List Rule) := do
  p.entries.lookup (← Action.ofName? (Text.upper operation))

/-- The entries of a request. A null leaves an operation without an entry. -/
def readEntries (entries : List (Action × List Rule)) :
    Record → Except Fault (List (Action × List Rule))
  | [] => .ok entries
  | (name, v) :: rest => do
    match Action.ofName? (Text.upper name) with
    | none => .error (.violation (.unknownOperation name))
    | some a =>
      match v with
      | .null => readEntries entries rest
      | .list vs | .tuple vs => readEntries (put (← vs.mapM Rule.read) a entries) rest
      | _ => .error (.violation (.rulesNotList a.name))

/-- The rules of a table by its fields. -/
def ofRecord (r : Record) : Except Fault Permissions :=
  match (r.get? "operations").getD (.map []) with
  | .map operations => do return ⟨← readEntries [] operations⟩
  | _ => .error (.violation .operationsNotObject)

/-- The rules of a table in a request. -/
def read (v : Value) : Except Fault Permissions :=
  match v with
  | .map fields => ofRecord fields
  | _ => .error (.violation .permissionsNotObject)

/-- The rules of a table as a map. -/
def toValue (p : Permissions) : Value :=
  .map [("operations",
    .map (p.entries.map fun (a, rules) => (a.name, .list (rules.map Rule.toValue))))]

/-- The rules of a new table: everything is allowed to everyone. -/
def default : Permissions := ⟨Action.all.map fun a => (a, [.everyone])⟩

end Permissions

/-- The rules of tables, by name. -/
abbrev PermissionStore := Entries Permissions

/-- The names of the tables in ascending order. -/
def PermissionStore.tables (s : PermissionStore) : List String := Text.sorted s.names

end RowGate
