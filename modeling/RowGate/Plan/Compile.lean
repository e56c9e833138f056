import RowGate.Plan.Operation
import RowGate.Plan.WindowText
import RowGate.Json.Writer
import RowGate.Text.Basic
import RowGate.Log
/-!
Queries compiled to operations, stage by stage. Names, operators and types are checked on the way;
the first failed check decides.
-/
namespace RowGate

/-- The operators of conditions. -/
def conditionOperators : List String :=
  ["=", "!=", "<>", "<", "<=", ">", ">=", "like", "ilike", "not like", "in", "not in", "between",
    "is null", "is not null"]

/-- Items that are equal to an earlier item, in order. -/
def repeats : List String → List String → List String
  | _, [] => []
  | seen, x :: xs => (if seen.contains x then [x] else []) ++ repeats (x :: seen) xs

/-- Window names are distinct, and so are the names of table expressions. -/
def Query.checkNames (q : Query) : Except Fault Unit :=
  let windows := q.windows.map (·.label) ++ q.framedWindows.map (·.label)
  let tables := q.tables.map (·.name) ++ q.recursiveTables.map (·.name)
  match (repeats [] windows).map .duplicateWindow ++ (repeats [] tables).map .duplicateTable with
  | [] => .ok ()
  | vs => .error (.invalid vs none)

/-- An operator has to be one of conditions. -/
def checkOperator (operator place : String) : Except Fault Unit :=
  if conditionOperators.contains operator then .ok ()
  else .error (.unsupported (.operatorAt place operator))

mutual

/-- The operators of a group member at all depths. -/
def GroupMember.check : GroupMember → Except Fault Unit
  | .condition c => checkOperator c.operator "whereGroups"
  | .group _ members _ => checkMembers members

/-- The operators of group members at all depths. -/
def checkMembers : List GroupMember → Except Fault Unit
  | [] => .ok ()
  | m :: ms => do
    m.check
    checkMembers ms

end

/-- A window column as an operation. -/
def Window.compile (w : Window) : Except Fault Operation := do
  let label ← checkIdentifier w.label
  return .window label (← w.fragment)

/-- A framed window column as an operation. -/
def FramedWindow.compile (w : FramedWindow) : Except Fault Operation := do
  let _ ← checkIdentifier w.label
  if !windowTypes.contains w.type then .error (.unsupported (.windowType w.type))
  else
    w.conditions.forM fun c => checkOperator c.operator "advancedWindows.filter"
    return .framedWindow w

/-- An aggregate column as an operation. -/
def Aggregate.compile (a : Aggregate) : Except Fault Operation :=
  if aggregateTypes.contains a.type then .ok (.aggregate a.type a.field a.columnName)
  else .error (.unsupported (.aggregateType (.text a.type)))

/-- A condition as an operation. -/
def Condition.compile (c : Condition) : Except Fault Operation := do
  checkOperator c.operator "whereRaw"
  return .condition c.field c.operator c.value

/-- A group as an operation; a group without members is checked and left out. -/
def Group.compile (g : Group) : Except Fault (List Operation) := do
  checkMembers g.members
  return if g.members.isEmpty then [] else [.group g]

/-- A comparison after grouping as an operation. -/
def HavingTerm.compile (h : HavingTerm) : Except Fault Operation := do
  checkOperator h.operator "having"
  return .having h.field h.operator h.value

/-- An ordering term as an operation. -/
def OrderTerm.compile (o : OrderTerm) : Except Fault Operation := do
  let direction ← checkDirection o.direction
  return .orderBy o.field direction o.nulls

/-- The clauses of a query that hold no queries themselves, from the windows to the offset. -/
def Query.compileClauses (q : Query) : Except Fault (List Operation) := do
  let windows ← q.windows.mapM (·.compile)
  let framed ← q.framedWindows.mapM (·.compile)
  let aggregates ← q.aggregates.mapM (·.compile)
  let conditions ← q.conditions.mapM (·.compile)
  let groups ← q.groups.mapM (·.compile)
  let having ← q.having.mapM (·.compile)
  let order ← q.orderBy.mapM (·.compile)
  return windows ++ framed ++
    (if q.filter.isEmpty then [] else [.equals q.filter]) ++
    q.fragments.map (fun f => .fragment f.sql f.bindings) ++
    aggregates ++ conditions ++
    q.ranges.map (fun r => .range r.field r.low r.high) ++
    q.nulls.map .isNull ++ q.notNulls.map .notNull ++
    q.isIn.map (fun (k, vs) => .isIn k vs) ++ q.notIn.map (fun (k, vs) => .notIn k vs) ++
    q.exists_.map (fun f => .exists_ f.sql f.bindings) ++
    groups.flatten ++
    (if q.groupBy.isEmpty then [] else [.groupBy q.groupBy]) ++
    having ++ order ++
    (q.limit.map .limit).toList ++
    (if q.offset = 0 then [] else [.offset q.offset])

/-- Values without an interchange form stand as their texts. -/
def plainFallback : Json.Fallback := ⟨fun v => some v.plain, none⟩

/-- Whether the recursive part of a table expression refers to it: by its source, or anywhere in
its text. -/
def refersTo (recursive : Query) (source : Option String) (name : String) : Bool :=
  match source with
  | none => true
  | some s =>
    s = name ||
      ((recursive.toValue.toJson? plainFallback).any fun j => Text.contains j.render name)

mutual

/-- A query as operations. Table expressions come first, then the other clauses in order. -/
def Query.compile (q : Query) : Logged (List Operation) := do
  match q with
  | {tables, recursiveTables, ..} => do
    q.checkNames
    let ts ← compileTables tables
    let rs ← compileRecursiveTables recursiveTables
    return ts ++ rs ++ (← q.compileClauses)

/-- Table expressions as operations. -/
def compileTables : List (TableExpr Query) → Logged (List Operation)
  | [] => return []
  | {name, query, columns, table} :: rest => do
    let name ← checkIdentifier name
    let operations ← query.compile
    return .table name operations columns table :: (← compileTables rest)

/-- Recursive table expressions as operations. One that does not refer to itself is logged. -/
def compileRecursiveTables : List (RecursiveExpr Query) → Logged (List Operation)
  | [] => return []
  | {name, initial, recursive, keepRepeats, columns, table, recursiveTable, recursiveColumns}
      :: rest => do
    if !refersTo recursive recursiveTable name then
      logEntry .warning .planner
        ("Recursive CTE " ++ Text.quoted name ++
          ": recursive query does not reference the CTE by name")
    let name ← checkIdentifier name
    let first ← initial.compile
    let next ← recursive.compile
    return .recursiveTable name first next keepRepeats columns table recursiveTable
      recursiveColumns :: (← compileRecursiveTables rest)

end
end RowGate
