import RowGate.Plan.WindowText
import RowGate.Plan.Operation
import RowGate.Sql.Select
import RowGate.Value.Whole
/-!
Drafts of statements: clauses are applied one by one, and at any time the draft can be made into a
statement. What an application has added stays, also if it fails on the way.
-/
namespace RowGate.Sql

/-- A statement in the making. -/
structure Draft where
  catalog : Catalog
  /-- The name of the table that is selected from. -/
  table : String
  /-- Columns that stand in place of the usual ones. -/
  columns : List String
  /-- Table expressions that names may denote, the latest first. -/
  scope : List (String × Source)
  /-- The number of the next parameter of raw text. -/
  nextRaw : Nat
  /-- The number of the next table expression. -/
  nextTable : Nat
  tables : List CommonTable
  aggregates : List Projection
  windows : List Projection
  criteria : List Criterion
  groupBy : List String
  having : List Criterion
  orderBy : List OrderKey
  /-- Counts as they were given; null is no count. -/
  limit : Value
  offset : Value

/-- A draft of a statement on a table without any clauses. -/
def Draft.start (catalog : Catalog) (table : String) (columns : List String) : Draft :=
  { catalog, table, columns, scope := [], nextRaw := 1, nextTable := 0, tables := [],
    aggregates := [], windows := [], criteria := [], groupBy := [], having := [], orderBy := [],
    limit := .null, offset := .null }

/-- A path split before its last name. -/
def splitPath (path : String) : Option String × String :=
  match (Text.splitAt '.' path.toList).reverse with
  | [] | [_] => (none, path)
  | last :: before =>
    let schema := String.ofList (['.'].intercalate before.reverse)
    (if schema.isEmpty then none else some schema, String.ofList last)

namespace Draft

/-- What a name denotes: a table expression in scope, a declared table, or any other table. -/
def resolve (d : Draft) (name : String) : Except Fault Source :=
  match d.scope.lookup name with
  | some source => .ok source
  | none => do
    let name ← if (d.catalog.lookup name).isSome then pure name else checkIdentifier name
    let (schema, bare) := splitPath name
    return .table schema bare

/-- The columns of a declared table; others have none that are known. -/
def knownColumns (d : Draft) (name : String) : Except Fault (List String) := do
  match ← d.resolve name with
  | .common .. => return []
  | .table .. => return (d.catalog.lookup name).getD []

/-- A draft for a statement inside this one. -/
def child (d : Draft) (table : String) (columns : List String) (own : List (String × Source)) :
    Draft :=
  { Draft.start d.catalog table columns with
    scope := own ++ d.scope, nextRaw := d.nextRaw, nextTable := d.nextTable }

/-- A listed column: a checked column, or any other expression as it stands. -/
def listed (entry : String) : Except Fault Projection := do
  let cs := dropLineEnd entry.toList
  if entry = "*" || (cs.head?.any isNameStart && cs.all fun c => isNameChar c || c == '.') then
    return .column (← Column.of entry)
  else return .column (.verbatim entry)

/-- The selected columns: those listed, or else those grouped by, or else all; then aggregates and
windows. -/
def projection (d : Draft) : Except Fault (List Projection) := do
  let columns ←
    if !d.columns.isEmpty then d.columns.mapM listed
    else if d.groupBy.isEmpty && d.aggregates.isEmpty then pure [.column (.verbatim "*")]
    else d.groupBy.mapM fun g => do return .column (← Column.of g)
  return columns ++ d.aggregates ++ d.windows

/-- A count as a whole number, if there is one. -/
def count? (v : Value) : Except Fault (Option Int) :=
  if v.isNull then .ok none else some <$> v.whole

/-- The statement that a draft stands for. -/
def statement (d : Draft) : Except Fault Select := do
  let projection ← d.projection
  let source ← d.resolve d.table
  let groupBy ← d.groupBy.mapM Column.of
  let limit ← count? d.limit
  let offset ← if d.offset.truthy then count? d.offset else pure none
  return .mk d.tables
    { projection, source, criteria := d.criteria, groupBy, having := d.having,
      orderBy := d.orderBy, limit, offset }

end Draft

/-- Work on a draft, which stays as it is where the work fails. -/
abbrev Drafting := ExceptT Fault (StateM Draft)

namespace Drafting

/-- Adds conditions. -/
def addCriterion (c : Criterion) : Drafting Unit :=
  modify fun d => { d with criteria := d.criteria ++ [c] }

/-- Raw text with its parameters; their numbers are used up even if the text is refused. -/
def rawText (opening sql : String) (bindings : List Value) : Drafting RawText := do
  checkBindings sql bindings
  let first := (← get).nextRaw
  modify fun d => { d with nextRaw := first + bindings.length }
  RawText.of first opening sql bindings

/-- The statement that work on an inner draft results in. Numbers go on being counted here. -/
def inner (table : String) (columns : List String) (own : List (String × Source))
    (work : Drafting Unit) : Drafting Select := do
  let d ← get
  let (result, inside) := work.run (d.child table columns own)
  set { d with nextRaw := inside.nextRaw, nextTable := inside.nextTable }
  result
  inside.statement

/-- A number for a table expression. -/
def freshTable : Drafting Nat := do
  let id := (← get).nextTable
  modify fun d => { d with nextTable := id + 1 }
  return id

/-- Declares a table expression. -/
def declare (t : CommonTable) : Drafting Unit :=
  modify fun d => { d with tables := d.tables ++ [t], scope := (t.name, t.source) :: d.scope }

/-- A text, or another one in place of an absent or empty one. -/
def orElse (s : Option String) (other : String) : String :=
  match s with
  | some t => if t.isEmpty then other else t
  | none => other

/-- Declares a table expression by work on its draft. -/
def addTable (name : String) (work : Drafting Unit) (columns : List String)
    (source : Option String) : Drafting Unit := do
  let query ← inner (orElse source (← get).table) columns [] work
  declare (.plain (← freshTable) name query)

/-- Declares a recursive table expression by work on the drafts of its parts. Its columns are listed,
or those of a declared table. -/
def addRecursiveTable (name : String) (initial recursive : Drafting Unit) (keepRepeats : Bool)
    (columns : List String) (source recursiveSource : Option String)
    (recursiveColumns : List String) : Drafting Unit := do
  let d ← get
  let source := orElse source d.table
  let columns ← if columns.isEmpty then d.knownColumns source else pure columns
  if columns.isEmpty then throw (.unsupported (.recursiveWithoutColumns name))
  else
    let first ← inner source columns [] initial
    let id ← freshTable
    let next ← inner (orElse recursiveSource name)
      (if recursiveColumns.isEmpty then columns else recursiveColumns)
      [(name, .common id name)] recursive
    declare (.recursive id name first next keepRepeats)

/-- Selects a window column given as text. -/
def addWindow (name fragment : String) : Drafting Unit := do
  let label ← checkIdentifier name
  modify fun d => { d with windows := d.windows ++ [.window fragment label] }

/-- An ordering term: all directions but `desc` ascend. -/
def sort (field direction : String) (nulls : Option String) : Except Fault OrderKey := do
  return ⟨← Column.of field, direction = "desc",
    match nulls with
    | some "first" => some true
    | some "last" => some false
    | _ => none⟩

/-- The function that a type names: an underscore at its end does not count, and two at its start
name none. -/
def functionOf (type : String) : Except Fault String :=
  match type.toList with
  | '_' :: '_' :: _ => .error .noSuchName
  | cs => .ok (if cs.getLast? = some '_' then String.ofList cs.dropLast else type)

/-- A window column. `row_number` takes no argument. -/
def windowColumn (w : FramedWindow) : Except Fault Over := do
  let function ← functionOf w.type
  let argument ←
    match w.field with
    | none => pure none
    | some f => if w.type = "row_number" then pure none else some <$> Column.of f
  let tests ← w.conditions.mapM conditionTest
  let partition ← w.partitionBy.mapM Column.of
  let order ← w.orderBy.mapM fun o => sort o.field o.direction o.nulls
  let frame ←
    match w.frame with
    | none => pure none
    | some f => do
      let (start, stop) ← f.bounds
      pure (some ⟨f.type, start, stop⟩)
  return { function, argument, criterion := Joined.conjunction (tests.map .one),
           partition, order, frame }

/-- Selects a window column. -/
def addFramedWindow (w : FramedWindow) : Drafting Unit := do
  let column ← windowColumn w
  let label ← checkIdentifier w.label
  modify fun d => { d with windows := d.windows ++ [.framed column label] }

/-- Fields have to equal values; those before a refused one stay. -/
def addEquals : Record → Drafting Unit
  | [] => return
  | (k, v) :: rest => do
    let column ← Column.of k
    addCriterion (.one (.equality column true v))
    addEquals rest

/-- Selects an aggregate. -/
def addAggregate (type field name : String) : Drafting Unit := do
  if aggregateTypes.contains type then
    let column ← Column.of field
    let label ← checkIdentifier name
    modify fun d => { d with aggregates := d.aggregates ++ [.aggregate type column label] }
  else throw (.unsupported (.aggregateType (.text type)))

/-- Adds a test. -/
def addTest (t : Except Fault Test) : Drafting Unit := do
  let t ← t
  addCriterion (.one t)

/-- Adds a test of a checked field. -/
def addFieldTest (field : String) (t : Column → Test) : Drafting Unit :=
  addTest (do return t (← Column.of field))

/-- Adds raw text as a condition. -/
def addRaw (opening sql : String) (bindings : List Value) : Drafting Unit := do
  let r ← rawText opening sql bindings
  addCriterion (.one (.raw r))

/-- Adds the condition of a group, if it has any. -/
def addGroup (g : Group) : Drafting Unit := do
  match ← groupCriterion g with
  | some c => addCriterion c
  | none => return

/-- Groups by fields; those before a refused one stay. -/
def addGroupBy : List String → Drafting Unit
  | [] => return
  | f :: rest => do
    let f ← checkIdentifier f
    modify fun d => { d with groupBy := d.groupBy ++ [f] }
    addGroupBy rest

/-- Adds a condition on groups. -/
def addHaving (t : Except Fault Test) : Drafting Unit := do
  let t ← t
  modify fun d => { d with having := d.having ++ [.one t] }

/-- Adds an ordering term. -/
def addOrder (field direction : String) (nulls : Option String) : Drafting Unit := do
  let term ← sort field direction nulls
  modify fun d => { d with orderBy := d.orderBy ++ [term] }

/-- Replaces the limit. -/
def setLimit (v : Value) : Drafting Unit := modify fun d => { d with limit := v }

/-- Replaces the offset. -/
def setOffset (v : Value) : Drafting Unit := modify fun d => { d with offset := v }

end Drafting

mutual

/-- Applies an operation to a draft. -/
def applyOperation : Operation → Drafting Unit
  | .table name operations columns source =>
    Drafting.addTable name (applyOperations operations) columns source
  | .recursiveTable name initial recursive keepRepeats columns source recursiveSource
      recursiveColumns =>
    Drafting.addRecursiveTable name (applyOperations initial) (applyOperations recursive)
      keepRepeats columns source recursiveSource recursiveColumns
  | .window label fragment => Drafting.addWindow label fragment
  | .framedWindow w => Drafting.addFramedWindow w
  | .equals values => Drafting.addEquals values
  | .fragment sql bindings => Drafting.addRaw "(" sql bindings
  | .aggregate type field label => Drafting.addAggregate type field label
  | .condition field operator value => Drafting.addTest (Test.of field operator value)
  | .range field low high => Drafting.addFieldTest field (.between · low high)
  | .isNull field => Drafting.addFieldTest field (.isNull · false)
  | .notNull field => Drafting.addFieldTest field (.isNull · true)
  | .isIn field values => Drafting.addFieldTest field (.isIn · false values)
  | .notIn field values => Drafting.addFieldTest field (.isIn · true values)
  | .exists_ sql bindings => Drafting.addRaw "EXISTS (" sql bindings
  | .group g => Drafting.addGroup g
  | .groupBy fields => Drafting.addGroupBy fields
  | .having field operator value => Drafting.addHaving (Test.of field operator value)
  | .orderBy field direction nulls => Drafting.addOrder field direction nulls
  | .limit count => Drafting.setLimit count
  | .offset count => Drafting.setOffset (.int count)

/-- Applies operations in order; the first that fails is the last. -/
def applyOperations : List Operation → Drafting Unit
  | [] => return
  | o :: os => do
    applyOperation o
    applyOperations os

end

/-- The statement that operations on a table result in. -/
def build (catalog : Catalog) (table : String) (operations : List Operation) :
    Except Fault Select := do
  let (result, d) := (applyOperations operations).run (Draft.start catalog table [])
  result
  d.statement

end RowGate.Sql
