import RowGate.Query.Basic
import RowGate.Fault
import RowGate.Text.Case
import RowGate.Value.Whole
/-!
Queries read from the maps of a request. The first part that cannot be read decides the failure;
parts are read in the order in which a query lists them.
-/
namespace RowGate

/-- Reading may fail with the violations it finds. -/
abbrev Reading (α : Type) := Except Fault α

namespace Read

/-- The value under a key that has to be there. -/
def required (r : Record) (key place : String) : Reading Value :=
  match r.get key with
  | .null => .error (.violation (.required place key))
  | v => .ok v

/-- A value as a record. -/
def object (v : Value) (place : String) : Reading Record :=
  match v with
  | .map fields => .ok fields
  | v => .error (.violation (.notObject place v))

/-- A value as a list; null counts as empty. -/
def list (v : Value) (place : String) : Reading (List Value) :=
  match v with
  | .null => .ok []
  | .list items | .tuple items => .ok items
  | v => .error (.violation (.notList place v))

/-- A value as a list of the texts of its items. -/
def texts (v : Value) (place : String) : Reading (List String) := do
  return (← list v place).map (·.plain)

/-- A false value counts as an empty record. -/
def orEmpty (v : Value) : Value := if v.truthy then v else .map []

/-- The text of a value that is not null. -/
def textOrNone (v : Value) : Option String := v.toOption.map (·.plain)

/-- The text of a value, or another text in place of a false value. -/
def textOr (v : Value) (other : String) : String := if v.truthy then v.plain else other

/-- A value as an integer: integers, whole floats and numerals, but not booleans. -/
def integer? : Value → Option Int
  | .number (.int n) => some n
  | .number (.float x) => Number.wholeFloat? x
  | .text s => Number.parseInt? s
  | _ => none

/-- A connective by its name in any case; null is none. -/
def joining (v : Value) (place : String) : Reading (Option Connective) :=
  if v.isNull then .ok none
  else
    match Text.upper v.plain with
    | "AND" => .ok (some .and)
    | "OR" => .ok (some .or)
    | _ => .error (.violation (.badConnective place v))

/-- Reads each item with its position. -/
def eachAt {α β : Type} (read : Nat → α → Reading β) : Nat → List α → Reading (List β)
  | _, [] => .ok []
  | i, v :: vs => do return (← read i v) :: (← eachAt read (i + 1) vs)

/-- A place with a position in it. -/
def indexed (place : String) (i : Nat) : String := place ++ "[" ++ toString i ++ "]"

/-- Reads the items of the list under a key, each at its position. -/
def items {β : Type} (r : Record) (key : String) (read : Value → String → Reading β) :
    Reading (List β) := do
  eachAt (fun i v => read v (indexed key i)) 0 (← list (r.get key) key)

/-- The formula a value is, if it is one. -/
def formula? : Value → Option Formula
  | .formula f => some f
  | _ => none

/-- Reads a value unless it is false. -/
def unlessFalse {β : Type} (v : Value) (read : Value → Reading β) : Reading (Option β) :=
  if v.truthy then (read v).map some else .ok none

end Read

open Read

/-- An ordering term; a null order may stand under either of two keys. -/
def OrderTerm.read (v : Value) (place : String) : Reading OrderTerm := do
  let r ← object v place
  let nulls := (r.get? "nulls").getD (r.get "null")
  let field ← required r "field" place
  return {
    field := field.plain
    direction := Text.lower (textOr (r.get "direction") "asc")
    nulls := (textOrNone nulls).map Text.lower }

/-- A condition; equality is the operator if none is named. -/
def Condition.read (v : Value) (place : String) : Reading Condition := do
  let r ← object v place
  let field ← required r "field" place
  let joiner ← joining (r.get "boolean") place
  return {
    field := field.plain
    operator := Text.lower (textOr (r.get "operator") "=")
    value := r.get "value"
    joiner := joiner }

/-- A range with its two bounds. -/
def Range.read (v : Value) (place : String) : Reading Range := do
  let r ← object v place
  match ← list (← required r "value" place) place with
  | [low, high] => return ⟨(← required r "field" place).plain, low, high⟩
  | _ => .error (.violation (.badRange place))

/-- A piece of raw text and its bindings. -/
def Fragment.read (v : Value) (place : String) : Reading Fragment := do
  let r ← object v place
  let sql ← required r "sql" place
  return ⟨sql.plain, ← list (r.get "bindings") place⟩

mutual

/-- A member of a group: a group if it has members of its own, else a condition. -/
def GroupMember.read (place : String) : Value → Reading GroupMember
  | .map fields => do
    if (fields.lookup "clauses").isSome then
      let members ← membersUnder place fields
      let own ← joining (Record.get fields "type") place
      let joiner ← joining (Record.get fields "boolean") place
      return .group (own.getD .and) members joiner
    else return .condition (← Condition.read (.map fields) place)
  | v => do return .condition (← Condition.read v place)

/-- The members in the list under the key of members. -/
def membersUnder (place : String) : List (String × Value) → Reading (List GroupMember)
  | [] => .ok []
  | (k, v) :: rest => if k = "clauses" then memberList place v else membersUnder place rest

/-- The members in a list. -/
def memberList (place : String) : Value → Reading (List GroupMember)
  | .null => .ok []
  | .list items | .tuple items => membersAt place 0 items
  | v => .error (.violation (.notList place v))

/-- Members with their positions. -/
def membersAt (place : String) (i : Nat) : List Value → Reading (List GroupMember)
  | [] => .ok []
  | v :: vs => do
    return (← GroupMember.read (indexed (place ++ ".clauses") i) v) ::
      (← membersAt place (i + 1) vs)

end

/-- A group of conditions. -/
def Group.read (v : Value) (place : String) : Reading Group := do
  let r ← object v place
  let members ← membersUnder place r
  let own ← joining (r.get "type") place
  return ⟨own.getD .and, members, ← joining (r.get "boolean") place⟩

/-- A comparison after grouping. -/
def HavingTerm.read (v : Value) (place : String) : Reading HavingTerm := do
  let r ← object v place
  let field ← required r "field" place
  return ⟨field.plain, Text.lower (textOr (r.get "operator") "="), r.get "value"⟩

/-- An aggregate column. -/
def Aggregate.read (v : Value) (place : String) : Reading Aggregate := do
  let r ← object v place
  let type ← required r "type" place
  let field ← required r "field" place
  return ⟨Text.lower type.plain, field.plain, textOrNone (r.get "alias")⟩

/-- A window column. -/
def Window.read (v : Value) (place : String) : Reading Window := do
  let r ← object v place
  let type ← required r "type" place
  let label ← required r "alias" place
  let partition ← texts (r.get "partitionBy") place
  let order ← (← list (r.get "orderBy") place).mapM (OrderTerm.read · (place ++ ".orderBy"))
  let frame := r.get "frameClause"
  return {
    type := Text.lower type.plain
    label := label.plain
    field := textOrNone (r.get "field")
    partitionBy := partition
    orderBy := order
    frame := if frame.truthy then some frame.plain else none }

/-- The end of a frame: a whole number, or a name in upper case. -/
def FrameBound.read (v : Value) : FrameBound :=
  match v with
  | .text s => .named (Text.upper s)
  | v => ((integer? v).map .offset).getD (.named (Text.upper v.plain))

/-- A frame by its ends. -/
def Frame.read (v : Value) (place : String) : Reading Frame := do
  let r ← object v place
  let type ← required r "type" place
  let start ← required r "start" place
  return ⟨Text.upper type.plain, .read start, (r.get "end").toOption.map .read⟩

/-- A window column with a frame by its ends. Partition and order may stand outside the map that
describes the window. -/
def FramedWindow.read (v : Value) (place : String) : Reading FramedWindow := do
  let r ← object v place
  let clause ← object (orEmpty (r.get "over")) (place ++ ".over")
  let type ← required r "type" place
  let label ← required r "alias" place
  let partition ← texts ((clause.get? "partitionBy").getD (r.get "partitionBy")) place
  let order ← (← list ((clause.get? "orderBy").getD (r.get "orderBy")) place).mapM
    (OrderTerm.read · (place ++ ".orderBy"))
  let frame ← unlessFalse (clause.get "frame") (Frame.read · (place ++ ".frame"))
  let conditions ← (← list (r.get "filter") place).mapM (Condition.read · (place ++ ".filter"))
  return {
    type := Text.lower type.plain
    label := label.plain
    field := textOrNone (r.get "field")
    partitionBy := partition
    orderBy := order
    frame := frame
    conditions := conditions }

/-- A pivot. -/
def Pivot.read (v : Value) (place : String) : Reading Pivot := do
  let r ← object v place
  let column ← required r "column" place
  let values ← texts (r.get "values") place
  return ⟨column.plain, values, ← Aggregate.read (← required r "aggregate" place) place⟩

/-- What happens to the rows of an answer; entries of `compute` that are no formulas are left
out. -/
def Transforms.read (v : Value) (place : String) : Reading Transforms := do
  let r ← object v place
  let groupBy ← texts (r.get "groupBy") place
  let pivot ← unlessFalse (r.get "pivot") (Pivot.read · "transforms.pivot")
  let select ← texts (r.get "select") place
  let compute ← object (orEmpty (r.get "compute")) place
  return {
    groupBy := groupBy
    pivot := pivot
    flatten := (r.get "flatten").truthy
    select := select
    compute := compute.filterMap fun (k, v) => (formula? v).map (k, ·) }

/-- A positive integer or float; what is no number passes only where it is not below zero. -/
def positiveTtl? : Value → Option Number
  | .number (.int n) => if 0 < n then some (.int n) else none
  | .number (.float x) => if (Number.float x).atMost (.int 0) then none else some (.float x)
  | _ => none

/-- How an answer is kept. -/
def CacheSettings.read (v : Value) (place : String) : Reading CacheSettings := do
  let r ← object v place
  match positiveTtl? (← required r "ttl" place) with
  | none => .error (.violation (.badTtl place))
  | some ttl =>
    let tags ← texts (r.get "tags") place
    return ⟨ttl, textOrNone (r.get "key"), tags, formula? (r.get "condition")⟩

/-- Limits, as they are or in a map of their own. -/
def Limits.read (v : Value) (place : String) : Reading Limits := do
  let outer ← object v place
  let r ← match outer.get? "rules" with
    | some inner => object inner (place ++ ".rules")
    | none => pure outer
  let required ← texts (r.get "requiredFields") place
  let disallowed ← texts (r.get "disallowedFields") place
  let complexity ← match (r.get "maxComplexity").toOption with
    | some v => v.toFloat.map some
    | none => pure none
  return {
    maxLimit := integer? (r.get "maxLimit")
    requiredFields := required
    disallowedFields := disallowed
    maxComplexity := complexity
    suggestions := (outer.get "suggestions").truthy }

/-- Lists of values by field. -/
def valueLists (r : Record) (key : String) : Reading (List (String × List Value)) := do
  (← object (orEmpty (r.get key)) key).mapM fun (k, v) => do
    return (k, ← list v (key ++ "." ++ k))

/-- The query without any clause. -/
def Query.empty (limit : Option Value) : Query where
  filter := []
  conditions := []
  ranges := []
  nulls := []
  notNulls := []
  isIn := []
  notIn := []
  exists_ := []
  groups := []
  groupBy := []
  having := []
  orderBy := []
  aggregates := []
  fragments := []
  limit := limit
  offset := 0
  windows := []
  framedWindows := []
  tables := []
  recursiveTables := []
  transforms := none
  cache := none
  limits := none

/-- A query from the fields of its map, given the answers for its table expressions. A limit or
offset that is no positive integer counts as absent. -/
def Query.assemble (defaultLimit : Option Value) (r : Record)
    (tables : Reading (List (TableExpr Query)))
    (recursiveTables : Reading (List (RecursiveExpr Query))) : Reading Query := do
  let positive (key : String) := (integer? (r.get key)).filter (0 < ·)
  let filter ← object (orEmpty (r.get "filter")) "filter"
  let conditions ← items r "whereRaw" Condition.read
  let ranges ← items r "whereBetween" Range.read
  let nulls ← texts (r.get "whereNull") "whereNull"
  let notNulls ← texts (r.get "whereNotNull") "whereNotNull"
  let isIn ← valueLists r "whereIn"
  let notIn ← valueLists r "whereNotIn"
  let exists_ ← items r "whereExists" Fragment.read
  let groups ← items r "whereGroups" Group.read
  let groupBy ← texts (r.get "groupBy") "groupBy"
  let having ← items r "having" HavingTerm.read
  let orderBy ← items r "orderBy" OrderTerm.read
  let aggregates ← items r "aggregates" Aggregate.read
  let fragments ← items r "rawExpressions" Fragment.read
  let windows ← items r "windowFunctions" Window.read
  let framedWindows ← items r "advancedWindows" FramedWindow.read
  let tables ← tables
  let recursiveTables ← recursiveTables
  let transforms ← unlessFalse (r.get "transforms") (Transforms.read · "transforms")
  let cache ← unlessFalse (r.get "cache") (CacheSettings.read · "cache")
  let limits ← unlessFalse (r.get "validation") (Limits.read · "validation")
  return {
    filter, conditions, ranges, nulls, notNulls, isIn, notIn, exists_, groups, groupBy, having,
    orderBy, aggregates, fragments, windows, framedWindows, tables, recursiveTables, transforms,
    cache, limits
    limit := ((positive "limit").map .int).or defaultLimit
    offset := (positive "offset").getD 0 }

mutual

/-- A query from its map; null counts as an empty map. -/
def Query.read (defaultLimit : Option Value) : Value → Reading Query
  | .map fields =>
    Query.assemble defaultLimit fields (tablesUnder fields) (recursiveTablesUnder fields)
  | .null => .ok (.empty defaultLimit)
  | v => .error (.violation (.notObject "query" v))

/-- A query inside another one. It has no limit unless it names one, and may stand in a map of its
own under the key of parameters. -/
def readNested : Value → Reading Query
  | .map fields =>
    let plain := Query.assemble none fields (tablesUnder fields) (recursiveTablesUnder fields)
    match fields with
    | [(k, v)] => if k = "params" then Query.read none v else plain
    | _ => plain
  | .null => .ok (.empty none)
  | v => .error (.violation (.notObject "query" v))

/-- The query of a table expression; a false value counts as the empty query. -/
def queryUnder : List (String × Value) → Reading Query
  | [] => .ok (.empty none)
  | (k, v) :: rest =>
    if k = "query" then if v.truthy then readNested v else .ok (.empty none) else queryUnder rest

/-- A query that has to be there. -/
def requiredQuery (key place : String) : List (String × Value) → Reading Query
  | [] => .error (.violation (.required place key))
  | (k, v) :: rest =>
    if k = key then
      if v.isNull then .error (.violation (.required place key)) else readNested v
    else requiredQuery key place rest

/-- A table expression. -/
def readTable (place : String) : Value → Reading (TableExpr Query)
  | .map fields => do
    let r : Record := fields
    let name ← required r "name" place
    let query ← queryUnder fields
    let columns ← texts (r.get "columns") place
    return ⟨name.plain, query, columns, textOrNone (r.get "table")⟩
  | v => .error (.violation (.notObject place v))

/-- A table expression that refers to itself. -/
def readRecursiveTable (place : String) : Value → Reading (RecursiveExpr Query)
  | .map fields => do
    let r : Record := fields
    let name ← required r "name" place
    let initial ← requiredQuery "initialQuery" place fields
    let recursive ← requiredQuery "recursiveQuery" place fields
    let columns ← texts (r.get "columns") place
    let recursiveColumns ← texts (r.get "recursiveColumns") place
    return {
      name := name.plain
      initial := initial
      recursive := recursive
      keepRepeats := (r.get "unionAll").truthy
      columns := columns
      table := textOrNone (r.get "table")
      recursiveTable := textOrNone (r.get "recursiveTable")
      recursiveColumns := recursiveColumns }
  | v => .error (.violation (.notObject place v))

/-- The table expressions of a query. -/
def tablesUnder : List (String × Value) → Reading (List (TableExpr Query))
  | [] => .ok []
  | (k, v) :: rest => if k = "ctes" then tableList v else tablesUnder rest

/-- The table expressions in a list. -/
def tableList : Value → Reading (List (TableExpr Query))
  | .null => .ok []
  | .list items | .tuple items => tablesAt 0 items
  | v => .error (.violation (.notList "ctes" v))

/-- Table expressions with their positions. -/
def tablesAt (i : Nat) : List Value → Reading (List (TableExpr Query))
  | [] => .ok []
  | v :: vs => do return (← readTable (indexed "ctes" i) v) :: (← tablesAt (i + 1) vs)

/-- The recursive table expressions of a query. -/
def recursiveTablesUnder : List (String × Value) → Reading (List (RecursiveExpr Query))
  | [] => .ok []
  | (k, v) :: rest =>
    if k = "recursiveCtes" then recursiveTableList v else recursiveTablesUnder rest

/-- The recursive table expressions in a list. -/
def recursiveTableList : Value → Reading (List (RecursiveExpr Query))
  | .null => .ok []
  | .list items | .tuple items => recursiveTablesAt 0 items
  | v => .error (.violation (.notList "recursiveCtes" v))

/-- Recursive table expressions with their positions. -/
def recursiveTablesAt (i : Nat) : List Value → Reading (List (RecursiveExpr Query))
  | [] => .ok []
  | v :: vs => do
    return (← readRecursiveTable (indexed "recursiveCtes" i) v) ::
      (← recursiveTablesAt (i + 1) vs)

end

/-- A table expression on its own. -/
def TableExpr.read (v : Value) (place : String) : Reading (TableExpr Query) := readTable place v

/-- A recursive table expression on its own. -/
def RecursiveExpr.read (v : Value) (place : String) : Reading (RecursiveExpr Query) :=
  readRecursiveTable place v

end RowGate
