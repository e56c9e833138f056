import RowGate.Text.Basic
import RowGate.Query.Basic
/-!
Queries written back as the maps of a request. Parts that are empty are left out, except the
offset.
-/
namespace RowGate

namespace Write

/-- A field, unless it is to be left out. -/
def entry (present : Bool) (key : String) (v : Value) : Record := if present then [(key, v)] else []

/-- A field with a list, unless the list is empty. -/
def listField {α : Type} (key : String) (xs : List α) (toValue : α → Value) : Record :=
  entry (!xs.isEmpty) key (.list (xs.map toValue))

/-- A field with texts, unless there are none. -/
def textsField (key : String) (xs : List String) : Record := listField key xs .text

/-- A field with a text that may be absent. -/
def textField (key : String) (s : Option String) : Record := (s.map fun s => (key, .text s)).toList

end Write

open Write

/-- The name of a connective. -/
def Connective.name : Connective → String
  | .and => "AND"
  | .or => "OR"

/-- An ordering term as a map. -/
def OrderTerm.toValue (o : OrderTerm) : Value :=
  .map ([("field", .text o.field), ("direction", .text o.direction)] ++ textField "nulls" o.nulls)

/-- A condition as a map. -/
def Condition.toValue (c : Condition) : Value :=
  .map ([("field", .text c.field), ("operator", .text c.operator), ("value", c.value)] ++
    textField "boolean" (c.joiner.map (·.name)))

/-- A range as a map. -/
def Range.toValue (r : Range) : Value :=
  .map [("field", .text r.field), ("operator", .text "between"),
    ("value", .list [r.low, r.high])]

/-- A piece of raw text as a map. -/
def Fragment.toValue (f : Fragment) : Value :=
  .map [("sql", .text f.sql), ("bindings", .list f.bindings)]

/-- A group given by its parts as a map. -/
def groupValue (connective : Connective) (members : List Value) (joiner : Option Connective) :
    Value :=
  .map ([("type", .text connective.name), ("clauses", .list members)] ++
    textField "boolean" (joiner.map (·.name)))

mutual

/-- A member of a group as a map. -/
def GroupMember.toValue : GroupMember → Value
  | .condition c => c.toValue
  | .group connective members joiner => groupValue connective (membersToValues members) joiner

/-- The members of a group as maps. -/
def membersToValues : List GroupMember → List Value
  | [] => []
  | m :: ms => m.toValue :: membersToValues ms

end

/-- A group as a map. -/
def Group.toValue (g : Group) : Value := groupValue g.connective (membersToValues g.members) g.joiner

/-- A comparison after grouping as a map. -/
def HavingTerm.toValue (h : HavingTerm) : Value :=
  .map [("field", .text h.field), ("operator", .text h.operator), ("value", h.value)]

/-- An aggregate column as a map. -/
def Aggregate.toValue (a : Aggregate) : Value :=
  .map ([("type", .text a.type), ("field", .text a.field)] ++ textField "alias" a.label)

/-- A window column as a map. -/
def Window.toValue (w : Window) : Value :=
  .map ([("type", .text w.type), ("alias", .text w.label)] ++ textField "field" w.field ++
    textsField "partitionBy" w.partitionBy ++ listField "orderBy" w.orderBy OrderTerm.toValue ++
    textField "frameClause" w.frame)

/-- The end of a frame as a value. -/
def FrameBound.toValue : FrameBound → Value
  | .offset n => .int n
  | .named s => .text s

/-- A frame as a map. -/
def Frame.toValue (f : Frame) : Value :=
  .map ([("type", .text f.type), ("start", f.start.toValue)] ++
    (f.stop.map fun b => ("end", b.toValue)).toList)

/-- A window column with a frame by its ends as a map; what describes the window stands in a map
of its own. -/
def FramedWindow.toValue (w : FramedWindow) : Value :=
  let clause := textsField "partitionBy" w.partitionBy ++
    listField "orderBy" w.orderBy OrderTerm.toValue ++
    (w.frame.map fun f => ("frame", f.toValue)).toList
  .map ([("type", .text w.type), ("alias", .text w.label)] ++ textField "field" w.field ++
    entry (!clause.isEmpty) "over" (.map clause) ++
    listField "filter" w.conditions Condition.toValue)

/-- A pivot as a map. -/
def Pivot.toValue (p : Pivot) : Value :=
  .map [("column", .text p.column), ("values", .texts p.values),
    ("aggregate", p.aggregate.toValue)]

/-- What happens to the rows of an answer as a map; of computed columns only the names. -/
def Transforms.toValue (t : Transforms) : Value :=
  .map (textsField "groupBy" t.groupBy ++ (t.pivot.map fun p => ("pivot", p.toValue)).toList ++
    entry t.flatten "flatten" (.bool true) ++ textsField "select" t.select ++
    textsField "compute" (Text.sorted (t.compute.map (·.1))))

/-- How an answer is kept as a map. -/
def CacheSettings.toValue (c : CacheSettings) : Value :=
  .map ([("ttl", .number c.ttl)] ++ textField "key" c.key ++ textsField "tags" c.tags)

/-- Limits as a map. -/
def Limits.toValue (l : Limits) : Value :=
  let rules := (l.maxLimit.map fun n => ("maxLimit", .int n)).toList ++
    textsField "requiredFields" l.requiredFields ++
    textsField "disallowedFields" l.disallowedFields ++
    (l.maxComplexity.map fun x => ("maxComplexity", .float x)).toList
  .map [("rules", .map rules), ("suggestions", .bool l.suggestions)]

/-- Lists of values by field as a map. -/
def valueListsValue (ls : List (String × List Value)) : Value :=
  .map (ls.map fun (k, vs) => (k, .list vs))

/-- A query's fields, given the maps of its table expressions. -/
def Query.fieldsWith (q : Query) (tables recursiveTables : List Value) : Record :=
  entry (!q.filter.isEmpty) "filter" (.map q.filter) ++
  listField "whereRaw" q.conditions Condition.toValue ++
  listField "whereBetween" q.ranges Range.toValue ++
  textsField "whereNull" q.nulls ++
  textsField "whereNotNull" q.notNulls ++
  entry (!q.isIn.isEmpty) "whereIn" (valueListsValue q.isIn) ++
  entry (!q.notIn.isEmpty) "whereNotIn" (valueListsValue q.notIn) ++
  listField "whereExists" q.exists_ Fragment.toValue ++
  listField "whereGroups" q.groups Group.toValue ++
  listField "orderBy" q.orderBy OrderTerm.toValue ++
  textsField "groupBy" q.groupBy ++
  listField "having" q.having HavingTerm.toValue ++
  listField "aggregates" q.aggregates Aggregate.toValue ++
  listField "rawExpressions" q.fragments Fragment.toValue ++
  (q.limit.map fun n => ("limit", n)).toList ++
  [("offset", .int q.offset)] ++
  listField "windowFunctions" q.windows Window.toValue ++
  listField "ctes" tables id ++
  listField "recursiveCtes" recursiveTables id ++
  listField "advancedWindows" q.framedWindows FramedWindow.toValue ++
  (q.transforms.map fun t => ("transforms", t.toValue)).toList ++
  (q.cache.map fun c => ("cache", c.toValue)).toList ++
  (q.limits.map fun l => ("validation", l.toValue)).toList

/-- A table expression as a map, given the map of its query. -/
def TableExpr.valueWith {Q : Type} (t : TableExpr Q) (query : Value) : Value :=
  .map ([("name", .text t.name), ("query", query)] ++ textsField "columns" t.columns ++
    textField "table" t.table)

/-- A recursive table expression as a map, given the maps of its two queries. -/
def RecursiveExpr.valueWith {Q : Type} (t : RecursiveExpr Q) (initial recursive : Value) : Value :=
  .map ([("name", .text t.name), ("initialQuery", initial), ("recursiveQuery", recursive),
      ("unionAll", .bool t.keepRepeats)] ++
    textsField "columns" t.columns ++ textField "table" t.table ++
    textField "recursiveTable" t.recursiveTable ++
    textsField "recursiveColumns" t.recursiveColumns)

mutual

/-- A query as a map. -/
def Query.toValue (q : Query) : Value :=
  match q with
  | {tables, recursiveTables, ..} =>
    .map (q.fieldsWith (tablesToValues tables) (recursiveTablesToValues recursiveTables))

/-- Table expressions as maps. -/
def tablesToValues : List (TableExpr Query) → List Value
  | [] => []
  | {name, query, columns, table} :: ts =>
    TableExpr.valueWith ⟨name, (), columns, table⟩ query.toValue :: tablesToValues ts

/-- Recursive table expressions as maps. -/
def recursiveTablesToValues : List (RecursiveExpr Query) → List Value
  | [] => []
  | {name, initial, recursive, keepRepeats, columns, table, recursiveTable, recursiveColumns}
      :: ts =>
    RecursiveExpr.valueWith
        ⟨name, (), (), keepRepeats, columns, table, recursiveTable, recursiveColumns⟩
        initial.toValue recursive.toValue ::
      recursiveTablesToValues ts

end

/-- A table expression as a map. -/
def TableExpr.toValue (t : TableExpr Query) : Value := t.valueWith t.query.toValue

/-- A recursive table expression as a map. -/
def RecursiveExpr.toValue (t : RecursiveExpr Query) : Value :=
  t.valueWith t.initial.toValue t.recursive.toValue

end RowGate
