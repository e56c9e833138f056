import RowGate.Query.Writer
import RowGate.Proofs.Query.Reading
import RowGate.Proofs.Value.Records
/-!
What stands under the keys of the maps that queries are written as. Main statement: a clause stands
under its own key, and nothing stands there for a clause that is empty.
-/
namespace RowGate

open Write

namespace Record

variable {key name : String} {v : Value}

@[simp] theorem get?_entry {present : Bool} :
    Record.get? (entry present key v) name =
      if key = name then if present then some v else none else none := by
  cases present <;> simp [entry, get?_cons, get?_nil]

@[simp] theorem get?_option {α : Type} {f : α → Value} {o : Option α} :
    Record.get? (o.map fun a => (key, f a)).toList name = if key = name then o.map f else none := by
  cases o <;> simp [get?_cons, get?_nil]

@[simp] theorem get?_value {o : Option Value} :
    Record.get? (o.map fun a => (key, a)).toList name = if key = name then o else none := by
  cases o <;> simp [get?_cons, get?_nil]

@[simp] theorem get?_textField {o : Option String} :
    Record.get? (textField key o) name = if key = name then o.map .text else none := get?_option

/-- A list as it is written: nothing stands for a list without items. -/
def listOf {α : Type} (xs : List α) (f : α → Value) : Option Value :=
  if xs.isEmpty then none else some (.list (xs.map f))

@[simp] theorem listOf_nil {α : Type} (f : α → Value) : listOf [] f = none := rfl

@[simp] theorem get?_listField {α : Type} {xs : List α} {f : α → Value} :
    Record.get? (listField key xs f) name = if key = name then listOf xs f else none := by
  unfold listField listOf
  rw [get?_entry]
  cases xs <;> simp

@[simp] theorem get?_textsField {xs : List String} :
    Record.get? (textsField key xs) name = if key = name then listOf xs .text else none :=
  get?_listField

end Record

/-- A record has the clauses and settings of a query as they are written, with the maps of its table
expressions. -/
structure Query.WrittenIn (ts rs : List Value) (r : Record) (q : Query) : Prop where
  filter : r.get? "filter" = if !q.filter.isEmpty then some (.map q.filter) else none
  conditions : r.get? "whereRaw" = Record.listOf q.conditions Condition.toValue
  ranges : r.get? "whereBetween" = Record.listOf q.ranges Range.toValue
  nulls : r.get? "whereNull" = Record.listOf q.nulls .text
  notNulls : r.get? "whereNotNull" = Record.listOf q.notNulls .text
  isIn : r.get? "whereIn" = if !q.isIn.isEmpty then some (valueListsValue q.isIn) else none
  notIn : r.get? "whereNotIn" = if !q.notIn.isEmpty then some (valueListsValue q.notIn) else none
  exists_ : r.get? "whereExists" = Record.listOf q.exists_ Fragment.toValue
  groups : r.get? "whereGroups" = Record.listOf q.groups Group.toValue
  orderBy : r.get? "orderBy" = Record.listOf q.orderBy OrderTerm.toValue
  groupBy : r.get? "groupBy" = Record.listOf q.groupBy .text
  having : r.get? "having" = Record.listOf q.having HavingTerm.toValue
  aggregates : r.get? "aggregates" = Record.listOf q.aggregates Aggregate.toValue
  fragments : r.get? "rawExpressions" = Record.listOf q.fragments Fragment.toValue
  limit : r.get? "limit" = q.limit
  offset : r.get? "offset" = some (.int q.offset)
  windows : r.get? "windowFunctions" = Record.listOf q.windows Window.toValue
  tables : r.get? "ctes" = Record.listOf ts id
  recursiveTables : r.get? "recursiveCtes" = Record.listOf rs id
  framedWindows : r.get? "advancedWindows" = Record.listOf q.framedWindows FramedWindow.toValue
  transforms : r.get? "transforms" = q.transforms.map Transforms.toValue
  cache : r.get? "cache" = q.cache.map CacheSettings.toValue
  limits : r.get? "validation" = q.limits.map Limits.toValue

/-- A query names no parameters of its own. -/
theorem Query.get?_params (q : Query) (ts rs : List Value) :
    (q.fieldsWith ts rs).get? "params" = none := by
  unfold fieldsWith
  simp only [Record.get?_append, Record.get?_entry, Record.get?_listField, Record.get?_textsField,
    Record.get?_cons, Record.get?_nil, Record.get?_option, Record.get?_value, String.reduceEq,
    if_false, Option.or_none]

theorem Query.writtenIn_fieldsWith (q : Query) (ts rs : List Value) :
    q.WrittenIn ts rs (q.fieldsWith ts rs) := by
  constructor
  all_goals
    unfold fieldsWith
    simp only [Record.get?_append, Record.get?_entry, Record.get?_listField, Record.get?_textsField,
      Record.get?_cons, Record.get?_nil, Record.get?_option, Record.get?_value, String.reduceEq,
      if_false, if_true, Option.or_none, Option.none_or]

theorem Query.toValue_eq (q : Query) : q.toValue =
    .map (q.fieldsWith (tablesToValues q.tables) (recursiveTablesToValues q.recursiveTables)) := by
  cases q
  rfl

theorem tablesToValues_eq (ts : List (TableExpr Query)) :
    tablesToValues ts = ts.map TableExpr.toValue := by
  induction ts with
  | nil => rfl
  | cons t ts ih =>
    rw [List.map_cons, ← ih]
    rfl

theorem recursiveTablesToValues_eq (ts : List (RecursiveExpr Query)) :
    recursiveTablesToValues ts = ts.map RecursiveExpr.toValue := by
  induction ts with
  | nil => rfl
  | cons t ts ih =>
    rw [List.map_cons, ← ih]
    rfl

/-- The map of a query is true: it has an offset. -/
theorem Query.truthy_toValue (q : Query) : q.toValue.truthy = true := by
  have hoffset := (q.writtenIn_fieldsWith (tablesToValues q.tables)
    (recursiveTablesToValues q.recursiveTables)).offset
  rw [toValue_eq]
  cases hfields : q.fieldsWith (tablesToValues q.tables)
    (recursiveTablesToValues q.recursiveTables) with
  | nil =>
    rw [hfields] at hoffset
    cases hoffset
  | cons f fs => rfl

/-- The map of a query is read as it is inside another query. -/
theorem Query.readNested_toValue (q : Query) : readNested q.toValue = Query.read none q.toValue := by
  rw [toValue_eq]
  exact readNested_eq (Record.get?_eq_none.mp (q.get?_params _ _))

end RowGate
