import RowGate.Query.Writer
import RowGate.Fault
/-!
Operations: single applications of a clause to a statement. Each belongs to a stage, and plans
never go back to an earlier stage.
-/
namespace RowGate

/-- One application of a clause. -/
inductive Operation where
  | table (name : String) (operations : List Operation) (columns : List String)
      (source : Option String)
  | recursiveTable (name : String) (initial recursive : List Operation) (keepRepeats : Bool)
      (columns : List String) (source recursiveSource : Option String)
      (recursiveColumns : List String)
  | window (label fragment : String)
  | framedWindow (w : FramedWindow)
  | equals (values : Record)
  | fragment (sql : String) (bindings : List Value)
  | aggregate (type field label : String)
  | condition (field operator : String) (value : Value)
  | range (field : String) (low high : Value)
  | isNull (field : String)
  | notNull (field : String)
  | isIn (field : String) (values : List Value)
  | notIn (field : String) (values : List Value)
  | exists_ (sql : String) (bindings : List Value)
  | group (g : Group)
  | groupBy (fields : List String)
  | having (field operator : String) (value : Value)
  | orderBy (field direction : String) (nulls : Option String)
  | limit (count : Value)
  | offset (count : Int)

/-- The stages in which clauses are applied. -/
inductive Stage where
  | ctes | recursiveCtes | windows | advancedWindows | filter | rawExpressions | aggregates
  | whereRaw | whereBetween | whereNull | whereIn | whereExists | whereGroups | groupBy | having
  | orderBy | limit | offset
deriving DecidableEq, Repr

namespace Stage

/-- The stages in their order. -/
def all : List Stage :=
  [.ctes, .recursiveCtes, .windows, .advancedWindows, .filter, .rawExpressions, .aggregates,
    .whereRaw, .whereBetween, .whereNull, .whereIn, .whereExists, .whereGroups, .groupBy, .having,
    .orderBy, .limit, .offset]

/-- The position of a stage. -/
def position (s : Stage) : Nat := all.idxOf s

/-- The name of a stage. -/
def name : Stage → String
  | .ctes => "ctes"
  | .recursiveCtes => "recursive_ctes"
  | .windows => "windows"
  | .advancedWindows => "advanced_windows"
  | .filter => "filter"
  | .rawExpressions => "raw_expressions"
  | .aggregates => "aggregates"
  | .whereRaw => "where_raw"
  | .whereBetween => "where_between"
  | .whereNull => "where_null"
  | .whereIn => "where_in"
  | .whereExists => "where_exists"
  | .whereGroups => "where_groups"
  | .groupBy => "group_by"
  | .having => "having"
  | .orderBy => "order_by"
  | .limit => "limit"
  | .offset => "offset"

/-- The stage of the operations with a name. -/
def ofKind? : String → Option Stage
  | "with_cte" => some .ctes
  | "with_recursive_cte" => some .recursiveCtes
  | "select_window" => some .windows
  | "select_advanced_window" => some .advancedWindows
  | "where_equals" => some .filter
  | "where_raw" => some .rawExpressions
  | "aggregate" => some .aggregates
  | "where" => some .whereRaw
  | "where_between" => some .whereBetween
  | "where_null" | "where_not_null" => some .whereNull
  | "where_in" | "where_not_in" => some .whereIn
  | "where_exists" => some .whereExists
  | "where_group" => some .whereGroups
  | "group_by" => some .groupBy
  | "having" => some .having
  | "order_by" => some .orderBy
  | "limit" => some .limit
  | "offset" => some .offset
  | _ => none

/-- The stage of the operations with a name, or the failure that names an unknown one. -/
def ofKind (kind : String) : Except Fault Stage :=
  match ofKind? kind with
  | some s => .ok s
  | none => .error (.badValue (.operationKind kind))

end Stage

/-- The name of an operation. -/
def Operation.kind : Operation → String
  | .table .. => "with_cte"
  | .recursiveTable .. => "with_recursive_cte"
  | .window .. => "select_window"
  | .framedWindow _ => "select_advanced_window"
  | .equals _ => "where_equals"
  | .fragment .. => "where_raw"
  | .aggregate .. => "aggregate"
  | .condition .. => "where"
  | .range .. => "where_between"
  | .isNull _ => "where_null"
  | .notNull _ => "where_not_null"
  | .isIn .. => "where_in"
  | .notIn .. => "where_not_in"
  | .exists_ .. => "where_exists"
  | .group _ => "where_group"
  | .groupBy _ => "group_by"
  | .having .. => "having"
  | .orderBy .. => "order_by"
  | .limit _ => "limit"
  | .offset _ => "offset"

/-- The stage of an operation. -/
def Operation.stage : Operation → Stage
  | .table .. => .ctes
  | .recursiveTable .. => .recursiveCtes
  | .window .. => .windows
  | .framedWindow _ => .advancedWindows
  | .equals _ => .filter
  | .fragment .. => .rawExpressions
  | .aggregate .. => .aggregates
  | .condition .. => .whereRaw
  | .range .. => .whereBetween
  | .isNull _ | .notNull _ => .whereNull
  | .isIn .. | .notIn .. => .whereIn
  | .exists_ .. => .whereExists
  | .group _ => .whereGroups
  | .groupBy _ => .groupBy
  | .having .. => .having
  | .orderBy .. => .orderBy
  | .limit _ => .limit
  | .offset _ => .offset

/-- The name of an operation names its stage. -/
theorem Operation.ofKind?_kind (o : Operation) : Stage.ofKind? o.kind = some o.stage := by
  cases o <;> rfl

end RowGate
