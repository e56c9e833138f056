import RowGate.Value.Basic
/-!
Queries as requests describe them: clauses by kind, nested queries for table expressions, and
settings for what happens before and after the query runs. Names and operators are kept as they
were given; planning checks them.
-/
namespace RowGate

/-- How a clause is joined to the one before it. -/
inductive Connective where
  | and
  | or
deriving DecidableEq, Repr

/-- An ordering term. -/
structure OrderTerm where
  field : String
  direction : String
  nulls : Option String
deriving DecidableEq, Repr

/-- A comparison of a field with a value; `joiner` joins it to the clause before it. -/
structure Condition where
  field : String
  operator : String
  value : Value
  joiner : Option Connective

/-- A field between two bounds. -/
structure Range where
  field : String
  low : Value
  high : Value

/-- A piece of raw text with a value for each question mark. -/
structure Fragment where
  sql : String
  bindings : List Value

/-- A member of a condition group: a condition, or a group with a joiner of its own. -/
inductive GroupMember where
  | condition (c : Condition)
  | group (connective : Connective) (members : List GroupMember) (joiner : Option Connective)

/-- Conditions and groups in parentheses. `connective` joins the members without a joiner. -/
structure Group where
  connective : Connective
  members : List GroupMember
  joiner : Option Connective

/-- A comparison after grouping. -/
structure HavingTerm where
  field : String
  operator : String
  value : Value

/-- An aggregate column. -/
structure Aggregate where
  type : String
  field : String
  label : Option String
deriving DecidableEq, Repr

/-- The name of an aggregate's column: a name of its own that is not empty, or its type and field. -/
def Aggregate.columnName (a : Aggregate) : String :=
  match a.label with
  | some name => if name.isEmpty then a.type ++ "_" ++ a.field else name
  | none => a.type ++ "_" ++ a.field

/-- A window column with its frame as text. -/
structure Window where
  type : String
  label : String
  field : Option String
  partitionBy : List String
  orderBy : List OrderTerm
  frame : Option String

/-- The end of a frame: a count of rows, or a name. -/
inductive FrameBound where
  | offset (n : Int)
  | named (name : String)
deriving DecidableEq, Repr

/-- A frame by its ends. -/
structure Frame where
  type : String
  start : FrameBound
  stop : Option FrameBound
deriving DecidableEq, Repr

/-- A window column with a frame by its ends, over the rows that meet the conditions. -/
structure FramedWindow where
  type : String
  label : String
  field : Option String
  partitionBy : List String
  orderBy : List OrderTerm
  frame : Option Frame
  conditions : List Condition

/-- A named table expression. -/
structure TableExpr (Q : Type) where
  name : String
  query : Q
  columns : List String
  /-- The source of the query; the outer query's source if there is none. -/
  table : Option String

/-- A named table expression that refers to itself: the rows of `initial`, then those of
`recursive`. -/
structure RecursiveExpr (Q : Type) where
  name : String
  initial : Q
  recursive : Q
  /-- Whether repeated rows stay. -/
  keepRepeats : Bool
  columns : List String
  table : Option String
  /-- The source of the recursive part; the expression itself if there is none. -/
  recursiveTable : Option String
  /-- The columns of the recursive part, which may be expressions; `columns` if there are none. -/
  recursiveColumns : List String

/-- Values of one column turned into columns. -/
structure Pivot where
  column : String
  values : List String
  aggregate : Aggregate

/-- What happens to the rows of an answer. -/
structure Transforms where
  groupBy : List String
  pivot : Option Pivot
  flatten : Bool
  select : List String
  compute : List (String × Formula)

/-- How long and under which names an answer is kept. -/
structure CacheSettings where
  ttl : Number
  key : Option String
  tags : List String
  /-- Decides from the query whether the answer is kept. -/
  condition : Option Formula

/-- Limits that a query has to respect. -/
structure Limits where
  maxLimit : Option Int
  requiredFields : List String
  disallowedFields : List String
  maxComplexity : Option Float
  suggestions : Bool

/-- A query. -/
structure Query where
  filter : Record
  conditions : List Condition
  ranges : List Range
  nulls : List String
  notNulls : List String
  isIn : List (String × List Value)
  notIn : List (String × List Value)
  exists_ : List Fragment
  groups : List Group
  groupBy : List String
  having : List HavingTerm
  orderBy : List OrderTerm
  aggregates : List Aggregate
  fragments : List Fragment
  /-- A positive count, or what stands in for it. -/
  limit : Option Value
  offset : Int
  windows : List Window
  framedWindows : List FramedWindow
  tables : List (TableExpr Query)
  recursiveTables : List (RecursiveExpr Query)
  transforms : Option Transforms
  cache : Option CacheSettings
  limits : Option Limits

end RowGate
