import RowGate.Sql.Criterion
/-!
Select statements: what a statement selects, where its rows come from, and the named table
expressions that it may refer to. A table expression is known by a number, because two of them may
share a name.
-/
namespace RowGate.Sql

/-- Where rows come from: a base table, or a table expression by its number. -/
inductive Source where
  | table (schema : Option String) (name : String)
  | common (id : Nat) (name : String)
deriving DecidableEq, Repr

/-- An ordering term. -/
structure OrderKey where
  column : Column
  descending : Bool
  nullsFirst : Option Bool
deriving DecidableEq, Repr

/-- A frame by its ends, in rows from the current one; an end that is absent is unbounded. -/
structure FrameEnds where
  unit : String
  start : Option Int
  stop : Option Int
deriving DecidableEq, Repr

/-- A window column: a function of a column over a window of the rows that meet a condition. -/
structure Over where
  function : String
  argument : Option Column
  criterion : Option Criterion
  partition : List Column
  order : List OrderKey
  frame : Option FrameEnds

/-- A selected column. -/
inductive Projection where
  | column (c : Column)
  | aggregate (function : String) (c : Column) (label : String)
  /-- A window column as text. -/
  | window (text label : String)
  | framed (w : Over) (label : String)

/-- The label of a selected column, if it has one. -/
def Projection.label? : Projection → Option String
  | .column _ => none
  | .aggregate _ _ label | .window _ label | .framed _ label => some label

/-- A select statement without its table expressions. -/
structure Body where
  projection : List Projection
  source : Source
  criteria : List Criterion
  groupBy : List Column
  having : List Criterion
  orderBy : List OrderKey
  limit : Option Int
  offset : Option Int

mutual

/-- A select statement with the table expressions declared for it. -/
inductive Select where
  | mk (tables : List CommonTable) (body : Body)

/-- A table expression. The recursive part of a recursive one refers to it by its number. -/
inductive CommonTable where
  | plain (id : Nat) (name : String) (query : Select)
  | recursive (id : Nat) (name : String) (initial recursive : Select) (keepRepeats : Bool)

end

namespace CommonTable

/-- The number of a table expression. -/
def id : CommonTable → Nat
  | .plain id .. | .recursive id .. => id

/-- The name of a table expression. -/
def name : CommonTable → String
  | .plain _ name _ | .recursive _ name .. => name

/-- A table expression as a source. -/
def source (t : CommonTable) : Source := .common t.id t.name

end CommonTable

namespace Select

/-- The table expressions declared for a statement. -/
def tables : Select → List CommonTable
  | .mk tables _ => tables

/-- A statement without its table expressions. -/
def body : Select → Body
  | .mk _ body => body

/-- Whether a statement needs parentheses beside another one. -/
def needsParentheses (s : Select) : Bool :=
  s.body.limit.isSome || s.body.offset.isSome || !s.body.orderBy.isEmpty

end Select

/-- Declared tables with the names of their columns. -/
abbrev Catalog := List (String × List String)

/-- The columns of a declared table behind those before them: each has a name, and no two have the
same. -/
def declareColumns (before : List String) : List String → Except Fault (List String)
  | [] => .ok before
  | c :: rest =>
    if c.isEmpty then .error .badArgument
    else if before.contains c then .error .duplicateColumn
    else declareColumns (before ++ [c]) rest

/-- Tables as a catalogue. -/
def Catalog.of (tables : List (String × List String)) : Except Fault Catalog :=
  tables.mapM fun (path, columns) => do return (path, ← declareColumns [] columns)

end RowGate.Sql
