import RowGate.Value.Text
import RowGate.Value.Formula
import RowGate.Query.Basic
/-!
What happens to the rows of an answer, in this order: columns are computed, rows are grouped, values
of a column become columns, maps are flattened, fields are selected.
-/
namespace RowGate

namespace Rows

/-! Rows without maps inside: each value that is no map, and each empty map, gets a column named for
the keys on its path. -/

/-- The path of a key below another; nothing stands before a key below the empty path. -/
def below (path key : String) : String := if path.isEmpty then key else path ++ "_" ++ key

mutual

/-- Puts the leaves of a value at a path into a row. -/
def putLeaves (into : Record) (path : String) : Value → Record
  | .map (f :: fs) => putLeavesUnder into path (f :: fs)
  | v => into.put path v

/-- Puts the leaves of the fields of a map into a row, in order. -/
def putLeavesUnder (into : Record) (path : String) : List (String × Value) → Record
  | [] => into
  | (k, v) :: rest => putLeavesUnder (putLeaves into (below path k) v) path rest

end

/-- A row without maps inside. -/
def flattenRow (row : Record) : Record := row.foldl (fun into (k, v) => putLeaves into k v) []

/-- Rows without maps inside. -/
def flatten (rows : List Record) : List Record := rows.map flattenRow

/-! Rows gathered by a key, one after another. What is gathered is kept in the order in which the
keys come up. -/

section

variable {α β κ : Type} [BEq κ]

/-- Changes what is under a key. Under a key that is new stands what a change makes of the start. -/
def fileUnder (key : κ) (start : β) (change : β → β) : List (κ × β) → List (κ × β)
  | [] => [(key, change start)]
  | (k, b) :: rest =>
    if k == key then (k, change b) :: rest else (k, b) :: fileUnder key start change rest

/-- Rows gathered by a key. What is under a key starts from its first row, and each row adds to it,
the first included. -/
def gather (key : α → κ) (start : α → β) (add : β → α → β) (rows : List α) : List (κ × β) :=
  rows.foldl (fun filed r => fileUnder (key r) (start r) (add · r) filed) []

end

/-- The name of the column that counts the rows of a class. -/
def countColumn : String := "_count"

/-- The texts of the values of some fields; a missing field counts as null. -/
def textsOf (fields : List String) (row : Record) : List String :=
  fields.map fun f => (row.get f).shown

/-- Rows that agree in some fields collapsed to the first of them, with their number. -/
def group (fields : List String) (rows : List Record) : List Record :=
  (gather (textsOf fields) (fun r => (r, 0)) (fun (r, n) _ => (r, n + 1)) rows).map
    fun (_, r, n) => r.put countColumn (.int (n : Nat))

/-! Values of one column turned into columns: rows that agree in all other fields collapse into one,
and each new column holds an aggregate over the rows with its value. -/

/-- The sum of values, from zero. -/
def total (vs : List Value) : Except Fault Value := vs.foldlM (fun sum v => sum.add v) (.int 0)

/-- The mean of values, of which there is at least one. -/
def mean (vs : List Value) : Except Fault Value := do
  match (← total vs).number? with
  | some sum => return .number (← Number.lift (sum.divNat vs.length))
  | none => .error .wrongType

/-- The aggregate of values. Nulls count, but take no part in anything else; nothing but nulls has
no aggregate. -/
def combine (type : String) (vs : List Value) : Except Fault Value :=
  if type = "count" then .ok (.int vs.length)
  else
    match vs.filter (!·.isNull) with
    | [] => .ok .null
    | v :: rest =>
      match type with
      | "sum" => total (v :: rest)
      | "avg" => mean (v :: rest)
      | "min" => leastOf v rest
      | "max" => greatestOf v rest
      | other => .error (.unsupported (.aggregateType (.text other)))

/-- The column that a row belongs to. -/
def columnOf (p : Pivot) (row : Record) : String := (row.get p.column).plain

/-- Whether a row takes part: where columns are listed, it belongs to one of them. -/
def isWanted (p : Pivot) (row : Record) : Bool :=
  p.values.isEmpty || p.values.contains (columnOf p row)

/-- The fields of a row that stay. -/
def rest (p : Pivot) (row : Record) : Record :=
  row.filter fun (k, _) => k != p.column && k != p.aggregate.field

/-- Fields and the texts of their values, ordered by field. -/
def restKey (p : Pivot) (row : Record) : List (String × String) :=
  sortedFields ((rest p row).map fun (k, v) => (k, v.shown))
where
  /-- Fields in ascending order of their names. -/
  sortedFields (fields : List (String × String)) : List (String × String) :=
    fields.mergeSort fun a b => a.1 ≤ b.1

/-- The values to aggregate by column, with the value of one more row. -/
def addCell (p : Pivot) (cells : List (String × List Value)) (row : Record) :
    List (String × List Value) :=
  fileUnder (columnOf p row) [] (· ++ [row.get p.aggregate.field]) cells

/-- A class as one row: the fields that stay, the listed columns, then the columns that have rows. -/
def pivotRow (p : Pivot) (base : Record) (cells : List (String × List Value)) :
    Except Fault Record := do
  let found ← cells.mapM fun (c, vs) => do return (c, ← combine p.aggregate.type vs)
  return Record.overlay base (p.values.map (fun c => (c, Value.null)) ++ found)

/-- The values of a column turned into columns. -/
def pivot (p : Pivot) (rows : List Record) : Except Fault (List Record) :=
  (gather (restKey p) (fun r => (rest p r, [])) (fun (base, cells) r => (base, addCell p cells r))
    (rows.filter (isWanted p))).mapM fun (_, base, cells) => pivotRow p base cells

/-! Columns computed and selected. -/

/-- A row with computed columns. Every formula sees the row as it was. -/
def computeRow (columns : List (String × Formula)) (row : Record) : Except Fault Record :=
  columns.foldlM (fun out (name, f) => do return out.put name (← f.value row)) row

/-- Rows with computed columns. -/
def compute (columns : List (String × Formula)) (rows : List Record) :
    Except Fault (List Record) :=
  rows.mapM (computeRow columns)

/-- Some fields of a row, in the order of their names; fields that it lacks are left out. -/
def selectRow (fields : List String) (row : Record) : Record :=
  fields.foldl (fun out f =>
    match row.get? f with
    | some v => out.put f v
    | none => out) []

/-- Some fields of rows. -/
def select (fields : List String) (rows : List Record) : List Record := rows.map (selectRow fields)

end Rows

/-- The rows of an answer. Parts without entries change nothing. -/
def Transforms.apply (t : Transforms) (rows : List Record) : Except Fault (List Record) := do
  let rows ← Rows.compute t.compute rows
  let rows := if t.groupBy.isEmpty then rows else Rows.group t.groupBy rows
  let rows ← match t.pivot with
    | some p => Rows.pivot p rows
    | none => pure rows
  let rows := if t.flatten then Rows.flatten rows else rows
  return if t.select.isEmpty then rows else Rows.select t.select rows

end RowGate
