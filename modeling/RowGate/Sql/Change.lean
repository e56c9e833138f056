import RowGate.Sql.Draft
import RowGate.Sql.Writer
/-!
Statements on single tables: the rows under a key are fetched, updated or deleted, and records are
inserted. A key is a column with the value that it has to hold.
-/
namespace RowGate.Sql

/-- A base table, with its columns if it is declared. -/
structure Table where
  schema : Option String
  name : String
  columns : Option (List String)
deriving DecidableEq, Repr

/-- A column with the value that marks rows. -/
structure RowKey where
  column : String
  value : Value

namespace Table

/-- The table of a path. -/
def ofPath (catalog : Catalog) (path : String) : Table :=
  ⟨(splitPath path).1, (splitPath path).2, catalog.lookup path⟩

/-- A table as a source of rows. -/
def source (t : Table) : Source := .table t.schema t.name

/-- A column of a table. -/
def column (t : Table) (name : String) : Column := .inTable t.schema t.name name

/-- A key for the rows of a table. A declared table needs to have the column. -/
def key (t : Table) (column : String) (value : Value) : Except Fault RowKey :=
  match t.columns with
  | none => .ok ⟨column, value⟩
  | some cs => if cs.contains column then .ok ⟨column, value⟩ else .error (.missingKey (.text column))

/-- The test of a key. -/
def keyTest (t : Table) (k : RowKey) : Test := .equality (t.column k.column) true k.value

/-- The table as text. -/
def text (t : Table) : String := Writing.table t.schema t.name

end Table

/-- The rows under a key: one column of them, or all columns. -/
structure Fetch where
  table : Table
  only : Option String
  key : RowKey

/-- The statement that fetches rows. -/
def Fetch.select (f : Fetch) : Select :=
  .mk []
    { projection := [.column ((f.only.map f.table.column).getD (.verbatim "*"))]
      source := f.table.source
      criteria := [.one (f.table.keyTest f.key)]
      groupBy := []
      having := []
      orderBy := []
      limit := none
      offset := none }

/-- What an update sets a column to. -/
inductive Assigned where
  | value (v : Value)
  /-- The time of the update. -/
  | now

/-- A change of a table. -/
inductive Change where
  | insert (t : Table) (record : Record)
  /-- Records of which the first one decides on the columns. -/
  | insertAll (t : Table) (records : List Record)
  | update (t : Table) (key : RowKey) (values : List (String × Assigned))
  | delete (t : Table) (key : RowKey)

namespace Change

/-- The columns that a record fills, in the order of a declared table. -/
def filled (t : Table) (record : Record) : List String :=
  match t.columns with
  | some cs => cs.filter record.has
  | none => Text.distinct record.keys

/-- An insertion as text. -/
def insertion (t : Table) (columns parameters : List String) : String :=
  "INSERT INTO " ++ t.text ++ " (" ++ commas (columns.map name) ++ ") VALUES (" ++
    commas (parameters.map single) ++ ")"

/-- An insertion of one record as text. -/
def writeRecord (t : Table) (record : Record) : Writing String := do
  let columns := filled t record
  return insertion t columns (← columns.mapM fun c => Writing.take c (record.get c))

/-- The parameter of a column for many records; a column without a name has a numbered one. -/
def recordParameter (column : String) : Writing String := do
  let name ← if column.isEmpty then Writing.parameterName "param" else pure column
  Writing.take name .null

/-- An insertion of many records as text. -/
def writeRecords (t : Table) (records : List Record) : Writing String := do
  let columns := filled t (records.headD [])
  return insertion t columns (← columns.mapM recordParameter)

/-- The condition of a key as text, behind its keyword. -/
def keyed (t : Table) (k : RowKey) : Writing String := do
  return " WHERE " ++ (← Writing.test .bound (t.keyTest k))

/-- The columns that an update may set, in order: those of a declared table, or else the key and
what is set. -/
def settable (t : Table) (k : RowKey) (values : List (String × Assigned)) : List String :=
  t.columns.getD (Text.distinct (k.column :: values.map (·.1)))

/-- The assignment of a column as text. -/
def assignment (column : String) : Assigned → Writing String
  | .value v => return name column ++ "=" ++ single (← Writing.take column v)
  | .now => return name column ++ "=CURRENT_TIMESTAMP"

/-- An update as text. All that is set has to be a column, and none of it may have the name of the
key's parameter. -/
def writeUpdate (t : Table) (k : RowKey) (values : List (String × Assigned)) : Writing String := do
  let columns := settable t k values
  if values.any (fun (c, _) => !columns.contains c) then throw .unwritable
  else
    let ordered := columns.filterMap fun c => (values.lookup c).map fun a => (c, a)
    let assignments ← ordered.mapM fun (c, a) => assignment c a
    return "UPDATE " ++ t.text ++ " SET " ++ commas assignments ++ (← keyed t k)

/-- A change as text. -/
def write : Change → Writing String
  | .insert t record => writeRecord t record
  | .insertAll t records => writeRecords t records
  | .update t k values => writeUpdate t k values
  | .delete t k => return "DELETE FROM " ++ t.text ++ (← keyed t k)

/-- A change as text, with the values of its parameters; those of many records are left open. -/
def written (c : Change) : Except Fault Written := do
  let (text, p) ← c.write.run Progress.start
  return ⟨text, p.parameters⟩

end Change
end RowGate.Sql
