import RowGate.Plan.Compile
import RowGate.Review.Limits
import RowGate.Sql.Draft
import RowGate.Sql.Writer
/-!
What a query would do, without running it: its operations, its statement, its weight and the limits
that it breaks.
-/
namespace RowGate

/-- The description of a query on a table. -/
structure QueryExplanation where
  table : String
  operations : List String
  sql : String
  complexity : Float
  violations : List Violation

/-- The description of a query. Broken limits are reported and do not stop it. -/
def Query.explain (q : Query) (catalog : Sql.Catalog) (table : String) :
    Logged QueryExplanation := do
  let operations ← q.compile
  let statement ← Sql.build catalog table operations
  let sql ← statement.shown
  return ⟨table, operations.map (·.kind), sql, q.complexity, q.violations none⟩

namespace QueryExplanation

/-- A description as a map. -/
def toValue (e : QueryExplanation) : Value :=
  .map [("table", .text e.table), ("operations", .texts e.operations), ("sql", .text e.sql),
    ("complexity", .float e.complexity),
    ("violations", .texts (e.violations.map (·.message))), ("valid", .bool e.violations.isEmpty)]

/-- A description as lines of text. -/
def text (e : QueryExplanation) : String :=
  String.intercalate "\n"
    (["Query Explanation for table=" ++ Text.quoted e.table,
      "  Operations (" ++ toString e.operations.length ++ "):"] ++
      (e.operations.zipIdx.map fun (kind, i) => "    " ++ toString i ++ ". " ++ kind) ++
      ["  Complexity: " ++ Number.briefText e.complexity, "  SQL: " ++ e.sql] ++
      if e.violations.isEmpty then []
      else "  Violations:" :: e.violations.map fun v => "    - " ++ v.message)

end QueryExplanation
end RowGate
