import RowGate.Query.Reader
import RowGate.Json.Reader
/-!
Queries from flat parameters, where texts hold interchange values.
-/
namespace RowGate

/-- A parameter decoded: texts in the interchange format stand for their values, other texts for
themselves. A limit or offset that is neither is dropped. -/
def decodeParam (key : String) : Value → Option Value
  | .text s =>
    match Json.parse? s with
    | some j => some j.toValue
    | none => if key = "limit" || key = "offset" then none else some (.text s)
  | v => some v

/-- The query of flat parameters. -/
def Query.ofParams (defaultLimit : Option Value) (params : Record) : Reading Query :=
  Query.read defaultLimit (.map (params.filterMap fun (k, v) => (decodeParam k v).map (k, ·)))

end RowGate
