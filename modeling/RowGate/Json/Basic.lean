import RowGate.Number.Numeral
import RowGate.Value.Basic
/-!
Values of the interchange format: the ones that need no tag to be written. Objects keep the order
of their keys.
-/
namespace RowGate

/-- A value of the interchange format. -/
inductive Json where
  | null
  | bool (b : Bool)
  | int (n : Int)
  | float (x : Float)
  | text (s : String)
  | list (items : List Json)
  | object (fields : List (String × Json))

namespace Json

instance : Inhabited Json := ⟨.null⟩

mutual

/-- The value that an interchange value stands for. -/
def toValue : Json → Value
  | .null => .null
  | .bool b => .bool b
  | .int n => .int n
  | .float x => .float x
  | .text s => .text s
  | .list items => .list (toValues items)
  | .object fields => .map (toRecord fields)

/-- The values of a list, in order. -/
def toValues : List Json → List Value
  | [] => []
  | j :: js => j.toValue :: toValues js

/-- The record of an object's fields, in order. -/
def toRecord : List (String × Json) → Record
  | [] => []
  | (k, j) :: fs => (k, j.toValue) :: toRecord fs

end

/-- Puts a field into an object: in place if the key is present, else at the end. -/
def putField : List (String × Json) → String → Json → List (String × Json)
  | [], key, v => [(key, v)]
  | (k, w) :: rest, key, v => if k = key then (k, v) :: rest else (k, w) :: putField rest key v

end Json

/-- How values outside the interchange format are written in it. -/
structure Json.Fallback where
  /-- A text in place of a value. -/
  text? : Value → Option String
  /-- Sets without a text become lists, ordered by the given text of their items. -/
  setOrder? : Option (Value → String)

/-- Whether an integer has no more digits than are written or read. -/
def Json.isWritten (n : Int) : Bool := (toString n.natAbs).length ≤ Number.maxIntegerDigits

/-- Items ordered by their texts; items of one text stay in order. -/
def sortByText {α : Type} (items : List (String × α)) : List α :=
  (items.mergeSort fun a b => a.1 ≤ b.1).map (·.2)

mutual

/-- A value in the interchange format, if it has a form there. -/
def Value.toJson? (how : Json.Fallback) : Value → Option Json
  | .null => some .null
  | .bool b => some (.bool b)
  | .number (.int n) => if Json.isWritten n then some (.int n) else none
  | .number (.float x) => some (.float x)
  | .text s => some (.text s)
  | .list items | .tuple items => (listToJson? how items).map .list
  | .map fields => (recordToJson? how fields).map .object
  | .set items =>
    match how.text? (.set items), how.setOrder? with
    | some s, _ => some (.text s)
    | none, some order =>
      (listToJson? how items).map fun js => .list (sortByText ((items.map order).zip js))
    | none, none => none
  | v => (how.text? v).map .text

/-- The items of a list in the interchange format. -/
def listToJson? (how : Json.Fallback) : List Value → Option (List Json)
  | [] => some []
  | v :: vs => do return (← v.toJson? how) :: (← listToJson? how vs)

/-- The fields of a record in the interchange format. -/
def recordToJson? (how : Json.Fallback) : List (String × Value) → Option (List (String × Json))
  | [] => some []
  | (k, v) :: fs => do return (k, ← v.toJson? how) :: (← recordToJson? how fs)

end
end RowGate
