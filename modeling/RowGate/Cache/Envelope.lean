import RowGate.Cache.Key
import RowGate.Json.Reader
/-!
Cached answers as texts: the data with the time at which it ends. Texts that were written otherwise
are read with care.
-/
namespace RowGate.Cache

/-- The name of the time at which an answer ends. -/
def endsName : String := "expires_at"

/-- The name of the data. -/
def dataName : String := "data"

/-- An answer as a text. -/
def enclose (ends : Number) (data : Value) : Except Fault String := do
  return (← jsonOf (.map [(endsName, .number ends), (dataName, data)])).render

/-- What a text says at a time: that it has ended, or the data. -/
inductive Content where
  | ended
  | data (v : Value)

/-- A field that has to be there. -/
def fieldOf (r : Record) (name : String) : Except Fault Value :=
  match r.get? name with
  | some v => .ok v
  | none => .error (.missingKey (.text name))

/-- The record of a text. -/
def recordOf (s : String) : Except Fault Record :=
  match Json.parse? s with
  | none => .error .unreadable
  | some j =>
    match j.toValue with
    | .map fields => .ok fields
    | _ => .error .wrongType

/-- What a text says at a time. -/
def contentOf (now : Number) (s : String) : Except Fault Content := do
  let r ← recordOf s
  match (← fieldOf r endsName).number? with
  | none => .error .wrongType
  | some ends =>
    if ends.atMost now then return .ended else return .data (← fieldOf r dataName)

end RowGate.Cache
