import RowGate.Fault
/-!
Stores of texts by key, with sets of texts beside them. A text or a set may be given a time to live,
in seconds. Any call may fail.
-/
namespace RowGate.KeyValue

/-- A call of a store. -/
inductive Call where
  | get (key : String)
  | set (key value : String) (ttl : Option Number)
  | delete (keys : List String)
  /-- Adds to the set under a key, which comes into being if need be. -/
  | addToSet (key : String) (members : List String) (ttl : Option Number)
  | members (key : String)

/-- The answer to a call. A key without a set has no members. -/
abbrev Call.Answer : Call → Type
  | .get _ => Except Fault (Option String)
  | .set .. => Except Fault Unit
  | .delete _ => Except Fault Unit
  | .addToSet .. => Except Fault Unit
  | .members _ => Except Fault (List String)

/-- A failed call. -/
def Call.fail (f : Fault) : (c : Call) → c.Answer
  | .get _ => .error f
  | .set .. => .error f
  | .delete _ => .error f
  | .addToSet .. => .error f
  | .members _ => .error f

end RowGate.KeyValue
