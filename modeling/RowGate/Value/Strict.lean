import RowGate.Value.Equality
import RowGate.Fault
/-!
Strict equality: values of different kinds differ, so neither a truth value nor a text ever equals a
number. Values that no column can hold do not compare.
-/
namespace RowGate.Value

/-- The kind of a value that a column can hold. -/
def kind (v : Value) : Except Fault Kind :=
  match v.kind? with
  | some k => .ok k
  | none => .error (.unsupported (.valueType v.typeName))

/-- Equality within one kind. -/
def strictlySame (a b : Value) : Except Fault Bool := do
  let k ← a.kind
  let l ← b.kind
  return k == l && a.same b

/-- Whether a value strictly equals one of a list. Items behind the first such one are not looked
at. -/
def strictlyAmong (a : Value) : List Value → Except Fault Bool
  | [] => .ok false
  | b :: rest => do
    if ← a.strictlySame b then return true else a.strictlyAmong rest

/-- Whether two values are the same or are at least shown alike, as one is that equals nothing, not
even itself. -/
def alike (a b : Value) : Bool := a.same b || a.shown == b.shown

end RowGate.Value
