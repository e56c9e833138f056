import RowGate.Value.Order
/-!
Sums of values, and formulas applied to rows. Numbers add up, texts, bytes and lists are put one
behind the other; other values have no sum.
-/
namespace RowGate

/-- The sum of two values. -/
def Value.add (a b : Value) : Except Fault Value :=
  match a, b with
  | .text s, .text t => .ok (.text (s ++ t))
  | .bytes xs, .bytes ys => .ok (.bytes (xs ++ ys))
  | .list xs, .list ys => .ok (.list (xs ++ ys))
  | .tuple xs, .tuple ys => .ok (.tuple (xs ++ ys))
  | _, _ =>
    match a.number?, b.number? with
    | some m, some n => do return .number (← Number.lift (m.add n))
    | _, _ => .error .wrongType

namespace Formula

/-- The value of a column that a formula names. -/
def columnOf (row : Record) (key : Value) : Except Fault Value :=
  if !key.isHashable then .error .wrongType
  else
    match key with
    | .text name =>
      match row.get? name with
      | some v => .ok v
      | none => .error (.missingKey key)
    | _ => .error (.missingKey key)

/-- The value of a formula for a row. A row has no limit to compare. -/
def value (row : Record) : Formula → Except Fault Value
  | .constant v => .ok v
  | .column key => columnOf row key
  | .plus key addend => do (← columnOf row key).add addend
  | .limitAbove _ => .error .noSuchName
  | .failing => .error .outside

end Formula
end RowGate
