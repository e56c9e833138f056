import RowGate.Value.Equality
import RowGate.Fault
/-!
The order of values. Numbers and booleans compare by exact value, texts and bytes by their units,
lists item by item; values of different kinds do not compare.
-/
namespace RowGate

/-- Strict order of byte strings. -/
def bytesLess : List UInt8 → List UInt8 → Bool
  | [], ys => !ys.isEmpty
  | _ :: _, [] => false
  | x :: xs, y :: ys => if x = y then bytesLess xs ys else x < y

mutual

/-- Whether the first value is strictly smaller. -/
def Value.less : Value → Value → Except Fault Bool
  | .bool a, .bool b => .ok (!a && b)
  | .bool a, .number n => Number.lift ((Number.int (if a then 1 else 0)).below n)
  | .number n, .bool a => Number.lift (n.below (Number.int (if a then 1 else 0)))
  | .number a, .number b => Number.lift (a.below b)
  | .text s, .text t => .ok (s < t)
  | .bytes a, .bytes b => .ok (bytesLess a b)
  | .moment a, .moment b =>
    match a.compare? b with
    | some o => .ok (o == .lt)
    | none => .error .wrongType
  | .uuid a, .uuid b => .ok (a < b)
  | .list xs, .list ys => lessItems xs ys
  | .tuple xs, .tuple ys => lessItems xs ys
  | .set xs, .set ys => .ok (xs.length < ys.length && sameWithin xs ys)
  | _, _ => .error .wrongType

/-- Order of lists: by the first items that differ, else the shorter list first. -/
def lessItems : List Value → List Value → Except Fault Bool
  | [], ys => .ok (!ys.isEmpty)
  | _ :: _, [] => .ok false
  | x :: xs, y :: ys => if x.same y then lessItems xs ys else x.less y

end

/-- A number that a value can be compared with zero as. -/
def Value.comparable (v : Value) : Except Fault Number := do
  match v.number? with
  | some n =>
    let _ ← Number.lift (n.below (.int 0))
    return n
  | none => .error .wrongType

/-- Puts a value behind the ones that are not greater. -/
def insertOrdered (v : Value) : List Value → Except Fault (List Value)
  | [] => .ok [v]
  | w :: ws => do
    if ← v.less w then return v :: w :: ws
    else return w :: (← insertOrdered v ws)

/-- Values in ascending order, if they all compare. -/
def sortValues (vs : List Value) : Except Fault (List Value) :=
  vs.foldlM (fun sorted v => insertOrdered v sorted) []

/-- The first of the values that no other is below, given the first of them. -/
def leastOf (first : Value) (rest : List Value) : Except Fault Value :=
  rest.foldlM (fun best v => do return if ← v.less best then v else best) first

/-- The first of the values that is below no other, given the first of them. -/
def greatestOf (first : Value) (rest : List Value) : Except Fault Value :=
  rest.foldlM (fun best v => do return if ← best.less v then v else best) first

end RowGate
