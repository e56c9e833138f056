import RowGate.Value.Basic
/-!
Two equalities of values. The loose one compares numbers by exact value and counts booleans as
numbers, at every depth. The strict one first asks for the same kind at the top.
-/
namespace RowGate

mutual

/-- Loose equality: numbers and booleans by exact value, lists in order, sets and maps without. -/
def Value.same : Value → Value → Bool
  | .null, .null => true
  | .bool a, .bool b => a == b
  | .bool a, .number n | .number n, .bool a => (Number.int (if a then 1 else 0)).same n
  | .number a, .number b => a.same b
  | .text s, .text t => s == t
  | .bytes a, .bytes b => a == b
  | .moment a, .moment b => a.same b
  | .uuid a, .uuid b => a == b
  | .list xs, .list ys => sameAll xs ys
  | .tuple xs, .tuple ys => sameAll xs ys
  | .set xs, .set ys => xs.length == ys.length && sameWithin xs ys
  | .map fs, .map gs => fs.length == gs.length && sameFields fs gs
  | _, _ => false

/-- Lists of one length whose items are the same in order. -/
def sameAll : List Value → List Value → Bool
  | [], [] => true
  | x :: xs, y :: ys => x.same y && sameAll xs ys
  | _, _ => false

/-- Every item of the first list is the same as one of the second. -/
def sameWithin : List Value → List Value → Bool
  | [], _ => true
  | x :: xs, ys => ys.any (fun y => x.same y) && sameWithin xs ys

/-- Every field of the first record is the same in the second. -/
def sameFields : List (String × Value) → List (String × Value) → Bool
  | [], _ => true
  | (k, v) :: fs, gs =>
    (match gs.lookup k with
      | some w => v.same w
      | none => false) && sameFields fs gs

end

/-- The kinds of column values. -/
inductive Kind where
  | null | bool | number | string | bytes | datetime | json
deriving DecidableEq, Repr

/-- The name of a kind in answers. -/
def Kind.name : Kind → String
  | .null => "null"
  | .bool => "bool"
  | .number => "number"
  | .string => "string"
  | .bytes => "bytes"
  | .datetime => "datetime"
  | .json => "json"

namespace Value

/-- The kind of a value a column can hold. -/
def kind? : Value → Option Kind
  | .null => some .null
  | .bool _ => some .bool
  | .number _ => some .number
  | .text _ => some .string
  | .bytes _ => some .bytes
  | .moment _ => some .datetime
  | .list _ | .tuple _ | .map _ => some .json
  | .uuid _ | .set _ | .formula _ | .foreign => none

/-- Membership under loose equality. -/
def isIn (v : Value) (items : List Value) : Bool := items.any (v.same ·)

/-- Items without those that are the same as an earlier one. -/
def distinct (items : List Value) : List Value :=
  (items.foldl (fun seen v => if v.isIn seen then seen else v :: seen) []).reverse

end Value
end RowGate
