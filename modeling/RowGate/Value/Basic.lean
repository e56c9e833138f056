import RowGate.Number.Basic
import RowGate.Calendar
/-!
Dynamic values: what requests, rows and bound parameters are made of. Maps keep the order of their
keys.
-/
namespace RowGate

mutual

/-- A value of a request, a row or a bound parameter. -/
inductive Value where
  | null
  | bool (b : Bool)
  | number (n : Number)
  | text (s : String)
  | bytes (data : List UInt8)
  | moment (m : Moment)
  /-- A 128-bit identifier. -/
  | uuid (n : Nat)
  | list (items : List Value)
  | tuple (items : List Value)
  | set (items : List Value)
  | map (fields : List (String × Value))
  | formula (f : Formula)
  /-- An object of a kind that nothing here knows. -/
  | foreign

/-- A computation that a request may carry in place of a value; it is applied to a row or to a
query. -/
inductive Formula where
  | constant (v : Value)
  | column (key : Value)
  /-- A column plus a value. -/
  | plus (key addend : Value)
  /-- Whether the limit of a query exceeds a value. -/
  | limitAbove (bound : Value)
  /-- Fails with an error of its own. -/
  | failing

end

/-- A row or any other map: keys with values, in order. -/
abbrev Record := List (String × Value)

namespace Record

/-- The value under a key. -/
def get? (r : Record) (key : String) : Option Value := r.lookup key

/-- Whether a key is present. -/
def has (r : Record) (key : String) : Bool := (r.lookup key).isSome

/-- The value under a key, null if there is none. -/
def get (r : Record) (key : String) : Value := (r.lookup key).getD .null

/-- Puts a value under a key: in place if the key is present, else at the end. -/
def put : Record → String → Value → Record
  | [], key, v => [(key, v)]
  | (k, w) :: rest, key, v => if k = key then (k, v) :: rest else (k, w) :: put rest key v

/-- The first record overlaid with the second. -/
def overlay (base top : Record) : Record := top.foldl (fun r (k, v) => r.put k v) base

/-- The keys in order. -/
def keys (r : Record) : List String := r.map (·.1)

end Record

namespace Value

instance : Inhabited Value := ⟨.null⟩

/-- An integer value. -/
abbrev int (n : Int) : Value := .number (.int n)

/-- A float value. -/
abbrev float (x : Float) : Value := .number (.float x)

/-- A list of texts. -/
def texts (xs : List String) : Value := .list (xs.map .text)

/-- Null tells an absent entry from a present one nowhere in a request. -/
def isNull : Value → Bool
  | .null => true
  | _ => false

/-- A value as an option: null is none. -/
def toOption : Value → Option Value
  | .null => none
  | v => some v

/-- Empty, zero, false and null values are false; all others are true. -/
def truthy : Value → Bool
  | .null => false
  | .bool b => b
  | .number n => !n.isZero
  | .text s => !s.isEmpty
  | .bytes data => !data.isEmpty
  | .list items | .tuple items | .set items => !items.isEmpty
  | .map fields => !fields.isEmpty
  | .moment _ | .uuid _ | .formula _ | .foreign => true

/-- The number a value counts as: booleans count as zero and one. -/
def number? : Value → Option Number
  | .bool b => some (.int (if b then 1 else 0))
  | .number n => some n
  | _ => none

/-- What a value holds when it is gone through item by item: the items of a list, the keys of a
map, the characters of a text, the numbers of bytes. Other values hold nothing. -/
def items? : Value → Option (List Value)
  | .list items | .tuple items | .set items => some items
  | .map fields => some (fields.map fun (k, _) => .text k)
  | .text s => some (s.toList.map fun c => .text c.toString)
  | .bytes data => some (data.map fun b => .int b.toNat)
  | _ => none

/-- Whether a value can be looked up among others: lists and maps cannot, nor tuples that hold any. -/
def isHashable : Value → Bool
  | .list _ | .map _ => false
  | .tuple items => allHashable items
  | _ => true
where
  /-- Whether all values of a list can be looked up. -/
  allHashable : List Value → Bool
    | [] => true
    | v :: vs => v.isHashable && allHashable vs

/-- The name of a value's type in messages. -/
def typeName : Value → String
  | .null => "NoneType"
  | .bool _ => "bool"
  | .number (.int _) => "int"
  | .number (.float _) => "float"
  | .number (.decimal _) => "Decimal"
  | .text _ => "str"
  | .bytes _ => "bytes"
  | .moment (.date _) => "date"
  | .moment (.time _) => "time"
  | .moment (.dateTime _ _) => "datetime"
  | .uuid _ => "UUID"
  | .list _ => "list"
  | .tuple _ => "tuple"
  | .set _ => "frozenset"
  | .map _ => "dict"
  | .formula _ => "function"
  | .foreign => "Opaque"

end Value
end RowGate
