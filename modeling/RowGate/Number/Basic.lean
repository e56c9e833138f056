import RowGate.Number.Shortest
import RowGate.Number.Decimal
/-!
Numbers of the three kinds a value can hold: integers, floats and decimals. They compare by exact
value across kinds, and add within the kinds that mix.
-/
namespace RowGate

/-- An integer, a float or a decimal. -/
inductive Number where
  | int (n : Int)
  | float (x : Float)
  | decimal (d : Number.Decimal)

namespace Number

instance : Inhabited Number := ⟨.int 0⟩

/-- Why arithmetic has no answer. -/
inductive Failure where
  /-- Floats and decimals do not mix. -/
  | mixedKinds
  /-- An integer beyond the range of floats. -/
  | outOfRange
  /-- A sum of opposite infinities, or an order of what has no place, among decimals. -/
  | undefined
deriving DecidableEq, Repr

/-- Where a number lies on the extended line. -/
inductive Place where
  | below
  | at (q : Rat)
  | above
deriving DecidableEq

/-- The place of a float; one that is no number has none. -/
def floatPlace? (x : Float) : Option Place :=
  match classify x with
  | .finite p => some (.at p.toRat)
  | .infinite negative => some (if negative then .below else .above)
  | .notANumber => none

/-- The place of a number. -/
def place? : Number → Option Place
  | .int n => some (.at n)
  | .float x => floatPlace? x
  | .decimal (.infinite negative) => some (if negative then .below else .above)
  | .decimal d => d.toRat?.map .at

/-- The order of places. -/
def Place.compare : Place → Place → Ordering
  | .below, .below | .above, .above => .eq
  | .below, _ | _, .above => .lt
  | .above, _ | _, .below => .gt
  | .at p, .at q => if p < q then .lt else if p = q then .eq else .gt

/-- The order of two numbers by exact value; none if one of them is no number. -/
def compare? (a b : Number) : Option Ordering :=
  match a.place?, b.place? with
  | some p, some q => some (p.compare q)
  | _, _ => none

/-- Equality by exact value. -/
def same (a b : Number) : Bool := a.compare? b == some .eq

/-- Strictly smaller by exact value. -/
def less (a b : Number) : Bool := a.compare? b == some .lt

/-- Not greater by exact value. -/
def atMost (a b : Number) : Bool := a.compare? b == some .lt || a.compare? b == some .eq

/-- Whether a number is a decimal. -/
def isDecimal : Number → Bool
  | .decimal _ => true
  | _ => false

/-- Whether the first number is strictly smaller. Beside a decimal, both need to have a place. -/
def below (a b : Number) : Except Failure Bool :=
  if (a.isDecimal || b.isDecimal) && (a.compare? b).isNone then .error .undefined
  else .ok (a.less b)

/-- Zero of any kind and sign. -/
def isZero (a : Number) : Bool := a.same (.int 0)

/-- An integer as a float, if floats reach that far. -/
def floatOfInt (n : Int) : Except Failure Float :=
  let x := ofRat n
  match classify x with
  | .finite _ => .ok x
  | _ => .error .outOfRange

/-- Sums of decimals, which opposite infinities do not have. -/
def addDecimals (c d : Decimal) : Except Failure Number :=
  match c.add? d with
  | some sum => .ok (.decimal sum)
  | none => .error .undefined

/-- Sums: integers give way to the other kind. -/
def add : Number → Number → Except Failure Number
  | .int a, .int b => .ok (.int (a + b))
  | .int a, .float y => do return .float ((← floatOfInt a) + y)
  | .float x, .int b => do return .float (x + (← floatOfInt b))
  | .float x, .float y => .ok (.float (x + y))
  | .int a, .decimal d => addDecimals (.ofInt a) d
  | .decimal d, .int b => addDecimals d (.ofInt b)
  | .decimal c, .decimal d => addDecimals c d
  | .float _, .decimal _ | .decimal _, .float _ => .error .mixedKinds

/-- The quotient by a positive count: a float, or a decimal of a decimal. -/
def divNat (a : Number) (n : Nat) : Except Failure Number :=
  match a with
  | .int m =>
    let x := ofQuotient (m < 0) m.natAbs n
    match classify x with
    | .finite _ => .ok (.float x)
    | _ => .error .outOfRange
  | .float x => .ok (.float (x / ofRat n))
  | .decimal d => .ok (.decimal (d.divNat n))

/-- A number as a float. -/
def toFloat : Number → Except Failure Float
  | .int n => floatOfInt n
  | .float x => .ok x
  | .decimal (.finite negative c e) => .ok (ofDecimalParts negative c e)
  | .decimal (.infinite negative) => .ok (infinity negative)
  | .decimal .notANumber => .ok Number.notANumber

/-- The integer a float equals, if it is whole. -/
def wholeFloat? (x : Float) : Option Int :=
  match classify x with
  | .finite p => let q := p.toRat; if q.den = 1 then some q.num else none
  | _ => none

/-- The integer part, cut toward zero; infinities have none. -/
def truncate? (a : Number) : Option Int :=
  match a.place? with
  | some (.at q) => some (q.num.tdiv q.den)
  | _ => none

/-- The least integer not below; infinities have none. -/
def ceiling? (a : Number) : Option Int :=
  match a.place? with
  | some (.at q) => some q.ceil
  | _ => none

/-- The text of a number: an integer's digits, a float's shortest digits, a decimal as it is
written. -/
def text : Number → String
  | .int n => toString n
  | .float x => fullText x
  | .decimal d => d.text

end Number
end RowGate
