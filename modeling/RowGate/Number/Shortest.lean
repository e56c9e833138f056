import RowGate.Number.Binary
import RowGate.Number.Layout
/-!
The fewest decimal digits that read back as a given float, and of those the nearest; and the
digits of a float rounded to a fixed count.
-/
namespace RowGate.Number

/-- Rationals that round to a float: twice the significand plus and minus one in half units, the
lower gap halved where the float is the least of its binade. -/
structure RoundingInterval where
  low : Rat
  high : Rat
  /-- The ends round to the float exactly when its significand is even. -/
  closed : Bool

/-- The interval of a positive finite float. -/
def BinaryParts.interval (p : BinaryParts) : RoundingInterval :=
  let edge := p.significand = twoTo 52 ∧ -1074 < p.exponent
  { low := if edge then scaleTwo (4 * p.significand - 1) (p.exponent - 2)
           else scaleTwo (2 * p.significand - 1) (p.exponent - 1)
    high := scaleTwo (2 * p.significand + 1) (p.exponent - 1)
    closed := p.significand % 2 = 0 }

/-- Membership, the ends included when the interval is closed. -/
def RoundingInterval.holds (i : RoundingInterval) (q : Rat) : Bool :=
  if i.closed then i.low ≤ q && q ≤ i.high else i.low < q && q < i.high

/-- The rational `10 ^ p`. -/
def tenPow (p : Int) : Rat :=
  if 0 ≤ p then (tenTo p.toNat : Rat) else mkRat 1 (tenTo (-p).toNat)

/-- The power of the leading decimal digit of a positive rational, found from an estimate that is
at most one too small. -/
def leadingPower (v : Rat) : Int :=
  let bits := (Nat.log2 v.num.natAbs : Int) - Nat.log2 v.den - 1
  let estimate := (bits * 30103).fdiv 100000 - 1
  let up (p : Int) := if tenPow (p + 1) ≤ v then p + 1 else p
  up (up (up estimate))

/-- The neighbour of `v` on the grid of multiples of `10 ^ p` that lies in the interval; of two
such neighbours the nearer, and the even one if they are equally near. -/
def neighbour? (v : Rat) (i : RoundingInterval) (p : Int) : Option Nat :=
  let step := tenPow p
  let below := (v / step).floor.toNat
  let lower := (below : Rat) * step
  let upper := ((below + 1 : Nat) : Rat) * step
  match i.holds lower, i.holds upper with
  | true, false => some below
  | false, true => some (below + 1)
  | false, false => none
  | true, true =>
    if v - lower < upper - v then some below
    else if upper - v < v - lower then some (below + 1)
    else some (below + below % 2)

/-- The first grid with a neighbour in the interval, from coarse to fine; the finest of `fuel`
grids answers in any case. -/
def shortestFrom (v : Rat) (i : RoundingInterval) : Nat → Int → Nat × Int
  | 0, p => ((v / tenPow p).floor.toNat, p)
  | fuel + 1, p =>
    match neighbour? v i p with
    | some n => (n, p)
    | none => shortestFrom v i fuel (p - 1)

/-- A decimal `n * 10 ^ p` as significant digits. -/
def Scientific.ofDecimal (n : Nat) (p : Int) : Scientific :=
  let ds := (toString n).toList
  ⟨trimZeros ds, p + ds.length - 1⟩

/-- The digits of a positive finite float: seventeen always suffice. -/
def BinaryParts.shortest (p : BinaryParts) : Scientific :=
  let v := scaleTwo p.significand p.exponent
  let (n, e) := shortestFrom v p.interval 17 (leadingPower v)
  .ofDecimal n e

/-- The digits of a positive rational rounded to `count` significant places, ties to even. -/
def roundedDigits (v : Rat) (count : Nat) : Scientific :=
  let p := leadingPower v - (count - 1 : Nat)
  let q := v / tenPow p
  .ofDecimal (roundDiv q.num.natAbs q.den) p

/-- A float in a layout, with its digits chosen by `digits`. -/
def floatText (layout : Layout) (digits : BinaryParts → Scientific) (x : Float) : String :=
  match classify x with
  | .notANumber => "nan"
  | .infinite negative => if negative then "-inf" else "inf"
  | .finite p =>
    let magnitude := if p.significand = 0 then ⟨['0'], 0⟩ else digits p
    (if p.negative then "-" else "") ++ layout.render magnitude

/-- The full text of a float: shortest digits, positional from `1e-4` to below `1e16`, and a
fraction even when it is whole. -/
def fullLayout : Layout := ⟨-4, 16, ".0"⟩

/-- The brief text of a float: six digits, positional from `1e-4` to below `1e6`. -/
def briefLayout : Layout := ⟨-4, 6, ""⟩

/-- The text of a float that reads back as the same float. -/
def fullText (x : Float) : String := floatText fullLayout BinaryParts.shortest x

/-- The text of a float rounded to six significant digits. -/
def briefText (x : Float) : String :=
  floatText briefLayout (fun p => roundedDigits (scaleTwo p.significand p.exponent) 6) x

end RowGate.Number
