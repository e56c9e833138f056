import RowGate.Number.Binary
/-!
Decimal numbers with a coefficient and a power of ten. `1.50` and `1.5` have the same value and
different texts. Sums and quotients keep at most 28 significant digits.
-/
namespace RowGate.Number

/-- A decimal number; a finite one is `coefficient * 10 ^ exponent`, up to sign. -/
inductive Decimal where
  | finite (negative : Bool) (coefficient : Nat) (exponent : Int)
  | infinite (negative : Bool)
  | notANumber
deriving DecidableEq, Repr, Inhabited

namespace Decimal

/-- The significant digits that arithmetic keeps. -/
def precision : Nat := 28

/-- The rational `m * 10 ^ e`. -/
def scaleTen (m : Nat) (e : Int) : Rat :=
  if 0 ≤ e then ((m * tenTo e.toNat : Nat) : Rat) else mkRat m (tenTo (-e).toNat)

/-- The exact value of a finite decimal. -/
def toRat? : Decimal → Option Rat
  | .finite negative c e => some (if negative then -scaleTen c e else scaleTen c e)
  | _ => none

/-- The decimal of an integer. -/
def ofInt (n : Int) : Decimal := .finite (n < 0) n.natAbs 0

/-- Count of digits of a coefficient. -/
def digitCount (n : Nat) : Nat := (toString n).length

/-- A coefficient cut to the precision, a half going to the even neighbour. -/
def round (negative : Bool) (c : Nat) (e : Int) : Decimal :=
  let excess := digitCount c - precision
  if excess = 0 then .finite negative c e
  else
    let r := roundDiv c (tenTo excess)
    -- Rounding up may add a digit, which is then a zero.
    if digitCount r ≤ precision then .finite negative r (e + excess)
    else .finite negative (r / 10) (e + excess + 1)

/-- Sums take the smaller exponent before rounding; opposite infinities have none. -/
def add? : Decimal → Decimal → Option Decimal
  | .finite na ca ea, .finite nb cb eb =>
    let e := min ea eb
    let a : Int := (ca * tenTo (ea - e).toNat : Nat)
    let b : Int := (cb * tenTo (eb - e).toNat : Nat)
    let s := (if na then -a else a) + (if nb then -b else b)
    some (round (s < 0 || (s == 0 && na && nb)) s.natAbs e)
  | .notANumber, _ | _, .notANumber => some .notANumber
  | .infinite a, .infinite b => if a = b then some (.infinite a) else none
  | .infinite a, _ | _, .infinite a => some (.infinite a)

/-- Tens are divided out of a quotient while its exponent is below the one it should have. -/
def dropTens : Nat → Nat → Int → Int → Nat × Int
  | 0, c, e, _ => (c, e)
  | fuel + 1, c, e, ideal =>
    if e < ideal ∧ c % 10 = 0 then dropTens fuel (c / 10) (e + 1) ideal else (c, e)

/-- The quotient by a positive integer. An exact quotient has the exponent of the dividend if it
can; an inexact one is rounded. -/
def divNat (a : Decimal) (n : Nat) : Decimal :=
  match a with
  | .finite negative 0 e => .finite negative 0 e
  | .finite negative c e =>
    let shift := (digitCount n : Int) - digitCount c + precision + 1
    let num := if 0 ≤ shift then c * tenTo shift.toNat else c
    let den := if 0 ≤ shift then n else n * tenTo (-shift).toNat
    let q := num / den
    let exponent := e - shift
    if num % den = 0 then
      let (q, exponent) := dropTens (digitCount q) q exponent e
      round negative q exponent
    else
      -- A last digit 0 or 5 of an inexact quotient is raised, so that it is never taken for a tie.
      round negative (if q % 5 = 0 then q + 1 else q) exponent
  | other => other

/-- The text of a decimal: positional unless the exponent is positive or the first digit lies
more than six places behind the point. -/
def text : Decimal → String
  | .notANumber => "NaN"
  | .infinite negative => if negative then "-Infinity" else "Infinity"
  | .finite negative c e =>
    let digits := (toString c).toList
    let left := e + digits.length
    let point : Int := if e ≤ 0 ∧ -6 < left then left else 1
    let body :=
      if point ≤ 0 then
        "0." ++ String.ofList (List.replicate (-point).toNat '0' ++ digits)
      else
        let n := point.toNat
        let rest := digits.drop n
        String.ofList (digits.take n ++ List.replicate (n - digits.length) '0') ++
          if rest.isEmpty then "" else "." ++ String.ofList rest
    let power := left - point
    (if negative then "-" else "") ++ body ++
      if power = 0 then ""
      else (if power < 0 then "E-" else "E+") ++ toString power.natAbs

end Decimal
end RowGate.Number
