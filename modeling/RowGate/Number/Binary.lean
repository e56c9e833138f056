/-!
Binary floating-point numbers as exact rationals: what a float stands for, and the float nearest
to a quotient.
-/
namespace RowGate.Number

/-- A finite float is `significand * 2 ^ exponent`, up to sign. -/
structure BinaryParts where
  negative : Bool
  significand : Nat
  exponent : Int
deriving DecidableEq, Repr

/-- What the bits of a float stand for. -/
inductive BinaryClass where
  | finite (parts : BinaryParts)
  | infinite (negative : Bool)
  | notANumber
deriving DecidableEq, Repr

/-- Two to a power. -/
def twoTo (k : Nat) : Nat := Nat.pow 2 k

theorem twoTo_pos (k : Nat) : 0 < twoTo k := Nat.pow_pos (by decide)

/-- Ten to a power. -/
def tenTo (k : Nat) : Nat := Nat.pow 10 k

theorem tenTo_pos (k : Nat) : 0 < tenTo k := Nat.pow_pos (by decide)

/-- The rational `m * 2 ^ e`. -/
def scaleTwo (m : Nat) (e : Int) : Rat :=
  if 0 ≤ e then ((m * twoTo e.toNat : Nat) : Rat) else mkRat m (twoTo (-e).toNat)

/-- The exact value of the parts. -/
def BinaryParts.toRat (p : BinaryParts) : Rat :=
  let v := scaleTwo p.significand p.exponent
  if p.negative then -v else v

/-- The class of a float, read off its sign, exponent and fraction bits. -/
def classify (x : Float) : BinaryClass :=
  let bits : Nat := x.toBits.toNat
  let negative := bits / twoTo 63 == 1
  let biased : Nat := bits / twoTo 52 % twoTo 11
  let fraction : Nat := bits % twoTo 52
  if biased = 2047 then
    if fraction = 0 then .infinite negative else .notANumber
  else if biased = 0 then .finite ⟨negative, fraction, -1074⟩
  else .finite ⟨negative, fraction + twoTo 52, (biased : Int) - 1075⟩

/-- The bits of a float with the given sign and magnitude bits. -/
def signed (negative : Bool) (magnitude : Nat) : Float :=
  Float.ofBits (UInt64.ofNat ((if negative then twoTo 63 else 0) + magnitude))

/-- Positive or negative infinity. -/
def infinity (negative : Bool) : Float := signed negative (2047 * twoTo 52)

/-- The float that is no number. -/
def notANumber : Float := signed false (2047 * twoTo 52 + twoTo 51)

/-- A quotient rounded to the nearest integer, ties to even. -/
def roundDiv (n d : Nat) : Nat :=
  let q := n / d
  let r := n % d
  if 2 * r < d then q else if d < 2 * r then q + 1 else q + q % 2

/-- `n / d` in units of `2 ^ e`, rounded. -/
def roundScaled (n d : Nat) (e : Int) : Nat :=
  if 0 ≤ e then roundDiv n (d * twoTo e.toNat) else roundDiv (n * twoTo (-e).toNat) d

/-- The least exponent at which `n / d` has at most 53 binary digits, and which a float has. -/
def quotientExponent (n d : Nat) : Int :=
  let e := (Nat.log2 n : Int) - Nat.log2 d - 53
  let quotient := if 0 ≤ e then n / (d * twoTo e.toNat) else n * twoTo (-e).toNat / d
  let fits := quotient < twoTo 53
  max (-1074) (if fits then e else e + 1)

/-- The float nearest to `n / d`, ties to even; `d` is not zero. -/
def ofQuotient (negative : Bool) (n d : Nat) : Float :=
  if n = 0 then signed negative 0
  else
    let e := quotientExponent n d
    let m := roundScaled n d e
    -- A significand below 2 ^ 52 occurs at the least exponent only, and has exponent bits 0.
    let magnitude := if m < twoTo 52 then m else ((e + 1075).toNat - 1) * twoTo 52 + m
    if 2047 * twoTo 52 ≤ magnitude then infinity negative else signed negative magnitude

/-- The float nearest to a rational. -/
def ofRat (q : Rat) : Float := ofQuotient (q.num < 0) q.num.natAbs q.den

/-- The float nearest to `coefficient * 10 ^ exponent`. Beyond the powers of ten that a float can
reach the result is infinite or zero. -/
def ofDecimalParts (negative : Bool) (coefficient : Nat) (exponent : Int) : Float :=
  if coefficient = 0 then signed negative 0
  else if 400 < exponent then infinity negative
  else if exponent + (Nat.log2 coefficient : Int) < -1200 then signed negative 0
  else if 0 ≤ exponent then ofQuotient negative (coefficient * tenTo exponent.toNat) 1
  else ofQuotient negative coefficient (tenTo (-exponent).toNat)

end RowGate.Number
