/-!
How a number given by its significant digits is laid out: positionally, or with a power of ten.
-/
namespace RowGate.Number

/-- Significant digits, the first before the point and the others after it, times ten to the
given power. -/
structure Scientific where
  digits : List Char
  power : Int
deriving DecidableEq, Repr

/-- The choices of one layout. -/
structure Layout where
  /-- Powers from here up to `positionalBelow` are written without an exponent. -/
  positionalFrom : Int
  positionalBelow : Int
  /-- What follows a positional number without digits after the point. -/
  wholeSuffix : String

/-- An exponent has a sign and at least two digits. -/
def exponentText (power : Int) : String :=
  let digits := toString power.natAbs
  (if power < 0 then "e-" else "e+") ++ (if digits.length < 2 then "0" else "") ++ digits

/-- A digit list with the point after `before` digits, zeros filling up. -/
def positional (digits : List Char) (before : Int) (wholeSuffix : String) : String :=
  if before ≤ 0 then
    "0." ++ String.ofList (List.replicate (-before).toNat '0') ++ String.ofList digits
  else
    let n := before.toNat
    let whole := digits.take n ++ List.replicate (n - digits.length) '0'
    let rest := digits.drop n
    String.ofList whole ++
      if rest.isEmpty then wholeSuffix else "." ++ String.ofList rest

/-- The number in this layout, without its sign. -/
def Layout.render (l : Layout) (s : Scientific) : String :=
  if l.positionalFrom ≤ s.power ∧ s.power < l.positionalBelow then
    positional s.digits (s.power + 1) l.wholeSuffix
  else
    let rest := s.digits.drop 1
    String.ofList (s.digits.take 1) ++
      (if rest.isEmpty then "" else "." ++ String.ofList rest) ++ exponentText s.power

/-- Digits without the zeros at their end; one digit stays. -/
def trimZeros (digits : List Char) : List Char :=
  match (digits.reverse.dropWhile (· == '0')).reverse with
  | [] => ['0']
  | ds => ds

end RowGate.Number
