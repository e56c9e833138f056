/-!
Classes of characters, given by code point ranges, and the digits of all scripts. A decimal digit has
a value and can stand in a numeral; a digit in the wider sense (superscripts, circled digits) only
counts as one.
-/
namespace RowGate.Text

/-- Closed code point ranges in ascending order. -/
abbrev Ranges := List (Nat × Nat)

/-- A code point is in a class when some range holds it. The ranges ascend, so the search stops
at the first range that ends at or after it. -/
def Ranges.holds : Ranges → Nat → Bool
  | [], _ => false
  | (first, last) :: rest, n => if n ≤ last then first ≤ n else Ranges.holds rest n

/-- The code points of the zero digits; the nine digits after each follow in order. -/
def zeros : List Nat := [
    48, 1632, 1776, 1984, 2406, 2534, 2662, 2790, 2918, 3046, 3174, 3302, 3430, 3558, 3664, 3792,
    3872, 4160, 4240, 6112, 6160, 6470, 6608, 6784, 6800, 6992, 7088, 7232, 7248, 42528, 43216,
    43264, 43472, 43504, 43600, 44016, 65296, 66720, 68912, 69734, 69872, 69942, 70096, 70384,
    70736, 70864, 71248, 71360, 71472, 71904, 72016, 72784, 73040, 73120, 92768, 92864, 93008,
    120782, 120792, 120802, 120812, 120822, 123200, 123632, 125264, 130032]

/-- Digits that cannot stand in a numeral. -/
def loneDigits : Ranges := [
    (178, 179), (185, 185), (4969, 4977), (6618, 6618), (8304, 8304), (8308, 8313), (8320, 8329),
    (9312, 9320), (9332, 9340), (9352, 9360), (9450, 9450), (9461, 9469), (9471, 9471),
    (10102, 10110), (10112, 10120), (10122, 10130), (68160, 68163), (69216, 69224),
    (69714, 69722), (127232, 127242)]

/-- The value of a decimal digit. -/
def decimalValue? (c : Char) : Option Nat :=
  if c.toNat < 128 then
    if c.isDigit then some (c.toNat - 48) else none
  else
    (zeros.find? fun z => z ≤ c.toNat && c.toNat < z + 10).map (c.toNat - ·)

/-- Decimal digits and lone digits. -/
def isDigitChar (c : Char) : Bool :=
  (decimalValue? c).isSome || loneDigits.holds c.toNat

end RowGate.Text
