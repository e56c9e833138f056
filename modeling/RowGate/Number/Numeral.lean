import RowGate.Text.Basic
import RowGate.Text.Ranges
import RowGate.Text.Case
import RowGate.Number.Decimal
/-!
Numerals: the texts that read as integers, floats and decimals.
-/
namespace RowGate.Number

/-- More digits than this do not read as an integer. -/
def maxIntegerDigits : Nat := 4300

/-- Digits with single underscores between them: the digits' values. -/
def digitGroups : List Char → Option (List Nat)
  | [] => none
  | c :: rest => do
    let d ← Text.decimalValue? c
    match rest with
    | [] => some [d]
    | '_' :: more => (digitGroups more).map (d :: ·)
    | more => (digitGroups more).map (d :: ·)

/-- The number with the given decimal digits. -/
def ofDigits (ds : List Nat) : Nat := ds.foldl (fun n d => 10 * n + d) 0

/-- A leading sign, and what follows it. -/
def splitSign : List Char → Bool × List Char
  | '-' :: rest => (true, rest)
  | '+' :: rest => (false, rest)
  | cs => (false, cs)

/-- A text as an integer: blanks around, a sign, digits of any script in groups. -/
def parseInt? (s : String) : Option Int := do
  let (negative, body) := splitSign (Text.stripChars s.toList)
  let ds ← digitGroups body
  if maxIntegerDigits < ds.length then none
  else
    let n : Int := ofDigits ds
    some (if negative then -n else n)

/-- Digit groups that may be empty. -/
def digitGroupsOrNone (cs : List Char) : Option (List Nat) :=
  if cs.isEmpty then some [] else digitGroups cs

/-- The exponent after its mark. -/
def parseExponent? (cs : List Char) : Option Int := do
  let (negative, body) := splitSign cs
  let n : Int := ofDigits (← digitGroups body)
  some (if negative then -n else n)

/-- A mantissa and exponent without sign: digits with at most one point among them, and an
optional power of ten. The answer is the coefficient and its exponent. -/
def parseScientific? (cs : List Char) : Option (Nat × Int) := do
  let isMark (c : Char) := c == 'e' || c == 'E'
  let mantissa := cs.takeWhile (!isMark ·)
  let whole := mantissa.takeWhile (· != '.')
  let fraction := (mantissa.dropWhile (· != '.')).drop 1
  let ws ← digitGroupsOrNone whole
  let fs ← digitGroupsOrNone fraction
  let exponent ← match cs.dropWhile (!isMark ·) with
    | [] => some 0
    | _ :: rest => parseExponent? rest
  if ws.isEmpty && fs.isEmpty then none
  else some (ofDigits (ws ++ fs), exponent - fs.length)

/-- A text as a float: a numeral with an optional point and exponent, or the name of infinity or
of the number that is none. -/
def parseFloat? (s : String) : Option Float :=
  let (negative, body) := splitSign (Text.stripChars s.toList)
  match (Text.lower (String.ofList body)) with
  | "inf" | "infinity" => some (infinity negative)
  | "nan" => some notANumber
  | _ => (parseScientific? body).map fun (c, e) => ofDecimalParts negative c e

/-- A text as a decimal. -/
def parseDecimal? (s : String) : Option Decimal :=
  let (negative, body) := splitSign (Text.stripChars s.toList)
  match (Text.lower (String.ofList body)) with
  | "inf" | "infinity" => some (.infinite negative)
  | "nan" => some .notANumber
  | _ => (parseScientific? body).map fun (c, e) => .finite negative c e

end RowGate.Number
