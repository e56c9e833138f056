import RowGate.Json.Basic
import RowGate.Number.Numeral
/-!
Lexemes of the interchange format, read by a machine that takes one character at a time.
-/
namespace RowGate.Json

/-- A lexeme: a mark of structure, or a value without structure. -/
inductive Token where
  | openList
  | closeList
  | openObject
  | closeObject
  | comma
  | colon
  | atom (value : Json)

namespace Token

/-- The mark a character is. -/
def mark? : Char → Option Token
  | '[' => some .openList
  | ']' => some .closeList
  | '{' => some .openObject
  | '}' => some .closeObject
  | ',' => some .comma
  | ':' => some .colon
  | _ => none

/-- Blanks between lexemes. -/
def isSpace (c : Char) : Bool := c == ' ' || c == '\n' || c == '\t' || c == '\r'

/-- Characters of numbers and names. -/
def isAtomChar (c : Char) : Bool := c.isAlphanum || c == '-' || c == '+' || c == '.'

/-- Digits without a superfluous zero in front. -/
def isPlain : List Char → Bool
  | [] => false
  | '0' :: _ :: _ => false
  | _ => true

/-- The digits behind a point, and what follows them. -/
def fractionOf (rest : List Char) : List Char × List Char :=
  match rest with
  | '.' :: more => (more.takeWhile Char.isDigit, more.dropWhile Char.isDigit)
  | _ => ([], rest)

/-- The power of ten behind the digits. -/
def scale? : List Char → Option Int
  | [] => some 0
  | mark :: more =>
    if (mark == 'e' || mark == 'E') && !more.contains '_' then Number.parseExponent? more else none

/-- The value of digits and what follows them: an integer if nothing does. -/
def unsigned? (negative : Bool) (whole rest : List Char) : Option Json :=
  if !isPlain whole then none
  else if rest.isEmpty then
    if Number.maxIntegerDigits < whole.length then none
    else
      let n : Int := Number.ofDigits (whole.map (·.toNat - 48))
      some (.int (if negative then -n else n))
  else
    let fraction := (fractionOf rest).1
    if rest.head? == some '.' && fraction.isEmpty then none
    else do
      let exponent ← scale? (fractionOf rest).2
      let digits := (whole ++ fraction).map (·.toNat - 48)
      return .float (Number.ofDecimalParts negative (Number.ofDigits digits)
        (exponent - fraction.length))

/-- The value of a number: no superfluous zero in front, digits on both sides of a point. -/
def number? (cs : List Char) : Option Json :=
  match cs with
  | '-' :: body => unsigned? true (body.takeWhile Char.isDigit) (body.dropWhile Char.isDigit)
  | body => unsigned? false (body.takeWhile Char.isDigit) (body.dropWhile Char.isDigit)

/-- The value of a name or number. -/
def atom? (cs : List Char) : Option Json :=
  match String.ofList cs with
  | "null" => some .null
  | "true" => some (.bool true)
  | "false" => some (.bool false)
  | "NaN" => some (.float Number.notANumber)
  | "Infinity" => some (.float (Number.infinity false))
  | "-Infinity" => some (.float (Number.infinity true))
  | _ => number? cs

/-- A quoted text under way: its characters, last first, and a first half of a surrogate pair
that waits for its second half. -/
structure Draft where
  chars : List Char
  half : Option Nat

/-- The characters with a waiting half replaced. -/
def Draft.flush (p : Draft) : List Char :=
  match p.half with
  | none => p.chars
  | some _ => Char.ofNat 0xfffd :: p.chars

/-- One more character. -/
def Draft.push (p : Draft) (c : Char) : Draft := ⟨c :: p.flush, none⟩

/-- One more code unit from an escape. -/
def Draft.pushUnit (p : Draft) (n : Nat) : Draft :=
  if 0xdc00 ≤ n ∧ n < 0xe000 then
    match p.half with
    | some h => ⟨Char.ofNat (0x10000 + (h - 0xd800) * 0x400 + (n - 0xdc00)) :: p.chars, none⟩
    | none => p.push (Char.ofNat 0xfffd)
  else if 0xd800 ≤ n ∧ n < 0xdc00 then ⟨p.flush, some n⟩
  else p.push (Char.ofNat n)

/-- Where the machine is. -/
inductive Mode where
  | between
  | inText (text : Draft)
  | escape (text : Draft)
  | unit (text : Draft) (left : Nat) (value : Nat)
  /-- Inside a name or number, last character first. -/
  | inAtom (chars : List Char)

/-- The value of a hexadecimal digit. -/
def hexValue? (c : Char) : Option Nat :=
  if c.isDigit then some (c.toNat - 48)
  else if 'a' ≤ c ∧ c ≤ 'f' then some (c.toNat - 87)
  else if 'A' ≤ c ∧ c ≤ 'F' then some (c.toNat - 55)
  else none

/-- One step between lexemes. -/
def stepBetween (done : List Token) (c : Char) : Option (Mode × List Token) :=
  if isSpace c then some (.between, done)
  else if c = '\"' then some (.inText ⟨[], none⟩, done)
  else if isAtomChar c then some (.inAtom [c], done)
  else (mark? c).map fun t => (.between, t :: done)

/-- The character a short escape stands for. -/
def shortEscape? : Char → Option Char
  | '\"' => some '\"'
  | '\\' => some '\\'
  | '/' => some '/'
  | 'b' => some '\x08'
  | 'f' => some '\x0c'
  | 'n' => some '\n'
  | 'r' => some '\r'
  | 't' => some '\t'
  | _ => none

/-- One step of the machine; finished lexemes are kept last first. -/
def step : Mode × List Token → Char → Option (Mode × List Token)
  | (.between, done), c => stepBetween done c
  | (.inText p, done), c =>
    if c = '\"' then some (.between, .atom (.text (String.ofList p.flush.reverse)) :: done)
    else if c = '\\' then some (.escape p, done)
    else if c.toNat < 32 then none
    else some (.inText (p.push c), done)
  | (.escape p, done), c =>
    if c = 'u' then some (.unit p 4 0, done)
    else (shortEscape? c).map fun e => (.inText (p.push e), done)
  | (.unit p left n, done), c => do
    let n := 16 * n + (← hexValue? c)
    match left with
    | 0 | 1 => some (.inText (p.pushUnit n), done)
    | left + 1 => some (.unit p left n, done)
  | (.inAtom cs, done), c =>
    if isAtomChar c then some (.inAtom (c :: cs), done)
    else do stepBetween (.atom (← atom? cs.reverse) :: done) c

/-- The lexemes of a text. -/
def lex? (cs : List Char) : Option (List Token) := do
  match ← cs.foldlM step (.between, []) with
  | (.between, done) => some done.reverse
  | (.inAtom cs, done) => do return (Token.atom (← atom? cs.reverse) :: done).reverse
  | _ => none

end Token
end RowGate.Json
