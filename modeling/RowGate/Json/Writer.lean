import RowGate.Json.Basic
/-!
The text of interchange values: a blank after every comma and colon, and no character that is not
printable or beyond the first 127 code points.
-/
namespace RowGate.Json

/-- The digit of a number below sixteen. -/
def hexDigit (n : Nat) : Char :=
  if n < 10 then Char.ofNat (48 + n) else Char.ofNat (87 + n)

/-- The lowest `width` hexadecimal digits of a number. -/
def hex : Nat → Nat → List Char
  | 0, _ => []
  | width + 1, n => hex width (n / 16) ++ [hexDigit (n % 16)]

/-- A code unit as an escape. -/
def unitEscape (n : Nat) : List Char := '\\' :: 'u' :: hex 4 n

/-- A character inside a quoted text. -/
def escape (c : Char) : List Char :=
  match c with
  | '\"' => ['\\', '\"']
  | '\\' => ['\\', '\\']
  | '\n' => ['\\', 'n']
  | '\r' => ['\\', 'r']
  | '\t' => ['\\', 't']
  | '\x08' => ['\\', 'b']
  | '\x0c' => ['\\', 'f']
  | c =>
    let n := c.toNat
    if 32 ≤ n ∧ n < 127 then [c]
    else if n < 0x10000 then unitEscape n
    else unitEscape (0xd800 + (n - 0x10000) / 0x400) ++ unitEscape (0xdc00 + (n - 0x10000) % 0x400)

/-- A text between quotes. -/
def quote (s : String) : String :=
  "\"" ++ String.ofList (s.toList.flatMap escape) ++ "\""

/-- A float; the names of the values that are not finite go beyond the format. -/
def floatText (x : Float) : String :=
  match Number.classify x with
  | .notANumber => "NaN"
  | .infinite negative => if negative then "-Infinity" else "Infinity"
  | .finite _ => Number.fullText x

mutual

/-- The text of an interchange value. -/
def render : Json → String
  | .null => "null"
  | .bool b => if b then "true" else "false"
  | .int n => toString n
  | .float x => floatText x
  | .text s => quote s
  | .list items => "[" ++ String.intercalate ", " (renderList items) ++ "]"
  | .object fields => "\x7b" ++ String.intercalate ", " (renderFields fields) ++ "\x7d"

/-- The texts of the items of a list. -/
def renderList : List Json → List String
  | [] => []
  | j :: js => j.render :: renderList js

/-- The texts of the fields of an object. -/
def renderFields : List (String × Json) → List String
  | [] => []
  | (k, j) :: fs => (quote k ++ ": " ++ j.render) :: renderFields fs

end

mutual

/-- The same value with the keys of all objects in ascending order. -/
def sortKeys : Json → Json
  | .list items => .list (sortKeysList items)
  | .object fields =>
    .object ((sortKeysFields fields).mergeSort fun a b => a.1 ≤ b.1)
  | j => j

/-- The items of a list with sorted keys. -/
def sortKeysList : List Json → List Json
  | [] => []
  | j :: js => j.sortKeys :: sortKeysList js

/-- The fields of an object with sorted keys inside. -/
def sortKeysFields : List (String × Json) → List (String × Json)
  | [] => []
  | (k, j) :: fs => (k, j.sortKeys) :: sortKeysFields fs

end
end RowGate.Json
