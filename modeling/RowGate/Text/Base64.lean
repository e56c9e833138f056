/-!
Bytes as text: three bytes as four characters of an alphabet of 64, the last group filled up with
equality signs.
-/
namespace RowGate.Text.Base64

/-- The characters that stand for six bits each. -/
def alphabet : List Char :=
  "ABCDEFGHIJKLMNOPQRSTUVWXYZabcdefghijklmnopqrstuvwxyz0123456789+/".toList

/-- What fills up the last group. -/
def filler : Char := '='

/-- The character of six bits. -/
def digit (n : Nat) : Char := alphabet.getD (n % 64) filler

/-- The characters of bytes. -/
def encodeBytes : List UInt8 → List Char
  | a :: b :: c :: rest =>
    let n := (a.toNat * 256 + b.toNat) * 256 + c.toNat
    [digit (n / 262144), digit (n / 4096), digit (n / 64), digit n] ++ encodeBytes rest
  | [a, b] =>
    let n := (a.toNat * 256 + b.toNat) * 256
    [digit (n / 262144), digit (n / 4096), digit (n / 64), filler]
  | [a] => [digit (a.toNat / 4), digit (a.toNat * 16), filler, filler]
  | [] => []

/-- The text of bytes. -/
def encode (data : List UInt8) : String := String.ofList (encodeBytes data)

/-- The bytes of characters. Characters outside the alphabet count as its first one. -/
def decodeChars : List Char → List UInt8
  | a :: b :: c :: d :: rest =>
    let value (x : Char) : Nat := if alphabet.contains x then alphabet.idxOf x else 0
    let n := ((value a * 64 + value b) * 64 + value c) * 64 + value d
    let bytes := [n / 65536, n / 256, n].map UInt8.ofNat
    (if c == filler then bytes.take 1 else if d == filler then bytes.take 2 else bytes) ++
      decodeChars rest
  | _ => []

/-- The bytes of a text. -/
def decode (s : String) : List UInt8 := decodeChars s.toList

end RowGate.Text.Base64
