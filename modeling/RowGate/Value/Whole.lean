import RowGate.Value.Basic
import RowGate.Number.Numeral
import RowGate.Fault
/-!
Values read as whole numbers and as floats. Texts and bytes are read as numerals; of a number that is
not whole the part before the point counts.
-/
namespace RowGate

namespace Number

/-- Why a number is between no two integers: it is no number, or beyond all of them. -/
def noWhole (n : Number) : Fault :=
  if n.place?.isSome then .outOfRange
  else .badValue (.noInteger (match n with | .float _ => true | _ => false))

/-- The part of a number before the point. -/
def whole (n : Number) : Except Fault Int :=
  match n.truncate? with
  | some k => .ok k
  | none => .error n.noWhole

/-- The least integer that is not below a number. -/
def wholeAbove (n : Number) : Except Fault Int :=
  match n.ceiling? with
  | some k => .ok k
  | none => .error n.noWhole

end Number

namespace Value

/-- A text, or bytes as characters; bytes outside the first half of their range stand for
nothing. -/
def numeral? : Value → Option String
  | .text s => some s
  | .bytes data => some (String.ofList (data.map fun b =>
      if b.toNat < 128 then Char.ofNat b.toNat else Char.ofNat 0xfffd))
  | _ => none

/-- A value as a whole number, cut toward zero. -/
def whole (v : Value) : Except Fault Int :=
  match v.numeral?, v.number? with
  | some s, _ => ((Number.parseInt? s).map .ok).getD (.error (.badValue (.notInteger v)))
  | none, some n => n.whole
  | none, none => .error .wrongType

/-- A value as a float. -/
def toFloat (v : Value) : Except Fault Float :=
  match v.numeral?, v.number? with
  | some s, _ => ((Number.parseFloat? s).map .ok).getD (.error (.badValue (.notFloat v)))
  | none, some n => Number.lift n.toFloat
  | none, none => .error .wrongType

end Value
end RowGate
