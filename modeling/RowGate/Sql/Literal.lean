import RowGate.Value.Text
import RowGate.Value.Whole
/-!
Values written into statements. A value has a type, which decides how it is written; a list is
written by the type of its first item.
-/
namespace RowGate.Sql

/-- Types of written values. -/
inductive LiteralType where
  | text
  | whole
  | number
  | truth
  | dateTime
  | date
  | time
  | bytes
  | identifier
  | unknown
deriving DecidableEq, Repr

/-- The type that a value is written by. -/
def LiteralType.of : Value → LiteralType
  | .text _ => .text
  | .number (.int _) => .whole
  | .number _ => .number
  | .bool _ => .truth
  | .moment (.dateTime ..) => .dateTime
  | .moment (.date _) => .date
  | .moment (.time _) => .time
  | .bytes _ => .bytes
  | .uuid _ => .identifier
  | _ => .unknown

/-- Text between single quotes; quotes within are doubled. -/
def singleQuoted (s : String) : String :=
  let mark := Char.ofNat 39
  String.ofList (mark :: s.toList.flatMap (fun c => if c = mark then [mark, mark] else [c]) ++ [mark])

/-- The value as a whole number, cut toward zero. -/
def wholeText? (v : Value) : Option String := v.whole.toOption.map toString

/-- A truth value, which zero and one also are. -/
def truthText? (v : Value) : Option String :=
  match v.number? with
  | some n =>
    if n.same (.int 1) then some "true" else if n.same (.int 0) then some "false" else none
  | none => none

/-- The date and the time of a moment with a blank between them; one of them may be absent. -/
def momentText (m : Moment) : String := m.isoWith " "

/-- A value written by a type; none if it cannot be. Null is written by all types. -/
def LiteralType.write? (t : LiteralType) (v : Value) : Option String :=
  match t, v with
  | _, .null => some "NULL"
  | .text, .text s => some (singleQuoted s)
  | .whole, v => wholeText? v
  | .number, v => some v.plain
  | .truth, v => truthText? v
  | .dateTime, .moment m => some (singleQuoted (momentText m))
  | .date, .moment (.dateTime d _) => some (singleQuoted d.iso)
  | .date, .moment m => some (singleQuoted (momentText m))
  | .time, .moment (.dateTime _ t) => some (singleQuoted t.iso)
  | .time, .moment m => some (singleQuoted (momentText m))
  | .bytes, .bytes data => (String.fromUTF8? ⟨data.toArray⟩).map singleQuoted
  | .identifier, .uuid n => some (singleQuoted (uuidDigits n))
  | _, _ => none

/-- A value written by its own type. -/
def literal? (v : Value) : Option String := (LiteralType.of v).write? v

/-- The items of a list that is not empty, written by the type of the first one. A list among them
would have to name the types of its own items, so there is no type for lists of lists. -/
def literals (vs : List Value) : Except Fault String :=
  match vs with
  | .list _ :: _ | .tuple _ :: _ => .error .noSuchName
  | vs =>
    match vs.head?.bind fun first => vs.mapM (LiteralType.of first).write? with
    | some texts => .ok (commas texts)
    | none => .error .unwritable

end RowGate.Sql
