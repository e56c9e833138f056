import RowGate.Sql.Writer
import RowGate.Text.Basic
/-!
Templates of conditions: text with names behind colons. A name that starts with `row_` stands for a
field of the row, any other for a value of the user.
-/
namespace RowGate.Template

/-- First characters of a placeholder. -/
def startsName (c : Char) : Bool := c.isAlpha || c == '_'

/-- Further characters of a placeholder. -/
def continuesName (c : Char) : Bool := c.isAlphanum || c == '_'

/-- The placeholders of a text in order, repetitions included. -/
def namesFrom (before : Option Char) : List Char → List String
  | [] => []
  | c :: rest =>
    (if c == ':' && Sql.opensAfter before && rest.head?.any startsName then
      [String.ofList (rest.takeWhile continuesName)]
    else []) ++ namesFrom (some c) rest

/-- The placeholders of a template, each once, in the order of their first occurrences. -/
def names (template : String) : List String := Text.distinct (namesFrom none template.toList)

/-- What the names of fields start with. -/
def rowMark : String := "row_"

/-- Whether a placeholder stands for a field of the row. -/
def isRowName (name : String) : Bool := rowMark.toList.isPrefixOf name.toList

/-- The values of the user that a template asks for. -/
def contextNames (template : String) : List String := (names template).filter (!isRowName ·)

/-- The fields of the row that a template asks for. -/
def rowFields (template : String) : List String :=
  ((names template).filter isRowName).map fun n =>
    String.ofList (n.toList.drop rowMark.toList.length)

/-- The values of the user that a template is bound to. -/
def contextBindings (context : Record) : List String → Except Fault (List Sql.RawBinding)
  | [] => .ok []
  | n :: rest =>
    match context.get? n with
    | some v => do return Sql.rawBinding n v :: (← contextBindings context rest)
    | none => .error (.missingKey (.text n))

/-- A template as a statement that has a row where the template holds. Values are parameters, and a
parameter without a value is null. -/
def statement (template : String) (context row : Record) : Except Fault Sql.Written := do
  let users ← contextBindings context (contextNames template)
  let fields := (rowFields template).map fun f =>
    (⟨rowMark ++ f, row.get f, false⟩ : Sql.RawBinding)
  let text := ("SELECT 1 WHERE (" ++ template ++ ")").toList
  let declared := Text.distinct (Sql.declaredNames none text)
  if (users ++ fields).all (declared.contains ·.name) then
    let unbound := (declared.filter fun n => !((users ++ fields).any (·.name == n))).map fun n =>
      (⟨n, .null, false⟩ : Sql.RawBinding)
    return (⟨text, users ++ fields ++ unbound⟩ : Sql.RawText).written
  else .error .badArgument

end RowGate.Template
