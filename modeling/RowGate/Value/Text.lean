import RowGate.Value.Basic
import RowGate.Text.Quoted
import RowGate.Calendar
import RowGate.Json.Token
/-!
The two texts of a value: `shown` as it stands in messages and inside lists, with quotes and type
names; `plain` as it stands on its own, where a text is itself.
-/
namespace RowGate

/-- Names and spellings of shown values. -/
structure Spelling where
  null : String
  yes : String
  no : String
  /-- The set without items, and what stands before the items of any other. -/
  emptySet : String
  setName : String
  foreign : String
  formula : String
  decimalName : String
  uuidName : String
  momentName : String

/-- The spellings in use. -/
def spelling : Spelling where
  null := "None"
  yes := "True"
  no := "False"
  emptySet := "frozenset()"
  setName := "frozenset"
  foreign := "<opaque>"
  formula := "<function>"
  decimalName := "Decimal"
  uuidName := "UUID"
  momentName := "datetime"

/-- Texts with a comma and a blank between them. -/
def commas (xs : List String) : String := String.intercalate ", " xs

/-- A text between braces. -/
def braced (s : String) : String := "\x7b" ++ s ++ "\x7d"

/-- An identifier as 32 hexadecimal digits. -/
def uuidDigits (n : Nat) : String := String.ofList (Json.hex 32 n)

/-- The identifier whose hexadecimal digits a text has; other characters do not count. -/
def uuidOfText (s : String) : Nat :=
  (s.toList.filterMap Json.Token.hexValue?).foldl (fun n d => 16 * n + d) 0

/-- An identifier with its digits in five groups. -/
def uuidText (n : Nat) : String :=
  let ds := Json.hex 32 n
  let part (from_ count : Nat) := String.ofList ((ds.drop from_).take count)
  String.intercalate "-" [part 0 8, part 8 4, part 12 4, part 16 4, part 20 12]

/-- The distance from universal time in a shown time. -/
def shownOffset (seconds : Int) : String :=
  if seconds = 0 then "datetime.timezone.utc"
  else
    let days := seconds.fdiv 86400
    let within := seconds - days * 86400
    let parts := (if days = 0 then [] else ["days=" ++ toString days]) ++
      (if within = 0 then [] else ["seconds=" ++ toString within])
    "datetime.timezone(datetime.timedelta(" ++ commas parts ++ "))"

/-- The arguments of a shown time of day. Seconds and microseconds are left out where nothing
follows but zero. -/
def shownClock (t : TimeOfDay) : List String :=
  let fine := if t.microsecond != 0 then [toString t.second, toString t.microsecond]
    else if t.second != 0 then [toString t.second] else []
  [toString t.hour, toString t.minute] ++ fine ++
    (t.offset.map fun s => "tzinfo=" ++ shownOffset s).toList

/-- A moment as a call that builds it. -/
def Moment.shown : Moment → String
  | .date d => call ".date" [toString d.year, toString d.month, toString d.day]
  | .time t => call ".time" (shownClock t)
  | .dateTime d t =>
    call ".datetime" ([toString d.year, toString d.month, toString d.day] ++ shownClock t)
where
  /-- A name with its arguments. -/
  call (name : String) (args : List String) : String :=
    spelling.momentName ++ name ++ "(" ++ commas args ++ ")"

/-- A number as messages show it. -/
def Number.shown : Number → String
  | .decimal d => spelling.decimalName ++ "(" ++ Text.quoted d.text ++ ")"
  | n => n.text

mutual

/-- A value as messages show it. -/
def Value.shown : Value → String
  | .null => spelling.null
  | .bool b => if b then spelling.yes else spelling.no
  | .number n => n.shown
  | .text s => Text.quoted s
  | .bytes data => Text.quotedBytes data
  | .moment m => m.shown
  | .uuid n => spelling.uuidName ++ "(" ++ Text.quoted (uuidText n) ++ ")"
  | .list items => "[" ++ commas (shownAll items) ++ "]"
  | .tuple items =>
    match shownAll items with
    | [x] => "(" ++ x ++ ",)"
    | xs => "(" ++ commas xs ++ ")"
  | .set items =>
    if items.isEmpty then spelling.emptySet
    else
      spelling.setName ++ "(" ++ braced (commas ((shownAll items).mergeSort (· ≤ ·))) ++ ")"
  | .map fields => braced (commas (shownFields fields))
  | .formula _ => spelling.formula
  | .foreign => spelling.foreign

/-- The shown items of a list. -/
def shownAll : List Value → List String
  | [] => []
  | v :: vs => v.shown :: shownAll vs

/-- The shown fields of a record. -/
def shownFields : List (String × Value) → List String
  | [] => []
  | (k, v) :: fs => (Text.quoted k ++ ": " ++ v.shown) :: shownFields fs

end

/-- A value on its own: texts, decimals, identifiers and moments stand without name and quotes. -/
def Value.plain : Value → String
  | .text s => s
  | .number n => n.text
  | .moment m => m.isoWith " "
  | .uuid n => uuidText n
  | v => v.shown

end RowGate
