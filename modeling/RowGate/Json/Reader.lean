import RowGate.Json.Token
/-!
Interchange values read from their lexemes by a machine with a stack of open lists and objects.
-/
namespace RowGate.Json

/-- A list or object under way. -/
inductive Frame where
  /-- The items so far, last first. -/
  | list (items : List Json)
  /-- The fields so far, and the key whose value comes next. -/
  | object (fields : List (String × Json)) (key : String)

/-- What may come next. -/
inductive Phase where
  | value
  | valueOrEnd
  | key
  | keyOrEnd
  | colon
  /-- A comma or the end of the innermost frame. -/
  | rest
  | finished (result : Json)

/-- A value is complete: it goes into the innermost frame, or is the result. -/
def accept (v : Json) : List Frame → Phase × List Frame
  | [] => (.finished v, [])
  | .list items :: frames => (.rest, .list (v :: items) :: frames)
  | .object fields key :: frames => (.rest, .object (putField fields key v) key :: frames)

/-- The start of a value. -/
def begin? (frames : List Frame) : Token → Option (Phase × List Frame)
  | .openList => some (.valueOrEnd, .list [] :: frames)
  | .openObject => some (.keyOrEnd, .object [] "" :: frames)
  | .atom v => some (accept v frames)
  | _ => none

/-- The end of the innermost frame. -/
def close? : List Frame → Token → Option (Phase × List Frame)
  | .list items :: frames, .closeList => some (accept (.list items.reverse) frames)
  | .object fields _ :: frames, .closeObject => some (accept (.object fields) frames)
  | _, _ => none

/-- One step of the machine. -/
def step : Phase × List Frame → Token → Option (Phase × List Frame)
  | (.value, frames), t => begin? frames t
  | (.valueOrEnd, frames), t => (close? frames t).or (begin? frames t)
  | (.key, .object fields _ :: frames), .atom (.text k) => some (.colon, .object fields k :: frames)
  | (.keyOrEnd, .object fields _ :: frames), .atom (.text k) =>
    some (.colon, .object fields k :: frames)
  | (.keyOrEnd, frames), t => close? frames t
  | (.colon, frames), .colon => some (.value, frames)
  | (.rest, .list items :: frames), .comma => some (.value, .list items :: frames)
  | (.rest, .object fields k :: frames), .comma => some (.key, .object fields k :: frames)
  | (.rest, frames), t => close? frames t
  | _, _ => none

/-- The value a text stands for, if it is one value and nothing else. -/
def parse? (s : String) : Option Json := do
  let tokens ← Token.lex? s.toList
  match ← tokens.foldlM step (.value, []) with
  | (.finished v, _) => some v
  | _ => none

end RowGate.Json
