import RowGate.Engine.Basic
/-!
An engine for rehearsals: it answers as prepared and keeps what happened at it.
-/
namespace RowGate.Engine

/-- An engine that answers as prepared. -/
structure Rehearsal where
  /-- The rows for the next selections; an engine may fail at one. Later selections find nothing. -/
  results : List (Except Fault (List Record))
  /-- How many rows each change concerns. -/
  count : Int
  /-- The answer to a text. -/
  scalar : Value
  /-- The columns of indexes by table; without it, indexes are not to be had. -/
  indexes : Option (List (String × List (List (Option String))))
  events : List Event

namespace Rehearsal

/-- The next rows. -/
def rows (w : Rehearsal) : Except Fault (List Record) × Rehearsal :=
  (w.results.headD (.ok []), { w with results := w.results.tail })

/-- The answer to a question that left its event behind. -/
def execute (w : Rehearsal) : (q : Question) → q.Answer × Rehearsal
  | .connect => (.ok (), w)
  | .begin_ => (.ok (), w)
  | .create _ => (.ok (), w)
  | .select _ => w.rows
  | .fetch _ => w.rows
  | .change _ => (.ok w.count, w)
  | .scalar _ => (.ok w.scalar, w)
  | .indexes table =>
    match w.indexes with
    | some known => (.ok ((known.lookup table).getD []), w)
    | none => (.error .outside, w)

/-- Answers questions. -/
def answer (q : Question) (w : Rehearsal) : q.Answer × Rehearsal :=
  match q.event with
  | .error f => (.error f, w)
  | .ok e => { w with events := w.events ++ e.toList }.execute q

end Rehearsal
end RowGate.Engine
