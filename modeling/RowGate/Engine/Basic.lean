import RowGate.Script
import RowGate.Sql.Change
/-!
The engine that executes statements: what it is asked, and the events that a request leaves behind.
Each request is one step. A statement that cannot be written is refused and leaves no event.
-/
namespace RowGate.Engine

/-- What an engine is asked. -/
inductive Question where
  /-- Opens a connection. -/
  | connect
  /-- Opens a transaction. -/
  | begin_
  | create (t : Sql.Table)
  | select (s : Sql.Select)
  | fetch (f : Sql.Fetch)
  | change (c : Sql.Change)
  /-- Executes a text as it stands and answers a single value. -/
  | scalar (sql : String)
  /-- The columns of the indexes of a table; an expression in an index has no column. -/
  | indexes (table : String)

/-- What an engine answers if it does not fail. -/
abbrev Question.Result : Question → Type
  | .connect | .begin_ | .create _ => Unit
  | .select _ | .fetch _ => List Record
  | .change _ => Int
  | .scalar _ => Value
  | .indexes _ => List (List (Option String))

/-- The answers to a question. -/
abbrev Question.Answer (q : Question) : Type := Except Fault q.Result

/-- What happens at an engine. -/
inductive Event where
  | connect
  | begin_
  | create (table : String)
  | statement (w : Sql.Written)
  | batch (sql : String) (records : List Record)
  | text (sql : String)

/-- The event of a change. -/
def ofChange (c : Sql.Change) : Except Fault Event := do
  let w ← c.written
  match c with
  | .insertAll _ records => return .batch w.sql records
  | _ => return .statement w

/-- The event that a question leaves behind, if it leaves one. -/
def Question.event : Question → Except Fault (Option Event)
  | .connect => .ok (some .connect)
  | .begin_ => .ok (some .begin_)
  | .create t => .ok (some (.create t.name))
  | .select s => return some (.statement (← s.written .bound))
  | .fetch f => return some (.statement (← f.select.written .bound))
  | .change c => return some (← ofChange c)
  | .scalar sql => .ok (some (.text sql))
  | .indexes _ => .ok none

end RowGate.Engine
