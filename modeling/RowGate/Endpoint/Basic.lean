import RowGate.Access.Gate
import RowGate.Cache.Basic
import RowGate.Engine.Basic
/-!
Endpoints: where queries and writes are answered by an engine, with a cache in front of it and a gate
behind it. What belongs to the cache or to the gate is asked for in their own words.
-/
namespace RowGate

/-- Where the plans of statements come from. -/
inductive Planner where
  | absent
  /-- The application gives them. -/
  | application
  /-- The engine describes them. -/
  | engine
deriving DecidableEq, Repr

/-- A place where queries and writes are answered. -/
structure Endpoint where
  config : Config
  /-- The settings of the gate, if there is one. -/
  gate : Option Config
  /-- The settings of the cache, if there is one. -/
  cache : Option Config
  catalog : Sql.Catalog
  planner : Planner
  /-- The column by which rows are updated and deleted. -/
  keyColumn : String

namespace Endpoint

/-- What an endpoint asks of its surroundings. -/
inductive Question where
  | access (q : Access.Question)
  | cache (q : Cache.Question)
  | engine (q : Engine.Question)
  /-- The plan of a statement. -/
  | plan (s : Sql.Select)
  | log (entry : LogEntry)

/-- The answers to a question. -/
abbrev Question.Answer : Question → Type
  | .access q => q.Answer
  | .cache q => q.Answer
  | .engine q => q.Answer
  | .plan _ => Except Fault Value
  | .log _ => Unit

/-- A call of an endpoint. -/
abbrev Serving (α : Type) := Asking Question Question.Answer α

variable {α : Type}

/-- Access control within a call. -/
def guarding (x : Access.Checking α) : Serving α := x.within Question.access fun _ a => a

/-- A call of the cache within a call. -/
def caching (x : Cache.Caching α) : Serving α := x.within Question.cache fun _ a => a

/-- Asks the engine. -/
def engine (q : Engine.Question) : Serving q.Result :=
  ExceptT.mk (Script.once (Question.engine q))

/-- Asks for the plan of a statement. -/
def planOf (s : Sql.Select) : Serving Value := ExceptT.mk (Script.once (Question.plan s))

/-- Writes entries of the log. -/
def logAll : List LogEntry → Serving Unit
  | [] => return
  | e :: es => do
    let _ ← (Asking.ask (Question.log e) : Serving Unit)
    logAll es

/-- Writes an entry of the log. -/
def log (level : Level) (message : String) : Serving Unit := logAll [⟨level, .endpoint, message⟩]

/-- A pure call with what it logs. -/
def noting (x : Logged α) : Serving α := do
  logAll x.run.2
  x.run.1

variable (e : Endpoint)

/-- Refuses a table that is not listed, where tables are checked and some are listed. -/
def checkTable (table operation : String) : Except Fault Unit :=
  let c := e.config
  if c.checkTables.truthy && !c.validTables.isEmpty &&
      !c.validTables.any (·.same (.text table)) then
    .error (.notAllowed table operation (some ("Invalid table name \"" ++ table ++ "\"")))
  else .ok ()

/-- The gate and the user that it is asked for. Without a gate, without a user, or where nothing is
enforced, there is none. -/
def gateFor (user : Option User) : Option (Config × User) :=
  match e.gate, user with
  | some c, some u => if e.config.enforce.truthy then some (c, u) else none
  | _, _ => none

end Endpoint
end RowGate
