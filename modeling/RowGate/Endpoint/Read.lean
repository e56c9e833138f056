import RowGate.Endpoint.Basic
import RowGate.Json.Reader
import RowGate.Plan.Compile
import RowGate.Query.Params
import RowGate.Review.Limits
import RowGate.Review.Suggestion
import RowGate.Rows.Transform
import RowGate.Sql.Perform
/-!
Queries at an endpoint. A query is checked, its rows are taken from the cache or from the engine, the
gate drops rows or refuses them all, and what is left is transformed. Cached rows are those of the
engine, so that each user is judged anew.
-/
namespace RowGate.Endpoint

/-- A query as it reaches an endpoint. -/
inductive Request where
  /-- A query that has not been read; what counts as false is an empty one. -/
  | wire (v : Value)
  | read (q : Query)

/-- The query of a request. -/
def Request.query (c : Config) : Request → Except Fault Query
  | .wire v => Query.read (some c.defaultLimit) (if v.truthy then v else .map [])
  | .read q => .ok q

/-- The rows in a value. -/
def rowsIn (v : Value) : List Record :=
  (v.items?.getD []).filterMap fun
    | .map row => some row
    | _ => none

/-- A plan as a value; a text holds it in the interchange format. -/
def readPlan (v : Value) : Except Fault Value :=
  match v with
  | .text s =>
    match Json.parse? s with
    | some j => .ok j.toValue
    | none => .error .unreadable
  | v => .ok v

/-- What asks the engine for the plan of a statement. -/
def describing (sql : String) : String := "EXPLAIN (FORMAT JSON) " ++ sql

/-- The columns of indexes, without expressions and empty names. -/
def columnsOf (indexes : List (List (Option String))) : List String :=
  indexes.flatten.filterMap fun c => c.filter (!·.isEmpty)

variable (e : Endpoint)

/-- The statement for a query. -/
def statement (table : String) (q : Query) : Serving Sql.Select :=
  noting do Sql.build e.catalog table (← q.compile)

/-- The plan of a statement, if there is a planner. -/
def plan? (s : Sql.Select) : Serving (Option Value) := do
  match e.planner with
  | .absent => return none
  | .application => return some (← planOf s)
  | .engine => return some (← readPlan (← engine (.scalar (describing (← s.written .inline).sql))))

/-- The plan of a statement with the indexed columns of its table. -/
def survey (table : String) (s : Sql.Select) : Serving (Option (Value × List String)) := do
  match ← e.plan? s with
  | none => return none
  | some plan => return some (plan, columnsOf (← engine (.indexes table)))

/-- The advice on a query. Where the plan or the indexes are not to be had, there is none and the log
says so. -/
def advice (table : String) (q : Query) (s : Sql.Select) : Serving (List String) := do
  match ← (e.survey table s).outcome with
  | .error _ =>
    log .warning ("Could not analyse plan for " ++ Text.quoted table)
    return []
  | .ok none => return []
  | .ok (some (plan, indexed)) =>
    return (← noting (q.suggestions e.config indexed .null plan)).map (·.message)

/-- Puts the advice on a query into the log, if the query asks for advice. -/
def advise (table : String) (q : Query) (s : Sql.Select) : Serving Unit := do
  if q.limits.any (·.suggestions) then
    let advice ← e.advice table q s
    if !advice.isEmpty then
      log .warning ("Query optimization suggestions for " ++ Text.quoted table ++ ": " ++
        String.intercalate "; " advice)

/-- The rows of a query from the engine. -/
def execute (table : String) (q : Query) : Serving (List Record) := do
  let s ← e.statement table q
  engine .connect
  e.advise table q s
  engine (.select s)

/-- The settings of the cache for a query, if there is a cache and the query wants it. -/
def cacheFor (q : Query) : Option Config := if q.cache.isSome then e.cache else none

/-- The rows of a query from the cache, or else from the engine; those go into the cache. -/
def rows (table : String) (q : Query) : Serving (List Record) := do
  match e.cacheFor q with
  | none => e.execute table q
  | some c =>
    match ← caching (Cache.get c (.query q) table) with
    | some v =>
      log .debug ("Cache hit for " ++ Text.quoted table)
      return rowsIn v
    | none =>
      let rows ← e.execute table q
      let _ ← caching (Cache.set c (.query q) (.list (rows.map .map)) .null .null table)
      return rows

/-- The rows that a user may see. -/
def visible (table : String) (rows : List Record) (user : Option User) : Serving (List Record) :=
  match e.gateFor user with
  | some (c, u) => guarding (Access.authorizeRows c table "SELECT" rows u)
  | none => return rows

/-- Rows as a query wants them. -/
def transformed (q : Query) (rows : List Record) : Except Fault (List Record) :=
  match q.transforms with
  | some t => t.apply rows
  | none => .ok rows

/-- Answers a query. -/
def query (table : String) (r : Request) (user : Option User) : Serving (List Record) := do
  e.checkTable table "SELECT"
  let q ← r.query e.config
  q.check none
  let rows ← e.rows table q
  transformed q (← e.visible table rows user)

/-- The advice on a query that is not executed. -/
def suggest (table : String) (r : Request) : Serving (List String) := do
  let q ← r.query e.config
  let s ← e.statement table q
  engine .connect
  e.advice table q s

/-- The table of a web request: a fixed one, or one that the path names. -/
def tableIn (fixed : Option String) (param : String) (path : Record) : Except Fault String :=
  match fixed, path.get? param with
  | some table, _ => .ok table
  | none, some v => .ok v.plain
  | none, none => .error (.missingKey (.text param))

/-- Answers a web request: the query is in its parameters. -/
def web (fixed : Option String) (param : String) (path parameters : Record) (user : Option User) :
    Serving (List Record) := do
  let table ← tableIn fixed param path
  e.query table (.read (← Query.ofParams (some e.config.defaultLimit) parameters)) user

end RowGate.Endpoint
