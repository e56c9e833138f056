import RowGate.Endpoint.Basic
/-!
Writes at an endpoint. Records are judged before they are inserted. Rows that are updated are judged
as they are and as they will be; rows that are deleted, as they are. What is not allowed in full is
refused, or left undone.
-/
namespace RowGate.Endpoint

/-- A record with something in it. -/
def recordIn (v : Value) : Except Fault Record :=
  match v with
  | .map [] => .error (.violation .badBody)
  | .map r => .ok r
  | _ => .error (.violation .badBody)

/-- The records of a request; there has to be one. -/
def recordsIn (v : Value) : Except Fault (List Record) :=
  match v with
  | .text _ | .bytes _ => .error (.violation .badBody)
  | v =>
    if v.truthy then
      match v.items? with
      | some vs => vs.mapM recordIn
      | none => .error .wrongType
    else .error (.violation .badBody)

variable (e : Endpoint)

/-- The table of a path. -/
def tableOf (path : String) : Sql.Table := .ofPath e.catalog path

/-- The rows under a key value. -/
def fetch (table : String) (id : Value) : Serving (List Record) := do
  let t := e.tableOf table
  let k ← t.key e.keyColumn id
  engine .connect
  engine (.fetch ⟨t, none, k⟩)

/-- The records that a user may write. -/
def writable (table operation : String) (records : List Record) (user : Option User) :
    Serving (List Record) :=
  match e.gateFor user with
  | some (c, u) => guarding (Access.authorizeWrite c table operation records u)
  | none => return records

/-- Inserts records and answers those that were inserted. -/
def insert (table : String) (body : Value) (user : Option User) : Serving (List Record) := do
  e.checkTable table "INSERT"
  let records ← recordsIn body
  let allowed ← e.writable table "INSERT" records user
  if allowed.isEmpty then return []
  else
    engine .begin_
    let _ ← engine (.change (.insertAll (e.tableOf table) allowed))
    log .debug ("Inserted " ++ toString allowed.length ++ " record(s) into " ++ Text.quoted table)
    return allowed

/-- Rows as an update will leave them. Where there are none yet, the data under the key value. -/
def proposed (id : Value) (data : Record) (existing : List Record) : List Record :=
  if existing.isEmpty then [Record.overlay [(e.keyColumn, id)] data]
  else existing.map fun row => row.overlay data

/-- Whether all of some rows may be updated. -/
def allUpdatable (c : Config) (u : User) (table : String) (rows : List Record) : Serving Bool := do
  if rows.isEmpty then return true
  else
    let allowed ← guarding (Access.authorizeWrite c table "UPDATE" rows u)
    return !(allowed.length < rows.length)

/-- Whether a user may update the rows under a key value. -/
def mayUpdate (table : String) (id : Value) (data : Record) (user : Option User) :
    Serving Bool := do
  match e.gateFor user with
  | none => return true
  | some (c, u) =>
    let existing ← e.fetch table id
    if ← allUpdatable c u table existing then
      allUpdatable c u table (e.proposed id data existing)
    else return false

/-- Updates the rows under a key value and answers how many there were. -/
def update (table : String) (id body : Value) (user : Option User) : Serving Int := do
  e.checkTable table "UPDATE"
  let data ← recordIn body
  if ← e.mayUpdate table id data user then
    let t := e.tableOf table
    let k ← t.key e.keyColumn id
    engine .begin_
    engine (.change (.update t k (data.map fun (c, v) => (c, .value v))))
  else return 0

/-- Whether a user may delete the rows under a key value. A user who is judged may delete no row that
is not there. -/
def mayDelete (table : String) (id : Value) (user : Option User) : Serving Bool := do
  match e.gateFor user with
  | none => return true
  | some (c, u) =>
    let existing ← e.fetch table id
    let allowed ← guarding (Access.authorizeWrite c table "DELETE" existing u)
    return !allowed.isEmpty && !(allowed.length < existing.length)

/-- Deletes the rows under a key value and answers how many there were. -/
def delete (table : String) (id : Value) (user : Option User) : Serving Int := do
  e.checkTable table "DELETE"
  if ← e.mayDelete table id user then
    let t := e.tableOf table
    let k ← t.key e.keyColumn id
    engine .begin_
    engine (.change (.delete t k))
  else return 0

end RowGate.Endpoint
