import RowGate.Access.Rule
import RowGate.Engine.Basic
import RowGate.Json.Reader
import RowGate.Json.Writer
import RowGate.Log
/-!
Permissions kept in a table of a database, as texts in the interchange format. The table is created
when it is used for the first time, and each call goes to the engine: nothing that was read is kept.
-/
namespace RowGate.PermissionTable

/-- What permissions in a table ask of their surroundings. -/
inductive Question where
  | engine (q : Engine.Question)
  /-- Whether the table is known to be there. -/
  | isReady
  /-- Notes that the table is there. -/
  | setReady
  | log (entry : LogEntry)

/-- The answers to a question. -/
abbrev Question.Answer : Question → Type
  | .engine q => q.Answer
  | .isReady => Bool
  | .setReady => Unit
  | .log _ => Unit

/-- A call on permissions in a table. -/
abbrev Storing (α : Type) := Asking Question Question.Answer α

/-- Asks the engine. -/
def engine (q : Engine.Question) : Storing q.Result :=
  ExceptT.mk (Script.once (Question.engine q))

/-- The column with the name of the table that rules are for. -/
def nameColumn : String := "table_name"

/-- The column with the rules. -/
def rulesColumn : String := "permissions"

/-- The column with the time of the last change. -/
def changedColumn : String := "updated_at"

/-- The table with a name. -/
def declared (name : String) : Sql.Table :=
  ⟨none, name, some [nameColumn, rulesColumn, "created_at", changedColumn]⟩

/-- The key of the row for a table. -/
def keyOf (table : String) : Sql.RowKey := ⟨nameColumn, .text table⟩

/-- Creates the table unless it is known to be there. -/
def prepare (t : Sql.Table) : Storing Unit := do
  if ← Asking.ask Question.isReady then return
  else
    engine .begin_
    engine (.create t)
    Asking.ask Question.setReady
    Asking.ask (Question.log
      ⟨.debug, .permissions, "Permissions table " ++ Text.quoted t.name ++ " ready"⟩)

/-- Rules as text; the format has no form for values beyond it. -/
def textOf (p : Permissions) : Except Fault String :=
  match p.toValue.toJson? ⟨fun _ => none, none⟩ with
  | some j => .ok j.render
  | none => .error .wrongType

/-- The rules of a text. -/
def ofText (s : String) : Except Fault Permissions :=
  match Json.parse? s with
  | some j => Permissions.read j.toValue
  | none => .error .unreadable

/-- The rules in a row; a row without a text has none. -/
def ofRow (row : Record) : Except Fault (Option Permissions) :=
  match row.get rulesColumn with
  | .null => .ok none
  | .text s => return some (← ofText s)
  | _ => .error .wrongType

/-- The rules of a table. -/
def get? (t : Sql.Table) (table : String) : Storing (Option Permissions) := do
  prepare t
  engine .connect
  match ← engine (.fetch ⟨t, some rulesColumn, keyOf table⟩) with
  | [] => return none
  | row :: _ => ofRow row

/-- Puts rules for a table, in place of any others: a row is updated or else inserted. -/
def set (t : Sql.Table) (table : String) (p : Permissions) : Storing Unit := do
  prepare t
  let s ← textOf p
  engine .begin_
  let count ← engine (.change (.update t (keyOf table)
    [(rulesColumn, .value (.text s)), (changedColumn, .now)]))
  if count = 0 then
    let _ ← engine (.change (.insert t [(nameColumn, .text table), (rulesColumn, .text s)]))

/-- Removes the rules of a table. -/
def erase (t : Sql.Table) (table : String) : Storing Unit := do
  prepare t
  engine .begin_
  let _ ← engine (.change (.delete t (keyOf table)))

/-! Surroundings for rehearsals. -/

/-- An engine that keeps texts by the names of tables, and what happened at it. -/
structure Rehearsal where
  rows : Entries String
  isReady : Bool
  events : List Engine.Event
  log : List LogEntry

namespace Rehearsal

/-- An engine with some texts. -/
def start (rows : Entries String) : Rehearsal := ⟨rows, false, [], []⟩

/-- The text under a key, if the key is a name. -/
def find? (w : Rehearsal) (k : Sql.RowKey) : Option String :=
  match k.value with
  | .text name => w.rows.get? name
  | _ => none

/-- Puts a text under a name, if both are there. -/
def put (w : Rehearsal) (name text : Value) : Rehearsal :=
  match name, text with
  | .text n, .text s => { w with rows := w.rows.insert n s }
  | _, _ => w

/-- Executes a change and answers how many rows it concerned. -/
def change (w : Rehearsal) : Sql.Change → Int × Rehearsal
  | .insert _ record => (1, w.put (record.get nameColumn) (record.get rulesColumn))
  | .insertAll _ records => (records.length, w)
  | .update _ k values =>
    match w.find? k, values.lookup rulesColumn with
    | some _, some (.value text) => (1, w.put k.value text)
    | some _, _ => (1, w)
    | none, _ => (0, w)
  | .delete _ k =>
    match w.find? k, k.value with
    | some _, .text name => (1, { w with rows := w.rows.erase name })
    | _, _ => (0, w)

/-- Answers a question to the engine. -/
def execute (w : Rehearsal) : (q : Engine.Question) → q.Answer × Rehearsal
  | .connect => (.ok (), w)
  | .begin_ => (.ok (), w)
  | .create _ => (.ok (), w)
  | .select _ => (.ok [], w)
  | .fetch f =>
    (.ok ((w.find? f.key).map fun s => [(rulesColumn, .text s)]).toList, w)
  | .change c => (.ok (w.change c).1, (w.change c).2)
  | .scalar _ => (.ok .null, w)
  | .indexes _ => (.ok [], w)

/-- Answers questions. -/
def answer : Surroundings Question Question.Answer Rehearsal
  | .engine q, w =>
    match q.event with
    | .error f => (.error f, w)
    | .ok e => { w with events := w.events ++ e.toList }.execute q
  | .isReady, w => (w.isReady, w)
  | .setReady, w => ((), { w with isReady := true })
  | .log entry, w => ((), { w with log := w.log ++ [entry] })

/-- Runs a call. -/
def run {α : Type} (w : Rehearsal) (x : Storing α) : Except Fault α × Rehearsal :=
  Asking.runIn answer x w

/-- Forgets what happened. -/
def settled (w : Rehearsal) : Rehearsal := { w with events := [], log := [] }

end Rehearsal
end RowGate.PermissionTable
