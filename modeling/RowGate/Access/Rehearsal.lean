import RowGate.Access.Gate
import RowGate.Access.Rule
/-!
Surroundings of access control for rehearsals: permissions are in a store, an engine for conditions
answers as prepared, and everything that is asked is kept.
-/
namespace RowGate

/-- A prepared answer of an engine to a condition. -/
inductive Prepared where
  | holds
  | fails
  /-- The engine itself fails. -/
  | broken
deriving DecidableEq, Repr

/-- An engine that answers as prepared and keeps the statements that it got. Without a prepared
answer no condition holds. -/
structure ConditionEngine where
  answers : List Prepared
  statements : List Sql.Written

namespace ConditionEngine

/-- The next answer. -/
def reply (e : ConditionEngine) : Except Fault Bool :=
  match e.answers with
  | .holds :: _ => .ok true
  | .broken :: _ => .error .outside
  | _ => .ok false

/-- Executes a statement. -/
def execute (e : ConditionEngine) (s : Sql.Written) : Except Fault Bool × ConditionEngine :=
  (e.reply, ⟨e.answers.tail, e.statements ++ [s]⟩)

end ConditionEngine

namespace Access

/-- The surroundings of access control. -/
structure Rehearsal where
  store : PermissionStore
  /-- The engine for templates, if there is one. -/
  engine : Option ConditionEngine
  /-- The batches that were handed over. -/
  written : List (List Record)
  log : List LogEntry

namespace Rehearsal

/-- Surroundings before anything is asked. -/
def start (store : PermissionStore) (answers : Option (List Prepared)) : Rehearsal :=
  ⟨store, answers.map (⟨·, []⟩), [], []⟩

/-- The statements that the engine got. -/
def statements (w : Rehearsal) : List Sql.Written := (w.engine.map (·.statements)).getD []

/-- Forgets what was asked. -/
def settled (w : Rehearsal) : Rehearsal :=
  { w with
    engine := w.engine.map fun e => { e with statements := [] }
    written := []
    log := [] }

/-- Whether a template holds, as the engine answers. -/
def holds (w : Rehearsal) (template : String) (context row : Record) :
    Except Fault Bool × Rehearsal :=
  match w.engine with
  | none => (.error (.unsupported .noPredicates), w)
  | some e =>
    match Template.statement template context row with
    | .error f => (.error f, w)
    | .ok s =>
      let (answer, e) := e.execute s
      (answer, { w with engine := some e })

/-- Answers questions. A batch that is handed over answers its size. -/
def answer : Surroundings Question Question.Answer Rehearsal
  | .holds template context row, w => w.holds template context row
  | .permissions table, w => (.ok (w.store.get? table), w)
  | .write records, w => (.ok records.length, { w with written := w.written ++ [records] })
  | .log entry, w => ((), { w with log := w.log ++ [entry] })

/-- Runs access control. -/
def run {α : Type} (w : Rehearsal) (x : Checking α) : Except Fault α × Rehearsal :=
  Asking.runIn answer x w

end Rehearsal
end Access
end RowGate
