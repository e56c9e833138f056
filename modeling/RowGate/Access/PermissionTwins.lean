import RowGate.Access.PermissionTable
/-!
Permissions in memory and in a table of a database, side by side: both are given the same calls.
-/
namespace RowGate

/-- A call on permissions. -/
inductive PermissionCall where
  | get (table : String)
  | set (table : String) (p : Permissions)
  | erase (table : String)

/-- Carries out a call on permissions in memory. Only a question for rules is answered with any. -/
def PermissionStore.answer (s : PermissionStore) : PermissionCall → Option Permissions × PermissionStore
  | .get table => (s.get? table, s)
  | .set table p => (none, s.insert table p)
  | .erase table => (none, s.erase table)

namespace PermissionTable

/-- A call on permissions in a table. -/
def perform (t : Sql.Table) : PermissionCall → Storing (Option Permissions)
  | .get table => get? t table
  | .set table p => do
    set t table p
    return none
  | .erase table => do
    erase t table
    return none

/-- Surroundings with an engine. Whether the table is known to be there is kept beside its state. -/
def withEngine {σ : Type} (w : Surroundings Engine.Question Engine.Question.Answer σ) :
    Surroundings Question Question.Answer (Bool × σ)
  | .engine q, (isReady, s) => ((w q s).1, (isReady, (w q s).2))
  | .isReady, (isReady, s) => (isReady, (isReady, s))
  | .setReady, (_, s) => ((), (true, s))
  | .log _, s => ((), s)

/-- Permissions in memory, and a table in an engine. -/
structure Twins (σ : Type) where
  memory : PermissionStore
  /-- Whether the table is known to be there, and the state of the engine. -/
  table : Bool × σ

namespace Twins

variable {σ : Type}

/-- Nothing is held in memory, and the table has not been used yet. -/
def start (s : σ) : Twins σ := ⟨.empty, (false, s)⟩

variable (w : Surroundings Engine.Question Engine.Question.Answer σ) (t : Sql.Table)

/-- What a call on the table answers. -/
def stored (twins : Twins σ) (c : PermissionCall) : Except Fault (Option Permissions) × (Bool × σ) :=
  (perform t c).runIn (withEngine w) twins.table

/-- Both after a call. -/
def step (twins : Twins σ) (c : PermissionCall) : Twins σ :=
  ⟨(twins.memory.answer c).2, (twins.stored w t c).2⟩

/-- Both after one call behind the other. -/
def after (twins : Twins σ) (calls : List PermissionCall) : Twins σ := calls.foldl (step w t) twins

end Twins
end PermissionTable
end RowGate
