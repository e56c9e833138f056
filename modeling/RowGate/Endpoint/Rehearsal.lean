import RowGate.Access.Rehearsal
import RowGate.Cache.Rehearsal
import RowGate.Endpoint.Basic
import RowGate.Engine.Rehearsal
/-!
Surroundings of an endpoint for rehearsals: those of access control and of the cache, an engine that
answers as prepared, and one log for all of them.
-/
namespace RowGate.Endpoint

/-- The surroundings of an endpoint. -/
structure Rehearsal where
  access : Access.Rehearsal
  cache : Cache.Rehearsal
  engine : Engine.Rehearsal
  /-- The plan of every statement. -/
  plan : Except Fault Value
  log : List LogEntry

namespace Rehearsal

/-- Moves the entries of the parts into the one log. -/
def gathered (w : Rehearsal) : Rehearsal :=
  { w with
    access := { w.access with log := [] }
    cache := { w.cache with log := [] }
    log := w.log ++ w.access.log ++ w.cache.log }

/-- Answers questions. -/
def answer : Surroundings Question Question.Answer Rehearsal
  | .access q, w =>
    let (a, access) := Access.Rehearsal.answer q w.access
    (a, { w with access }.gathered)
  | .cache q, w =>
    let (a, cache) := Cache.Rehearsal.answer q w.cache
    (a, { w with cache }.gathered)
  | .engine q, w =>
    let (a, engine) := w.engine.answer q
    (a, { w with engine })
  | .plan _, w => (w.plan, w)
  | .log entry, w => ((), { w with log := w.log ++ [entry] })

/-- Runs a call. -/
def run {α : Type} (w : Rehearsal) (x : Serving α) : Except Fault α × Rehearsal :=
  Asking.runIn answer x w

/-- Forgets what happened, and prepares rows and counts for the next call. -/
def prepared (w : Rehearsal) (results : List (Except Fault (List Record))) (count : Int) :
    Rehearsal :=
  { w with
    access := w.access.settled
    engine := { w.engine with results, count, events := [] }
    log := [] }

end Rehearsal
end RowGate.Endpoint
