import RowGate.Cache.Basic
import RowGate.KeyValue.Memory
import RowGate.Clock
/-!
Surroundings of the cache for rehearsals: a store in memory, or one that fails at every call, and a
clock that moves when told to.
-/
namespace RowGate.Cache

/-- A store for rehearsals. -/
inductive Backend where
  | memory (m : KeyValue.Memory)
  | failing

namespace Backend

/-- Answers a call at a time. -/
def answer (now : Number) (c : KeyValue.Call) : Backend → c.Answer × Backend
  | .memory m => ((m.answer now c).1, .memory (m.answer now c).2)
  | .failing => (c.fail .outside, .failing)

/-- The number of texts and sets held by a store that does not fail. -/
def size? : Backend → Option Nat
  | .memory m => some m.size
  | .failing => none

end Backend

/-- The surroundings of the cache. -/
structure Rehearsal where
  store : Backend
  clock : Clock
  log : List LogEntry

namespace Rehearsal

/-- Answers questions. -/
def answer : Surroundings Question Question.Answer Rehearsal
  | .store call, w =>
    ((w.store.answer w.clock.now call).1,
      { w with store := (w.store.answer w.clock.now call).2 })
  | .now, w => (w.clock.now, w)
  | .log entry, w => ((), { w with log := w.log ++ [entry] })

/-- Runs a call of the cache. -/
def run {α : Type} (w : Rehearsal) (x : Caching α) : Except Fault α × Rehearsal :=
  Asking.runIn answer x w

/-- Forgets the log. -/
def settled (w : Rehearsal) : Rehearsal := { w with log := [] }

end Rehearsal
end RowGate.Cache
