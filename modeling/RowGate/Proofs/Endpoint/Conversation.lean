import RowGate.Endpoint.Basic
import RowGate.Proofs.Script.Conversation
/-!
Conversations of endpoints with their surroundings. Main statements: what belongs to the cache or to
the gate is asked for as it is there, and logging neither fails nor changes what a call results in.
-/
namespace RowGate.Endpoint

open Asking

/-- The answers of surroundings where nothing is to be had. -/
def Question.refusal : (q : Question) → q.Answer
  | .access (.log _) | .cache (.log _) | .log _ => ()
  | .access (.holds ..) | .access (.permissions _) | .access (.write _) => .error .unreadable
  | .cache (.store call) => call.fail .unreadable
  | .cache .now => .int 0
  | .engine _ | .plan _ => .error .unreadable

variable {α : Type} {kind : Question → Prop} {h : List (Exchange Question.Answer)}

theorem asksOnly_logAll (hlog : ∀ entry, kind (.log entry)) (es : List LogEntry) :
    AsksOnly kind (logAll es) := by
  induction es with
  | nil => trivial
  | cons e es ih => exact asksOnly_bind ⟨hlog e, fun _ => trivial⟩ fun _ => ih

theorem asksOnly_noting (hlog : ∀ entry, kind (.log entry)) (x : Logged α) :
    AsksOnly kind (noting x) :=
  asksOnly_bind (asksOnly_logAll hlog _) fun _ => asksOnly_lift _

theorem asksOnly_guarding {x : Access.Checking α} (hx : AsksOnly (fun q => kind (.access q)) x) :
    AsksOnly kind (guarding x) :=
  Script.asksOnly_within _ _ hx

theorem asksOnly_caching {x : Cache.Caching α} (hx : AsksOnly (fun q => kind (.cache q)) x) :
    AsksOnly kind (caching x) :=
  Script.asksOnly_within _ _ hx

/-- A call of the cache within a call puts its questions to the cache. -/
theorem talks_caching {x : Cache.Caching α} {r : Except Fault α} (htalk : Talks (caching x) h r) :
    ∃ l : List (Exchange Cache.Question.Answer), Talks x l r ∧
      h = l.map fun y => ⟨.cache y.1, y.2⟩ := by
  obtain ⟨l, hl, hx⟩ := (Script.talks_within Question.cache _).mp htalk
  have hsame : Talks x (l.map id) r := hx
  rw [List.map_id] at hsame
  exact ⟨l, hsame, hl⟩

theorem talks_logAll {es : List LogEntry} {r : Except Fault Unit} (htalk : Talks (logAll es) h r) :
    r = .ok () := by
  induction es generalizing h with
  | nil => exact htalk.2.symm
  | cons e es ih =>
    rcases talks_bind.mp htalk with ⟨g, ⟨_, _, _, _, hg⟩, -⟩ | ⟨_, _, _, _, -, hrest⟩
    · cases hg
    · exact ih hrest

/-- A call that has been logged results in what it resulted in. -/
theorem talks_noting {x : Logged α} {r : Except Fault α} (htalk : Talks (noting x) h r) :
    r = x.run.1 := by
  rcases talks_bind.mp htalk with ⟨g, hfirst, -⟩ | ⟨_, _, _, _, -, hrest⟩
  · cases talks_logAll hfirst
  · exact (talks_lift.mp hrest).2.symm

end RowGate.Endpoint
