import RowGate.KeyValue.Redis
import RowGate.Proofs.Script.Conversation
/-!
Calls of a store as commands of a server. Main statements: a text that is found is a reply of the
server, and a command puts a text only for the call that puts it.
-/
namespace RowGate.KeyValue.Redis

open Asking

/-- The text that a command puts, with its key. -/
def Command.put? : Command → Option (String × String)
  | .set key value | .setEx key _ value => some (key, value)
  | _ => none

/-- A command puts what a call puts, or nothing. -/
def Command.Serves (call : Call) (c : Command) : Prop :=
  ∀ key value, c.put? = some (key, value) → ∃ ttl, call = .set key value ttl

theorem talks_send {c : Command} {l : List (Exchange Command.Answer)}
    {r : Except Fault c.Answer} : Talks (send c) l r ↔ ∃ a, l = [⟨c, a⟩] ∧ r = .ok a := by
  constructor
  · rintro ⟨a, rest, rfl, rfl, rfl⟩
    exact ⟨a, rfl, rfl⟩
  · rintro ⟨a, rfl, rfl⟩
    exact ⟨a, [], rfl, rfl, rfl⟩

/-- A text that is found is the one reply of the server. -/
theorem talks_perform_get {key text : String} {l : List (Exchange Command.Answer)}
    (h : (perform (.get key)).Talks l (.ok (some text))) :
    ∃ reply, l = [⟨.get key, some reply⟩] ∧ reply.read = .ok text := by
  have htalk : Talks (get key) l (.ok (some text)) := h
  obtain ⟨l₁, l₂, found, rfl, hsend, hrest⟩ := talks_bind_ok htalk
  obtain ⟨a, rfl, hfound⟩ := talks_send.mp hsend
  obtain rfl : found = a := Except.ok.inj hfound
  cases found with
  | none => cases hrest.2
  | some reply =>
    obtain ⟨l₃, l₄, s, rfl, hread, hdone⟩ := talks_bind_ok hrest
    obtain ⟨rfl, hreply⟩ := talks_lift.mp hread
    obtain ⟨rfl, hs⟩ := talks_pure.mp hdone
    obtain rfl : s = text := Option.some.inj (Except.ok.inj hs)
    exact ⟨reply, rfl, hreply⟩

variable {call : Call}

theorem asksOnly_send {c : Command} (hc : c.Serves call) : AsksOnly (Command.Serves call) (send c) :=
  ⟨hc, fun _ => trivial⟩

theorem asksOnly_prolong (key : String) (ttl : Number) :
    AsksOnly (Command.Serves call) (prolong key ttl) := by
  refine asksOnly_bind (asksOnly_lift _) fun seconds => ?_
  refine asksOnly_bind (asksOnly_send nofun) fun left => ?_
  split
  · exact asksOnly_send nofun
  · exact asksOnly_pure _

/-- A call sends only commands that serve it. -/
theorem asksOnly_perform (call : Call) : (perform call).AsksOnly (Command.Serves call) := by
  cases call with
  | get key =>
    refine asksOnly_bind (asksOnly_send nofun) fun found => ?_
    cases found with
    | none => exact asksOnly_pure _
    | some reply => exact asksOnly_bind (asksOnly_lift _) fun _ => asksOnly_pure _
  | set key value ttl =>
    cases ttl with
    | none =>
      refine asksOnly_send fun k v h => ?_
      cases h
      exact ⟨none, rfl⟩
    | some t =>
      refine asksOnly_bind (asksOnly_lift _) fun seconds => asksOnly_send fun k v h => ?_
      cases h
      exact ⟨some t, rfl⟩
  | delete keys =>
    change AsksOnly _ (delete keys)
    unfold delete
    split
    · exact asksOnly_send nofun
    · exact asksOnly_pure _
  | addToSet key members ttl =>
    change AsksOnly _ (addToSet key members ttl)
    unfold addToSet
    split
    · refine asksOnly_bind (asksOnly_send nofun) fun _ => ?_
      cases ttl with
      | none => exact asksOnly_pure _
      | some t => exact asksOnly_prolong key t
    · exact asksOnly_pure _
  | members key =>
    refine asksOnly_bind (asksOnly_send nofun) fun replies => ?_
    exact asksOnly_bind (asksOnly_mapM fun _ => asksOnly_lift _) fun _ => asksOnly_pure _

end RowGate.KeyValue.Redis
