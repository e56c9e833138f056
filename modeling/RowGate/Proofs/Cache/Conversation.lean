import RowGate.Cache.Basic
import RowGate.Proofs.Script.Conversation
/-!
Conversations of the cache with its store. Main statements: what is read from the cache is the data
of a text under the key that was asked for, and what is put into the store is the given data under
that key.
-/
namespace RowGate.Cache

open Asking

/-- Questions that put nothing into the store but texts of a kind. -/
def Question.PutsOnly (put : String → String → Prop) : Question → Prop
  | .store (.set key text _) => put key text
  | _ => True

variable {put : String → String → Prop} {α : Type}

theorem asksOnly_log (level : Level) (message : String) :
    AsksOnly (Question.PutsOnly put) (log level message) := ⟨trivial, fun _ => trivial⟩

theorem asksOnly_now : AsksOnly (Question.PutsOnly put) now := ⟨trivial, fun _ => trivial⟩

theorem asksOnly_attempt {x : Caching α} {message : String} {otherwise : α}
    (hx : AsksOnly (Question.PutsOnly put) x) :
    AsksOnly (Question.PutsOnly put) (attempt x message otherwise) := by
  refine asksOnly_bind (asksOnly_outcome hx) fun y => ?_
  cases y with
  | ok a => exact asksOnly_pure a
  | error g => exact asksOnly_bind (asksOnly_log _ _) fun _ => asksOnly_pure _

theorem asksOnly_read (key : String) : AsksOnly (Question.PutsOnly put) (read key) := by
  refine asksOnly_bind ⟨trivial, fun _ => trivial⟩ fun found => ?_
  cases found with
  | none => exact asksOnly_pure _
  | some text =>
    refine asksOnly_bind asksOnly_now fun t => asksOnly_bind (asksOnly_lift _) fun content => ?_
    cases content with
    | data v => exact asksOnly_pure _
    | ended =>
      refine asksOnly_bind ⟨trivial, fun _ => trivial⟩ fun _ => ?_
      exact asksOnly_bind (asksOnly_log _ _) fun _ => asksOnly_pure _

/-- Reading puts nothing. -/
theorem asksOnly_get (c : Config) (target : Target) (scope : String) :
    AsksOnly (Question.PutsOnly put) (get c target scope) :=
  asksOnly_bind (asksOnly_lift _) fun key => asksOnly_attempt (asksOnly_read key)

theorem asksOnly_enterAll (c : Config) (key : String) (ttl : Number) (tags : List Value) :
    AsksOnly (Question.PutsOnly put) (enterAll c key ttl tags) := by
  induction tags with
  | nil => exact asksOnly_pure ()
  | cons tag rest ih =>
    refine asksOnly_bind (asksOnly_lift _) fun set => ?_
    exact asksOnly_bind ⟨trivial, fun _ => trivial⟩ fun _ => ih

theorem asksOnly_write {c : Config} {key : String} {data : Value} (ttl : Number) (tags : Value)
    (hput : ∀ ends text, enclose ends data = .ok text → put key text) :
    AsksOnly (Question.PutsOnly put) (write c key data ttl tags) := by
  refine asksOnly_bind asksOnly_now fun t => asksOnly_bind (asksOnly_lift _) fun ends => ?_
  refine asksOnly_bind_lift fun text htext => ?_
  refine asksOnly_bind ⟨hput ends text htext, fun _ => trivial⟩ fun _ => ?_
  refine asksOnly_bind (asksOnly_lift _) fun ts => ?_
  exact asksOnly_bind (asksOnly_enterAll c key ttl ts) fun _ => asksOnly_pure _

/-- Caching puts the data under the key of the target. -/
theorem asksOnly_set {c : Config} {target : Target} {data : Value} (ttl tags : Value)
    {scope : String}
    (hput : ∀ key ends text, target.key c scope = .ok key → enclose ends data = .ok text →
      put key text) :
    AsksOnly (Question.PutsOnly put) (set c target data ttl tags scope) := by
  refine asksOnly_bind (asksOnly_lift _) fun wanted => ?_
  split
  · exact asksOnly_pure _
  refine asksOnly_bind (asksOnly_lift _) fun time => ?_
  cases time with
  | none => exact asksOnly_pure _
  | some t =>
    refine asksOnly_bind_lift fun key hkey => asksOnly_attempt ?_
    exact asksOnly_write t _ fun ends text => hput key ends text hkey

variable {h : List (Exchange Question.Answer)} {v : Value}

theorem talks_read {key : String} (htalk : Talks (read key) h (.ok (some v))) :
    ∃ text t, ⟨.store (.get key), .ok (some text)⟩ ∈ h ∧ contentOf t text = .ok (.data v) := by
  obtain ⟨h₁, h₂, found, rfl, hfetch, hrest⟩ := talks_bind_ok htalk
  obtain rfl := Script.talks_once.mp hfetch
  cases found with
  | none => cases hrest.2
  | some text =>
    obtain ⟨h₃, h₄, t, rfl, -, hrest⟩ := talks_bind_ok hrest
    obtain ⟨h₅, h₆, content, rfl, hlift, hrest⟩ := talks_bind_ok hrest
    obtain ⟨-, hcontent⟩ := talks_lift.mp hlift
    cases content with
    | data w =>
      have hw : w = v := by
        have hsome : w.toOption = some v := Except.ok.inj hrest.2
        unfold Value.toOption at hsome
        split at hsome
        · cases hsome
        · exact Option.some.inj hsome
      exact ⟨text, t, by simp, hw ▸ hcontent⟩
    | ended =>
      obtain ⟨_, _, _, -, -, hrest⟩ := talks_bind_ok hrest
      obtain ⟨_, _, _, -, -, hrest⟩ := talks_bind_ok hrest
      cases hrest.2

/-- What is found in the cache is the data of a text under the key of the target. -/
theorem talks_get {c : Config} {target : Target} {scope : String}
    (htalk : Talks (get c target scope) h (.ok (some v))) :
    ∃ key text t, target.key c scope = .ok key ∧ ⟨.store (.get key), .ok (some text)⟩ ∈ h ∧
      contentOf t text = .ok (.data v) := by
  obtain ⟨h₁, h₂, key, rfl, hlift, hrest⟩ := talks_bind_ok htalk
  obtain ⟨rfl, hkey⟩ := talks_lift.mp hlift
  obtain ⟨h₃, h₄, y, rfl, houtcome, hrest⟩ := talks_bind_ok hrest
  obtain ⟨z, hread, hz⟩ := talks_outcome.mp houtcome
  obtain rfl : y = z := Except.ok.inj hz
  cases y with
  | ok found =>
    obtain ⟨rfl, hfound⟩ := talks_pure.mp hrest
    obtain rfl := Except.ok.inj hfound
    obtain ⟨text, t, hmem, hcontent⟩ := talks_read hread
    exact ⟨key, text, t, hkey, by simpa using hmem, hcontent⟩
  | error g =>
    obtain ⟨_, _, _, -, -, hrest⟩ := talks_bind_ok hrest
    cases hrest.2

end RowGate.Cache
