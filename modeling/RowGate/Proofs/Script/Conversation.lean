import RowGate.Script
/-!
Conversations: the questions that a computation asks, each with the answer that it gets, whatever
the answers are. Main statements: a sequence has the conversations of its parts one after the other,
and a computation that asks only certain questions has only those in its conversations.
-/
namespace RowGate

/-- A question with its answer. -/
abbrev Exchange {Q : Type} (A : Q → Type) := (q : Q) × A q

namespace Script

variable {Q : Type} {A : Q → Type} {α β : Type}

/-- A computation results in something after a conversation. -/
def Talks : Script Q A α → List (Exchange A) → α → Prop
  | .done a, h, b => h = [] ∧ a = b
  | .ask q next, h, b => ∃ a rest, h = ⟨q, a⟩ :: rest ∧ (next a).Talks rest b

/-- All questions that a computation may ask are of a kind. -/
def AsksOnly (kind : Q → Prop) : Script Q A α → Prop
  | .done _ => True
  | .ask q next => kind q ∧ ∀ a, (next a).AsksOnly kind

/-- A sequence has the conversations of its parts one after the other. -/
theorem talks_bind {x : Script Q A α} {f : α → Script Q A β} {h : List (Exchange A)} {b : β} :
    (x >>= f).Talks h b ↔ ∃ h₁ h₂ a, h = h₁ ++ h₂ ∧ x.Talks h₁ a ∧ (f a).Talks h₂ b := by
  change (x.bind f).Talks h b ↔ _
  induction x generalizing h with
  | done a =>
    constructor
    · intro hb
      exact ⟨[], h, a, rfl, ⟨rfl, rfl⟩, hb⟩
    · rintro ⟨_, h₂, _, rfl, ⟨rfl, rfl⟩, hb⟩
      exact hb
  | ask q next ih =>
    constructor
    · rintro ⟨a, rest, rfl, hrest⟩
      obtain ⟨h₁, h₂, c, rfl, hfirst, hsecond⟩ := (ih a).mp hrest
      exact ⟨⟨q, a⟩ :: h₁, h₂, c, rfl, ⟨a, h₁, rfl, hfirst⟩, hsecond⟩
    · rintro ⟨_, h₂, c, rfl, ⟨a, h₁, rfl, hfirst⟩, hsecond⟩
      exact ⟨a, h₁ ++ h₂, rfl, (ih a).mpr ⟨h₁, h₂, c, rfl, hfirst, hsecond⟩⟩

/-- Questions put differently are answered in the same conversation put differently. -/
theorem talks_within {Q' : Type} {A' : Q' → Type} (put : Q → Q') (back : (q : Q) → A' (put q) → A q)
    {x : Script Q A α} {h : List (Exchange A')} {b : α} :
    (x.within put back).Talks h b ↔ ∃ l : List ((q : Q) × A' (put q)),
      h = l.map (fun e => ⟨put e.1, e.2⟩) ∧ x.Talks (l.map fun e => ⟨e.1, back e.1 e.2⟩) b := by
  induction x generalizing h with
  | done a =>
    constructor
    · rintro ⟨rfl, rfl⟩
      exact ⟨[], rfl, rfl, rfl⟩
    · rintro ⟨l, rfl, hl, rfl⟩
      rw [List.map_eq_nil_iff] at hl
      exact ⟨by rw [hl]; rfl, rfl⟩
  | ask q next ih =>
    constructor
    · rintro ⟨a, rest, rfl, hrest⟩
      obtain ⟨l, rfl, hl⟩ := (ih (back q a)).mp hrest
      exact ⟨⟨q, a⟩ :: l, rfl, back q a, _, rfl, hl⟩
    · rintro ⟨l, rfl, a, rest, hl, hrest⟩
      cases l with
      | nil => cases hl
      | cons e l =>
        obtain ⟨q', a'⟩ := e
        obtain ⟨hhead, rfl⟩ := List.cons.inj hl
        obtain ⟨rfl, rfl⟩ := Sigma.mk.inj hhead
        exact ⟨a', _, rfl, (ih _).mpr ⟨l, rfl, hrest⟩⟩

theorem talks_once {q : Q} {h : List (Exchange A)} {b : A q} :
    (once q).Talks h b ↔ h = [⟨q, b⟩] := by
  constructor
  · rintro ⟨a, rest, rfl, rfl, rfl⟩
    rfl
  · rintro rfl
    exact ⟨b, [], rfl, rfl, rfl⟩

theorem asksOnly_bind {kind : Q → Prop} {x : Script Q A α} {f : α → Script Q A β}
    (hx : x.AsksOnly kind) (hf : ∀ a, (f a).AsksOnly kind) : (x >>= f).AsksOnly kind := by
  change (x.bind f).AsksOnly kind
  induction x with
  | done a => exact hf a
  | ask q next ih => exact ⟨hx.1, fun a => ih a (hx.2 a)⟩

theorem asksOnly_within {Q' : Type} {A' : Q' → Type} {kind : Q' → Prop} (put : Q → Q')
    (back : (q : Q) → A' (put q) → A q) {x : Script Q A α} (hx : x.AsksOnly fun q => kind (put q)) :
    (x.within put back).AsksOnly kind := by
  induction x with
  | done a => trivial
  | ask q next ih => exact ⟨hx.1, fun a => ih (back q a) (hx.2 (back q a))⟩

theorem asksOnly_any {kind : Q → Prop} (h : ∀ q, kind q) (x : Script Q A α) : x.AsksOnly kind := by
  induction x with
  | done a => trivial
  | ask q next ih => exact ⟨h q, ih⟩

theorem AsksOnly.mono {kind kind' : Q → Prop} {x : Script Q A α} (hx : x.AsksOnly kind)
    (h : ∀ q, kind q → kind' q) : x.AsksOnly kind' := by
  induction x with
  | done a => trivial
  | ask q next ih => exact ⟨h q hx.1, fun a => ih a (hx.2 a)⟩

/-- What is asked in a conversation is of the kind that may be asked. -/
theorem AsksOnly.of_talks {kind : Q → Prop} {x : Script Q A α} (hx : x.AsksOnly kind)
    {h : List (Exchange A)} {b : α} (htalk : x.Talks h b) : ∀ e ∈ h, kind e.1 := by
  induction x generalizing h with
  | done a =>
    obtain ⟨rfl, -⟩ := htalk
    nofun
  | ask q next ih =>
    obtain ⟨a, rest, rfl, hrest⟩ := htalk
    exact List.forall_mem_cons.mpr ⟨hx.1, ih a (hx.2 a) hrest⟩

/-- Surroundings hold a conversation with a computation. -/
theorem exists_talks {σ : Type} (w : Surroundings Q A σ) (x : Script Q A α) (s : σ) :
    ∃ h, x.Talks h (x.run w s).1 := by
  induction x generalizing s with
  | done a => exact ⟨[], rfl, rfl⟩
  | ask q next ih =>
    obtain ⟨h, hh⟩ := ih (w q s).1 (w q s).2
    exact ⟨⟨q, (w q s).1⟩ :: h, (w q s).1, h, rfl, hh⟩

end Script

namespace Asking

variable {Q : Type} {A : Q → Type} {α β : Type}

/-- A call results in something, or fails, after a conversation. -/
def Talks (x : Asking Q A α) (h : List (Exchange A)) (r : Except Fault α) : Prop :=
  Script.Talks x.run h r

/-- All questions that a call may ask are of a kind. -/
def AsksOnly (kind : Q → Prop) (x : Asking Q A α) : Prop := Script.AsksOnly kind x.run

variable {x : Asking Q A α} {f : α → Asking Q A β} {h : List (Exchange A)}

theorem talks_pure {a : α} {r : Except Fault α} :
    Talks (pure a : Asking Q A α) h r ↔ h = [] ∧ .ok a = r := Iff.rfl

theorem talks_lift {y r : Except Fault α} :
    Talks (liftM y : Asking Q A α) h r ↔ h = [] ∧ y = r := by
  cases y <;> exact Iff.rfl

/-- A sequence fails with its first part, or goes on with the result of that. -/
theorem talks_bind {r : Except Fault β} :
    Talks (x >>= f) h r ↔ (∃ g, Talks x h (.error g) ∧ r = .error g) ∨
      ∃ h₁ h₂ a, h = h₁ ++ h₂ ∧ Talks x h₁ (.ok a) ∧ Talks (f a) h₂ r := by
  change Script.Talks (x.run >>= ExceptT.bindCont f) h r ↔ _
  rw [Script.talks_bind]
  constructor
  · rintro ⟨h₁, h₂, y, rfl, hfirst, hsecond⟩
    cases y with
    | error g =>
      obtain ⟨rfl, rfl⟩ := hsecond
      rw [List.append_nil]
      exact .inl ⟨g, hfirst, rfl⟩
    | ok a => exact .inr ⟨h₁, h₂, a, rfl, hfirst, hsecond⟩
  · rintro (⟨g, hfirst, rfl⟩ | ⟨h₁, h₂, a, rfl, hfirst, hsecond⟩)
    · exact ⟨h, [], .error g, by simp, hfirst, rfl, rfl⟩
    · exact ⟨h₁, h₂, .ok a, rfl, hfirst, hsecond⟩

/-- What is lifted asks nothing: it fails at once, or the call goes on with its answer. -/
theorem talks_lift_bind {y : Except Fault α} {r : Except Fault β} :
    Talks ((liftM y : Asking Q A α) >>= f) h r ↔
      match y with
      | .error g => h = [] ∧ .error g = r
      | .ok a => Talks (f a) h r := by
  cases y <;> exact Iff.rfl

/-- A sequence that does not fail has parts that do not fail. -/
theorem talks_bind_ok {b : β} (htalk : Talks (x >>= f) h (.ok b)) :
    ∃ h₁ h₂ a, h = h₁ ++ h₂ ∧ Talks x h₁ (.ok a) ∧ Talks (f a) h₂ (.ok b) := by
  rcases talks_bind.mp htalk with ⟨g, -, hg⟩ | hparts
  · cases hg
  · exact hparts

/-- A call that only looks at what another results in does not fail by it. -/
theorem talks_outcome {r : Except Fault (Except Fault α)} :
    Talks x.outcome h r ↔ ∃ y, Talks x h y ∧ r = .ok y := by
  change Script.Talks (x.run >>= fun a => pure (.ok a)) h r ↔ _
  rw [Script.talks_bind]
  constructor
  · rintro ⟨h₁, h₂, y, rfl, hfirst, rfl, rfl⟩
    rw [List.append_nil]
    exact ⟨y, hfirst, rfl⟩
  · rintro ⟨y, hfirst, rfl⟩
    exact ⟨h, [], y, by simp, hfirst, rfl, rfl⟩

theorem asksOnly_pure {kind : Q → Prop} (a : α) : AsksOnly kind (pure a : Asking Q A α) := trivial

theorem asksOnly_throw {kind : Q → Prop} (g : Fault) :
    AsksOnly kind (throw g : Asking Q A α) := trivial

theorem asksOnly_lift {kind : Q → Prop} (y : Except Fault α) :
    AsksOnly kind (liftM y : Asking Q A α) := by
  cases y <;> trivial

theorem asksOnly_bind {kind : Q → Prop} (hx : AsksOnly kind x) (hf : ∀ a, AsksOnly kind (f a)) :
    AsksOnly kind (x >>= f) := by
  refine Script.asksOnly_bind hx fun y => ?_
  cases y with
  | error g => trivial
  | ok a => exact hf a

theorem asksOnly_outcome {kind : Q → Prop} (hx : AsksOnly kind x) : AsksOnly kind x.outcome :=
  Script.asksOnly_bind hx fun _ => trivial

theorem AsksOnly.mono {kind kind' : Q → Prop} (hx : AsksOnly kind x)
    (h : ∀ q, kind q → kind' q) : AsksOnly kind' x :=
  Script.AsksOnly.mono hx h

theorem AsksOnly.of_talks {kind : Q → Prop} (hx : AsksOnly kind x) {r : Except Fault α}
    (htalk : Talks x h r) : ∀ e ∈ h, kind e.1 :=
  Script.AsksOnly.of_talks hx htalk

/-- What is lifted goes on with the answer that it has. -/
theorem asksOnly_bind_lift {kind : Q → Prop} {y : Except Fault α}
    (hf : ∀ a, y = .ok a → AsksOnly kind (f a)) :
    AsksOnly kind ((liftM y : Asking Q A α) >>= f) := by
  cases y with
  | error g => trivial
  | ok a => exact hf a rfl

theorem asksOnly_mapM {kind : Q → Prop} {g : α → Asking Q A β} (hg : ∀ a, AsksOnly kind (g a))
    {xs : List α} : AsksOnly kind (xs.mapM g) := by
  induction xs with
  | nil => exact asksOnly_pure []
  | cons a xs ih =>
    rw [List.mapM_cons]
    exact asksOnly_bind (hg a) fun _ => asksOnly_bind ih fun _ => asksOnly_pure _

/-- What a call results in has a property, whatever the conversation is. -/
def Yields (x : Asking Q A α) (p : α → Prop) : Prop := ∀ h a, Talks x h (.ok a) → p a

theorem yields_any : Yields x fun _ => True := fun _ _ _ => trivial

theorem yields_pure {a : α} {p : α → Prop} (ha : p a) : Yields (pure a : Asking Q A α) p := by
  rintro h b ⟨-, hb⟩
  cases hb
  exact ha

theorem yields_throw {g : Fault} {p : α → Prop} : Yields (throw g : Asking Q A α) p := by
  rintro h a ⟨-, ha⟩
  cases ha

theorem yields_bind {p : α → Prop} {q : β → Prop} (hx : Yields x p)
    (hf : ∀ a, p a → Yields (f a) q) : Yields (x >>= f) q := by
  intro h b htalk
  obtain ⟨h₁, h₂, a, -, hfirst, hsecond⟩ := talks_bind_ok htalk
  exact hf a (hx h₁ a hfirst) h₂ b hsecond

theorem yields_within {Q' : Type} {A' : Q' → Type} (put : Q → Q')
    (back : (q : Q) → A' (put q) → A q) {p : α → Prop} (hx : Yields x p) :
    Yields (x.within put back) p := by
  intro h a htalk
  obtain ⟨l, -, hl⟩ := (Script.talks_within put back).mp htalk
  exact hx _ a hl

end Asking
end RowGate
