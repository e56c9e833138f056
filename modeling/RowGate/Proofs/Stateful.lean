import RowGate.Log
/-!
Calls that change a state and may fail. Main statement: what a sequence ensures follows from what
its parts ensure. A call that fails ensures nothing.
-/
namespace RowGate.Stateful

variable {σ α β : Type}

/-- From states with a property, a call that does not fail gets to a result and a state that are
related. -/
def Ensures (P : σ → Prop) (x : ExceptT Fault (StateM σ) α) (Q : α → σ → Prop) : Prop :=
  ∀ s a t, P s → x.run s = (.ok a, t) → Q a t

variable {P : σ → Prop} {x : ExceptT Fault (StateM σ) α} {f : α → ExceptT Fault (StateM σ) β}

theorem ensures_pure {a : α} {Q : α → σ → Prop} (h : ∀ s, P s → Q a s) :
    Ensures P (pure a) Q := by
  rintro s b t hs ⟨⟩
  exact h s hs

theorem ensures_throw {g : Fault} {Q : α → σ → Prop} :
    Ensures P (throw g) Q := by
  rintro s b t hs ⟨⟩

theorem ensures_lift {y : Except Fault α} {Q : α → σ → Prop} (h : ∀ a s, y = .ok a → P s → Q a s) :
    Ensures P (liftM y) Q := by
  intro s a t hs hrun
  cases y with
  | error g => cases hrun
  | ok b =>
    cases hrun
    exact h _ s rfl hs

theorem ensures_get {Q : σ → σ → Prop} (h : ∀ s, P s → Q s s) :
    Ensures P (get : ExceptT Fault (StateM σ) σ) Q := by
  rintro s a t hs ⟨⟩
  exact h s hs

theorem ensures_set {s' : σ} {Q : PUnit → σ → Prop} (h : ∀ s, P s → Q ⟨⟩ s') :
    Ensures P (set s' : ExceptT Fault (StateM σ) PUnit) Q := by
  rintro s a t hs ⟨⟩
  exact h s hs

theorem ensures_modify {g : σ → σ} {Q : PUnit → σ → Prop} (h : ∀ s, P s → Q ⟨⟩ (g s)) :
    Ensures P (modify g : ExceptT Fault (StateM σ) PUnit) Q := by
  rintro s a t hs ⟨⟩
  exact h s hs

/-- A sequence goes on with what its first part answers, in the state that it leaves. -/
theorem run_sequence (x : ExceptT Fault (StateM σ) α) (f : α → ExceptT Fault (StateM σ) β) (s : σ) :
    (x >>= f).run s = match x.run s with
      | (.ok a, s') => (f a).run s'
      | (.error g, s') => (.error g, s') := by
  change (match x.run s with | (y, s') => (ExceptT.bindCont f y).run s') = _
  rcases x.run s with ⟨y | y, s'⟩ <;> rfl

/-- A sequence does not fail where neither of its parts does. -/
theorem run_sequence_ok {x : ExceptT Fault (StateM σ) α} {f : α → ExceptT Fault (StateM σ) β}
    {s t : σ} {b : β} (h : (x >>= f).run s = (.ok b, t)) :
    ∃ a s', x.run s = (.ok a, s') ∧ (f a).run s' = (.ok b, t) := by
  rw [run_sequence] at h
  cases hfirst : x.run s with
  | mk y s' =>
    rw [hfirst] at h
    cases y with
    | error g => cases h
    | ok a => exact ⟨a, s', rfl, h⟩

/-- A sequence that starts with a check goes on with what was checked, in the same state. -/
theorem run_checked_ok {y : Except Fault α} {f : α → ExceptT Fault (StateM σ) β} {s t : σ} {b : β}
    (h : (liftM y >>= f).run s = (.ok b, t)) : ∃ a, y = .ok a ∧ (f a).run s = (.ok b, t) := by
  obtain ⟨a, s', hfirst, hrest⟩ := run_sequence_ok h
  cases y with
  | error g => cases hfirst
  | ok c =>
    cases hfirst
    exact ⟨a, rfl, hrest⟩

theorem ensures_bind {R : α → σ → Prop} {Q : β → σ → Prop} (hx : Ensures P x R)
    (hf : ∀ a, Ensures (R a) (f a) Q) : Ensures P (x >>= f) Q := by
  intro s b t hs hrun
  obtain ⟨a, s', hfirst, hrest⟩ := run_sequence_ok hrun
  exact hf a s' b t (hx s a s' hs hfirst) hrest

theorem Ensures.mono {P' : σ → Prop} {Q Q' : α → σ → Prop} (hx : Ensures P x Q)
    (hpre : ∀ s, P' s → P s) (hpost : ∀ a s, Q a s → Q' a s) : Ensures P' x Q' :=
  fun s a t hs hrun => hpost a t (hx s a t (hpre s hs) hrun)

/-- The results of a call that does not fail have a property, whatever the state is. -/
abbrev Yields (x : ExceptT Fault (StateM σ) α) (p : α → Prop) : Prop :=
  Ensures (fun _ => True) x fun a _ => p a

theorem yields_bind {p : α → Prop} {q : β → Prop} (hx : Yields x p)
    (hf : ∀ a, p a → Yields (f a) q) : Yields (x >>= f) q :=
  ensures_bind hx fun a s b t hs hrun => hf a hs s b t trivial hrun

theorem yields_pure {a : α} {p : α → Prop} (h : p a) :
    Yields (pure a : ExceptT Fault (StateM σ) α) p :=
  ensures_pure fun _ _ => h

theorem yields_lift {y : Except Fault α} {p : α → Prop} (h : ∀ a, y = .ok a → p a) :
    Yields (liftM y : ExceptT Fault (StateM σ) α) p :=
  ensures_lift fun a _ ha _ => h a ha

end RowGate.Stateful
