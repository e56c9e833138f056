import Mathlib.Data.List.Forall2
import RowGate.Proofs.Stateful
/-!
Two calls compared with each other. They correspond if both answer and the answers are related, or if
both fail in the same way. Main statement: sequences correspond where their parts do.
-/
namespace RowGate

variable {α β γ δ σ : Type}

/-- Failures of one kind: the same one, or requests that break rules. -/
inductive Fault.SameKind : Fault → Fault → Prop
  | same (f : Fault) : SameKind f f
  | invalid (vs ws : List Violation) (w x : Option String) : SameKind (.invalid vs w) (.invalid ws x)

/-- Both calls answer with what is related, or both fail in the same way. -/
inductive Correspond (R : α → β → Prop) : Except Fault α → Except Fault β → Prop
  | ok {a b} : R a b → Correspond R (.ok a) (.ok b)
  | error {f g} : f.SameKind g → Correspond R (.error f) (.error g)

namespace Correspond

variable {R : α → β → Prop} {S : γ → δ → Prop}

theorem refl {P : α → α → Prop} (hP : ∀ a, P a a) (x : Except Fault α) : Correspond P x x := by
  cases x with
  | ok a => exact .ok (hP a)
  | error f => exact .error (.same f)

theorem bind {x : Except Fault α} {y : Except Fault β} {f : α → Except Fault γ}
    {g : β → Except Fault δ} (hxy : Correspond R x y)
    (hfg : ∀ a b, R a b → Correspond S (f a) (g b)) : Correspond S (x >>= f) (y >>= g) := by
  cases hxy with
  | ok hab => exact hfg _ _ hab
  | error h => exact .error h

/-- A check that both calls make. -/
theorem checked {x : Except Fault α} {f : α → Except Fault γ} {g : α → Except Fault δ}
    (hfg : ∀ a, Correspond S (f a) (g a)) : Correspond S (x >>= f) (x >>= g) :=
  (refl (P := Eq) (fun _ => rfl) x).bind fun a _ hab => hab ▸ hfg a

theorem mono {T : α → β → Prop} {x : Except Fault α} {y : Except Fault β} (h : Correspond R x y)
    (hRT : ∀ a b, R a b → T a b) : Correspond T x y := by
  cases h with
  | ok hab => exact .ok (hRT _ _ hab)
  | error h => exact .error h

/-- What is known of the answers by themselves. -/
theorem of_answers {T : α → β → Prop} {x : Except Fault α} {y : Except Fault β}
    (h : Correspond R x y) (hT : ∀ a b, x = .ok a → y = .ok b → T a b) : Correspond T x y := by
  cases h with
  | ok hab => exact .ok (hT _ _ rfl rfl)
  | error h => exact .error h

theorem of_ok {a : α} {y : Except Fault β} (h : Correspond R (.ok a) y) :
    ∃ b, y = .ok b ∧ R a b := by
  cases h with
  | ok hab => exact ⟨_, rfl, hab⟩

theorem mapM {f : α → Except Fault γ} {g : β → Except Fault δ}
    (hfg : ∀ a b, R a b → Correspond S (f a) (g b)) {as : List α} {bs : List β}
    (h : List.Forall₂ R as bs) : Correspond (List.Forall₂ S) (as.mapM f) (bs.mapM g) := by
  induction h with
  | nil => exact .ok .nil
  | cons hab _ ih =>
    rw [List.mapM_cons, List.mapM_cons]
    refine (hfg _ _ hab).bind fun c d hcd => ih.bind fun cs ds hcds => ?_
    exact .ok (.cons hcd hcds)

end Correspond

/-- Two calls that change a state correspond: from related states they get to related answers and
related states, or both fail in the same way. -/
def Pairs (S : σ → σ → Prop) (R : α → β → Prop) (x : ExceptT Fault (StateM σ) α)
    (y : ExceptT Fault (StateM σ) β) : Prop :=
  ∀ s s', S s s' → Correspond R (x.run s).1 (y.run s').1 ∧
    ∀ a b, (x.run s).1 = .ok a → (y.run s').1 = .ok b → S (x.run s).2 (y.run s').2

namespace Pairs

variable {S : σ → σ → Prop} {R : α → β → Prop} {T : γ → δ → Prop}

theorem pure {a : α} {b : β} (h : R a b) : Pairs S R (pure a) (pure b) :=
  fun _ _ hs => ⟨.ok h, fun _ _ _ _ => hs⟩

theorem lift {x : Except Fault α} {y : Except Fault β} (h : Correspond R x y) :
    Pairs S R (liftM x) (liftM y) := by
  intro s s' hs
  cases h with
  | ok hab => exact ⟨.ok hab, fun _ _ _ _ => hs⟩
  | error h => exact ⟨.error h, nofun⟩

theorem throw (f : Fault) : Pairs S R (throw f) (throw f) :=
  fun _ _ _ => ⟨.error (.same f), nofun⟩

theorem get : Pairs S S get get :=
  fun _ _ hs => ⟨.ok hs, fun _ _ _ _ => hs⟩

theorem set {t t' : σ} (h : S t t') :
    Pairs S (fun _ _ => True) (set t : ExceptT Fault (StateM σ) PUnit)
      (set t' : ExceptT Fault (StateM σ) PUnit) :=
  fun _ _ _ => ⟨.ok trivial, fun _ _ _ _ => h⟩

theorem modify {f g : σ → σ} (h : ∀ s s', S s s' → S (f s) (g s')) :
    Pairs S (fun _ _ => True) (modify f : ExceptT Fault (StateM σ) PUnit)
      (modify g : ExceptT Fault (StateM σ) PUnit) :=
  fun s s' hs => ⟨.ok trivial, fun _ _ _ _ => h s s' hs⟩

theorem bind {x : ExceptT Fault (StateM σ) α} {y : ExceptT Fault (StateM σ) β}
    {f : α → ExceptT Fault (StateM σ) γ} {g : β → ExceptT Fault (StateM σ) δ} (hxy : Pairs S R x y)
    (hfg : ∀ a b, R a b → Pairs S T (f a) (g b)) : Pairs S T (x >>= f) (y >>= g) := by
  intro s s' hs
  obtain ⟨hanswers, hstates⟩ := hxy s s' hs
  rw [Stateful.run_sequence, Stateful.run_sequence]
  rcases hx : x.run s with ⟨a | a, t⟩ <;> rcases hy : y.run s' with ⟨b | b, t'⟩ <;>
    rw [hx, hy] at hanswers hstates <;> cases hanswers
  case error.error h => exact ⟨.error h, nofun⟩
  case ok.ok hab => exact hfg a b hab t t' (hstates a b rfl rfl)

/-- A check that both calls make. -/
theorem checked {x : Except Fault α} {f : α → ExceptT Fault (StateM σ) γ}
    {g : α → ExceptT Fault (StateM σ) δ} (hfg : ∀ a, Pairs S T (f a) (g a)) :
    Pairs S T (liftM x >>= f) (liftM x >>= g) :=
  (lift (R := Eq) (.refl (fun _ => rfl) x)).bind fun a _ hab => hab ▸ hfg a

end Pairs

/-- Two calls that change a state, which is lost where they fail, correspond. -/
def RunsAlike (S : σ → σ → Prop) (R : α → β → Prop) (x : StateT σ (Except Fault) α)
    (y : StateT σ (Except Fault) β) : Prop :=
  ∀ s s', S s s' → Correspond (fun p q => R p.1 q.1 ∧ S p.2 q.2) (x.run s) (y.run s')

namespace RunsAlike

variable {S : σ → σ → Prop} {R : α → β → Prop} {T : γ → δ → Prop}

theorem pure {a : α} {b : β} (h : R a b) : RunsAlike S R (pure a) (pure b) :=
  fun _ _ hs => .ok ⟨h, hs⟩

theorem throw (f : Fault) : RunsAlike S R (throw f) (throw f) :=
  fun _ _ _ => .error (.same f)

theorem mono {R' : α → β → Prop} {x : StateT σ (Except Fault) α} {y : StateT σ (Except Fault) β}
    (h : RunsAlike S R x y) (hRR' : ∀ a b, R a b → R' a b) : RunsAlike S R' x y :=
  fun s s' hs => (h s s' hs).mono fun _ _ hpq => ⟨hRR' _ _ hpq.1, hpq.2⟩

theorem get : RunsAlike S S get get :=
  fun _ _ hs => .ok ⟨hs, hs⟩

theorem set {t t' : σ} (h : S t t') :
    RunsAlike S (fun _ _ => True) (set t : StateT σ (Except Fault) PUnit)
      (set t' : StateT σ (Except Fault) PUnit) :=
  fun _ _ _ => .ok ⟨trivial, h⟩

theorem modify {f g : σ → σ} (h : ∀ s s', S s s' → S (f s) (g s')) :
    RunsAlike S (fun _ _ => True) (modify f : StateT σ (Except Fault) PUnit)
      (modify g : StateT σ (Except Fault) PUnit) :=
  fun s s' hs => .ok ⟨trivial, h s s' hs⟩

theorem bind {x : StateT σ (Except Fault) α} {y : StateT σ (Except Fault) β}
    {f : α → StateT σ (Except Fault) γ} {g : β → StateT σ (Except Fault) δ}
    (hxy : RunsAlike S R x y) (hfg : ∀ a b, R a b → RunsAlike S T (f a) (g b)) :
    RunsAlike S T (x >>= f) (y >>= g) := by
  intro s s' hs
  rw [StateT.run_bind, StateT.run_bind]
  exact (hxy s s' hs).bind fun p q hpq => hfg p.1 q.1 hpq.1 p.2 q.2 hpq.2

theorem mapM {f : α → StateT σ (Except Fault) γ} {g : β → StateT σ (Except Fault) δ}
    (hfg : ∀ a b, R a b → RunsAlike S T (f a) (g b)) {as : List α} {bs : List β}
    (h : List.Forall₂ R as bs) : RunsAlike S (List.Forall₂ T) (as.mapM f) (bs.mapM g) := by
  induction h with
  | nil => exact pure .nil
  | cons hab _ ih =>
    rw [List.mapM_cons, List.mapM_cons]
    refine (hfg _ _ hab).bind fun c d hcd => ih.bind fun cs ds hcds => ?_
    exact pure (.cons hcd hcds)

end RunsAlike

end RowGate
