import RowGate.Proofs.Script.Answered
/-!
Calls in surroundings with a state. Main statements: a sequence runs part by part, a call whose
questions leave the state alone has its fixed result, and one whose questions concern a part of the
state changes that part only; surroundings that write down what is said, the questions with their
answers, answer as they do without it.
-/
namespace RowGate

namespace Script

variable {Q : Type} {A : Q → Type} {α : Type} {σ τ : Type} {w : Surroundings Q A σ}

/-- Questions of a kind that have fixed answers and leave the state alone. -/
def Still (w : Surroundings Q A σ) (kind : Q → Prop) (o : (q : Q) → A q) : Prop :=
  ∀ q, kind q → ∀ s, w q s = (o q, s)

theorem run_still {kind : Q → Prop} {o : (q : Q) → A q} (hw : Still w kind o) {x : Script Q A α}
    (hx : x.AsksOnly kind) (s : σ) : x.run w s = (x.result o, s) := by
  induction x with
  | done a => rfl
  | ask q next ih =>
    rw [run, hw q hx.1 s]
    exact ih (o q) (hx.2 (o q))

/-- What no question of a kind changes in the state is not changed by a computation that asks only
such questions. -/
theorem run_keeps {kind : Q → Prop} {β : Type} (view : σ → β)
    (hw : ∀ q, kind q → ∀ s, view (w q s).2 = view s) {x : Script Q A α} (hx : x.AsksOnly kind)
    (s : σ) : view (x.run w s).2 = view s := by
  induction x generalizing s with
  | done a => rfl
  | ask q next ih =>
    rw [run, ih _ (hx.2 _)]
    exact hw q hx.1 s

/-- Every state through which a computation takes its surroundings has a property. -/
def Always (w : Surroundings Q A σ) (I : σ → Prop) : Script Q A α → σ → Prop
  | .done _, s => I s
  | .ask q next, s => I s ∧ (next (w q s).1).Always w I (w q s).2

theorem Always.last {I : σ → Prop} {x : Script Q A α} {s : σ} (h : x.Always w I s) :
    I (x.run w s).2 := by
  induction x generalizing s with
  | done a => exact h
  | ask q next ih => exact ih _ h.2

theorem Always.bind {β : Type} {I : σ → Prop} {x : Script Q A α} {f : α → Script Q A β} {s : σ}
    (hx : x.Always w I s) (hf : (f (x.run w s).1).Always w I (x.run w s).2) :
    (x >>= f).Always w I s := by
  induction x generalizing s with
  | done a => exact hf
  | ask q next ih => exact ⟨hx.1, ih _ hx.2 hf⟩

/-- Surroundings that answer from a part of their state, and change that part only. -/
structure Part (w : Surroundings Q A σ) (v : Surroundings Q A τ) where
  get : σ → τ
  put : σ → τ → σ
  put_get : ∀ s, put s (get s) = s
  get_put : ∀ s t, get (put s t) = t
  put_put : ∀ s t u, put (put s t) u = put s u
  answers : ∀ q s, w q s = ((v q (get s)).1, put s (v q (get s)).2)

theorem run_part {v : Surroundings Q A τ} (part : Part w v) (x : Script Q A α) (s : σ) :
    x.run w s = ((x.run v (part.get s)).1, part.put s (x.run v (part.get s)).2) := by
  induction x generalizing s with
  | done a => exact Prod.ext rfl (part.put_get s).symm
  | ask q next ih =>
    rw [run, run, part.answers, ih, part.get_put, part.put_put]

end Script

namespace Asking

variable {Q : Type} {A : Q → Type} {α β : Type} {σ : Type} {w : Surroundings Q A σ}

/-- What comes behind a first part is run where that does not fail. -/
def runThen (w : Surroundings Q A σ) (f : α → Asking Q A β) :
    Except Fault α × σ → Except Fault β × σ
  | (.ok a, s) => (f a).runIn w s
  | (.error g, s) => (.error g, s)

/-- A sequence runs part by part. -/
theorem runIn_bind (x : Asking Q A α) (f : α → Asking Q A β) (s : σ) :
    (x >>= f).runIn w s = runThen w f (x.runIn w s) := by
  change Script.run w (x.run >>= ExceptT.bindCont f) s = _
  rw [Script.run_bind]
  change _ = runThen w f (x.run.run w s)
  rcases x.run.run w s with ⟨y | y, t⟩ <;> rfl

theorem runIn_bind_ok {x : Asking Q A α} {f : α → Asking Q A β} {s t : σ} {a : α}
    (h : x.runIn w s = (.ok a, t)) : (x >>= f).runIn w s = (f a).runIn w t := by
  rw [runIn_bind, h]
  rfl

theorem runIn_bind_error {x : Asking Q A α} {f : α → Asking Q A β} {s t : σ} {g : Fault}
    (h : x.runIn w s = (.error g, t)) : (x >>= f).runIn w s = (.error g, t) := by
  rw [runIn_bind, h]
  rfl

/-- A sequence does not fail where neither of its parts does. -/
theorem runIn_bind_eq_ok {x : Asking Q A α} {f : α → Asking Q A β} {s t : σ} {b : β}
    (h : (x >>= f).runIn w s = (.ok b, t)) :
    ∃ a s', x.runIn w s = (.ok a, s') ∧ (f a).runIn w s' = (.ok b, t) := by
  rw [runIn_bind] at h
  rcases hfirst : x.runIn w s with ⟨g | a, s'⟩
  · rw [hfirst] at h
    cases h
  · rw [hfirst] at h
    exact ⟨a, s', rfl, h⟩

theorem runIn_pure (a : α) (s : σ) : (pure a : Asking Q A α).runIn w s = (.ok a, s) := rfl

theorem runIn_lift (y : Except Fault α) (s : σ) :
    (liftM y : Asking Q A α).runIn w s = (y, s) := by
  cases y <;> rfl

/-- What is lifted is over at once: it fails, or what follows goes on with it. -/
theorem runIn_bind_lift (y : Except Fault α) (f : α → Asking Q A β) (s : σ) :
    ((liftM y : Asking Q A α) >>= f).runIn w s = runThen w f (y, s) := by
  rw [runIn_bind, runIn_lift]

theorem runIn_outcome (x : Asking Q A α) (s : σ) :
    x.outcome.runIn w s = (.ok (x.runIn w s).1, (x.runIn w s).2) := by
  change Script.run w (Except.ok <$> x.run) s = _
  rw [← bind_pure_comp, Script.run_bind]
  rfl

/-- Every state through which a call takes its surroundings has a property. -/
def Always (w : Surroundings Q A σ) (I : σ → Prop) (x : Asking Q A α) (s : σ) : Prop :=
  Script.Always w I x.run s

theorem always_pure {I : σ → Prop} (a : α) {s : σ} (h : I s) :
    Always w I (pure a : Asking Q A α) s := h

theorem always_lift {I : σ → Prop} (y : Except Fault α) {s : σ} (h : I s) :
    Always w I (liftM y : Asking Q A α) s := by
  cases y <;> exact h

theorem Always.last {I : σ → Prop} {x : Asking Q A α} {s : σ} (h : Always w I x s) :
    I (x.runIn w s).2 := Script.Always.last h

/-- A sequence keeps to a property if its first part does, and its second from where the first
leads. -/
theorem Always.bind {I : σ → Prop} {x : Asking Q A α} {f : α → Asking Q A β} {s : σ}
    (hx : Always w I x s) (hf : ∀ a t, x.runIn w s = (.ok a, t) → Always w I (f a) t) :
    Always w I (x >>= f) s := by
  change Script.Always w I (x.run >>= ExceptT.bindCont f) s
  refine Script.Always.bind hx ?_
  rcases hrun : x.run.run w s with ⟨g | a, t⟩
  · have hlast := hx.last
    unfold runIn at hlast
    rwa [hrun] at hlast
  · exact hf a t hrun

theorem Always.bind_ok {I : σ → Prop} {x : Asking Q A α} {f : α → Asking Q A β} {s t : σ} {a : α}
    (hx : Always w I x s) (hrun : x.runIn w s = (.ok a, t)) (hf : Always w I (f a) t) :
    Always w I (x >>= f) s := by
  refine hx.bind fun b u hother => ?_
  cases hrun.symm.trans hother
  exact hf

theorem Always.outcome {I : σ → Prop} {x : Asking Q A α} {s : σ} (h : Always w I x s) :
    Always w I x.outcome s := by
  change Script.Always w I (Except.ok <$> x.run) s
  rw [← bind_pure_comp]
  exact Script.Always.bind h (Script.Always.last h)

theorem runIn_still {kind : Q → Prop} {o : (q : Q) → A q} (hw : Script.Still w kind o)
    {x : Asking Q A α} (hx : x.AsksOnly kind) (s : σ) : x.runIn w s = (x.result o, s) :=
  Script.run_still hw hx s

theorem runIn_keeps {kind : Q → Prop} {γ : Type} (view : σ → γ)
    (hw : ∀ q, kind q → ∀ s, view (w q s).2 = view s) {x : Asking Q A α} (hx : x.AsksOnly kind)
    (s : σ) : view (x.runIn w s).2 = view s :=
  Script.run_keeps view hw hx s

end Asking

namespace Script

variable {Q : Type} {A : Q → Type} {α : Type} {σ : Type}

/-- The questions of a run with their answers, in order. -/
def dialogue (w : Surroundings Q A σ) : Script Q A α → σ → List (Exchange A)
  | .done _, _ => []
  | .ask q next, s => ⟨q, (w q s).1⟩ :: (next (w q s).1).dialogue w (w q s).2

/-- The same surroundings, which write down what is said. -/
def recording (w : Surroundings Q A σ) : Surroundings Q A (σ × List (Exchange A)) :=
  fun q s => ((w q s.1).1, ((w q s.1).2, s.2 ++ [⟨q, (w q s.1).1⟩]))

theorem run_recording (w : Surroundings Q A σ) (x : Script Q A α) (s : σ) (h : List (Exchange A)) :
    x.run (recording w) (s, h) = ((x.run w s).1, ((x.run w s).2, h ++ x.dialogue w s)) := by
  induction x generalizing s h with
  | done a => simp [run, dialogue]
  | ask q next ih =>
    rw [run, recording, ih]
    simp [run, dialogue]

end Script

namespace Asking

variable {Q : Type} {A : Q → Type} {α : Type} {σ : Type}

/-- The questions of a call with their answers, in order. -/
def dialogue (w : Surroundings Q A σ) (x : Asking Q A α) (s : σ) : List (Exchange A) :=
  Script.dialogue w x.run s

theorem runIn_recording (w : Surroundings Q A σ) (x : Asking Q A α) (s : σ)
    (h : List (Exchange A)) :
    x.runIn (Script.recording w) (s, h) =
      ((x.runIn w s).1, ((x.runIn w s).2, h ++ x.dialogue w s)) :=
  Script.run_recording w x.run s h

/-- Calls that run alike with what is said written down say the same. -/
theorem dialogue_eq {β : Type} {w : Surroundings Q A σ} {x : Asking Q A α} {y : Asking Q A β} {s : σ}
    (h : (x.runIn (Script.recording w) (s, [])).2 = (y.runIn (Script.recording w) (s, [])).2) :
    x.dialogue w s = y.dialogue w s := by
  simpa [runIn_recording] using congrArg Prod.snd h

end Asking

end RowGate
