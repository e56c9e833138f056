import RowGate.Fault
/-!
Computations that ask their surroundings questions: a store for a value, an engine for the rows of a
statement. A question and its answer are one step, so computations that run side by side interleave
between questions only. Main statements: the laws of sequencing, and that running a sequence is
running its parts one after the other.
-/
namespace RowGate

/-- A computation in steps: it ends with a result, or asks a question and goes on with the answer. -/
inductive Script (Q : Type) (A : Q → Type) (α : Type) where
  | done (a : α)
  | ask (q : Q) (next : A q → Script Q A α)

/-- Surroundings with a state: they answer questions, and a question may change their state. -/
abbrev Surroundings (Q : Type) (A : Q → Type) (σ : Type) := (q : Q) → σ → A q × σ

namespace Script

variable {Q : Type} {A : Q → Type} {α β : Type}

/-- One computation after another. -/
def bind : Script Q A α → (α → Script Q A β) → Script Q A β
  | .done a, f => f a
  | .ask q next, f => .ask q fun a => (next a).bind f

instance : Monad (Script Q A) where
  pure := .done
  bind := bind

/-- A single question. -/
def once (q : Q) : Script Q A (A q) := .ask q .done

/-- The result of a computation in surroundings, and the state that it leaves them in. -/
def run {σ : Type} (w : Surroundings Q A σ) : Script Q A α → σ → α × σ
  | .done a, s => (a, s)
  | .ask q next, s => (next (w q s).1).run w (w q s).2

/-- The same computation with its questions put differently. -/
def within {Q' : Type} {A' : Q' → Type} (put : Q → Q') (back : (q : Q) → A' (put q) → A q) :
    Script Q A α → Script Q' A' α
  | .done a => .done a
  | .ask q next => .ask (put q) fun a => (next (back q a)).within put back

theorem bind_done (x : Script Q A α) : x.bind .done = x := by
  induction x with
  | done a => rfl
  | ask q next ih => simp only [bind, ih]

theorem bind_bind {γ : Type} (x : Script Q A α) (f : α → Script Q A β) (g : β → Script Q A γ) :
    (x.bind f).bind g = x.bind fun a => (f a).bind g := by
  induction x with
  | done a => rfl
  | ask q next ih => simp only [bind, ih]

instance : LawfulMonad (Script Q A) :=
  LawfulMonad.mk' (Script Q A) (fun x => bind_done x) (fun _ _ => rfl) (fun x f g => bind_bind x f g)

/-- A sequence runs part by part. -/
theorem run_bind {σ : Type} (w : Surroundings Q A σ) (x : Script Q A α) (f : α → Script Q A β)
    (s : σ) : (x >>= f).run w s = (f (x.run w s).1).run w (x.run w s).2 := by
  show (x.bind f).run w s = _
  induction x generalizing s with
  | done a => rfl
  | ask q next ih => exact ih (w q s).1 (w q s).2

/-- Questions put differently run as they are in surroundings that understand them. -/
theorem run_within {Q' : Type} {A' : Q' → Type} {σ : Type} (put : Q → Q')
    (back : (q : Q) → A' (put q) → A q) (w : Surroundings Q' A' σ) (x : Script Q A α) (s : σ) :
    (x.within put back).run w s =
      x.run (fun q s => (back q (w (put q) s).1, (w (put q) s).2)) s := by
  induction x generalizing s with
  | done a => rfl
  | ask q next ih => exact ih (back q (w (put q) s).1) (w (put q) s).2

end Script

/-- A computation that asks questions and may fail. -/
abbrev Asking (Q : Type) (A : Q → Type) (α : Type) := ExceptT Fault (Script Q A) α

namespace Asking

variable {Q : Type} {A : Q → Type} {α : Type}

/-- A question that is always answered. -/
def ask (q : Q) : Asking Q A (A q) := ExceptT.lift (Script.once q)

/-- Runs a computation in surroundings. -/
def runIn {σ : Type} (w : Surroundings Q A σ) (x : Asking Q A α) (s : σ) : Except Fault α × σ :=
  Script.run w (ExceptT.run x) s

/-- The same computation with its questions put differently. -/
def within {Q' : Type} {A' : Q' → Type} (put : Q → Q') (back : (q : Q) → A' (put q) → A q)
    (x : Asking Q A α) : Asking Q' A' α :=
  ExceptT.mk (Script.within put back (ExceptT.run x))

/-- What a computation results in, failures included; it does not fail itself. -/
def outcome (x : Asking Q A α) : Asking Q A (Except Fault α) :=
  ExceptT.lift (ExceptT.run x)

end Asking
end RowGate
