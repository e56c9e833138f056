import RowGate.Proofs.Script.Conversation
/-!
Computations under fixed answers: one answer is chosen for every question, and a computation then
has one result and one list of questions. Main statements: both follow the sequencing of
computations.
-/
namespace RowGate

namespace Script

variable {Q : Type} {A : Q → Type} {α β : Type}

/-- The result of a computation whose questions have fixed answers. -/
def result (o : (q : Q) → A q) : Script Q A α → α
  | .done a => a
  | .ask q next => (next (o q)).result o

/-- The questions that a computation asks, in order. -/
def asked (o : (q : Q) → A q) : Script Q A α → List Q
  | .done _ => []
  | .ask q next => q :: (next (o q)).asked o

theorem result_bind (o : (q : Q) → A q) (x : Script Q A α) (f : α → Script Q A β) :
    (x >>= f).result o = (f (x.result o)).result o := by
  change (x.bind f).result o = _
  induction x with
  | done a => rfl
  | ask q next ih => exact ih (o q)

theorem asked_bind (o : (q : Q) → A q) (x : Script Q A α) (f : α → Script Q A β) :
    (x >>= f).asked o = x.asked o ++ (f (x.result o)).asked o := by
  change (x.bind f).asked o = _
  induction x with
  | done a => rfl
  | ask q next ih =>
    simp only [bind, asked, result, List.cons_append]
    rw [ih (o q)]

theorem result_within {Q' : Type} {A' : Q' → Type} (put : Q → Q')
    (back : (q : Q) → A' (put q) → A q) (o : (q : Q') → A' q) (x : Script Q A α) :
    (x.within put back).result o = x.result fun q => back q (o (put q)) := by
  induction x with
  | done a => rfl
  | ask q next ih => exact ih (back q (o (put q)))

/-- Fixed answers make a conversation. -/
theorem talks_result (o : (q : Q) → A q) (x : Script Q A α) :
    x.Talks ((x.asked o).map fun q => ⟨q, o q⟩) (x.result o) := by
  induction x with
  | done a => exact ⟨rfl, rfl⟩
  | ask q next ih => exact ⟨o q, _, rfl, ih (o q)⟩

/-- A conversation with the fixed answers has the result that they lead to. -/
theorem result_of_talks {o : (q : Q) → A q} {x : Script Q A α} {h : List (Exchange A)} {b : α}
    (htalk : x.Talks h b) (hfixed : ∀ e ∈ h, e.2 = o e.1) : x.result o = b := by
  induction x generalizing h with
  | done a => exact htalk.2
  | ask q next ih =>
    obtain ⟨a, rest, rfl, hrest⟩ := htalk
    obtain ⟨hfirst, hothers⟩ := List.forall_mem_cons.mp hfixed
    obtain rfl : a = o q := hfirst
    exact ih _ hrest hothers

end Script

namespace Asking

variable {Q : Type} {A : Q → Type} {α β : Type} (o : (q : Q) → A q)

/-- The result of a call whose questions have fixed answers. -/
def result (x : Asking Q A α) : Except Fault α := Script.result o x.run

/-- The questions that a call asks, in order. -/
def asked (x : Asking Q A α) : List Q := Script.asked o x.run

@[simp] theorem result_pure (a : α) : result o (pure a : Asking Q A α) = .ok a := rfl

@[simp] theorem result_throw (f : Fault) : result o (throw f : Asking Q A α) = .error f := rfl

@[simp] theorem result_lift (x : Except Fault α) : result o (liftM x : Asking Q A α) = x := by
  cases x <;> rfl

@[simp] theorem asked_pure (a : α) : asked o (pure a : Asking Q A α) = [] := rfl

@[simp] theorem asked_throw (f : Fault) : asked o (throw f : Asking Q A α) = [] := rfl

@[simp] theorem asked_lift (x : Except Fault α) : asked o (liftM x : Asking Q A α) = [] := by
  cases x <;> rfl

/-- A sequence results in what its second part results in, if the first does not fail. -/
theorem result_bind (x : Asking Q A α) (f : α → Asking Q A β) :
    result o (x >>= f) = result o x >>= fun a => result o (f a) := by
  change Script.result o (x.run >>= _) = _
  rw [Script.result_bind]
  change Script.result o (ExceptT.bindCont f (result o x)) = _
  cases result o x <;> rfl

theorem result_map (f : α → β) (x : Asking Q A α) :
    result o (f <$> x) = result o x >>= fun a => .ok (f a) := by
  rw [← bind_pure_comp, result_bind]
  rfl

theorem result_outcome (x : Asking Q A α) : result o x.outcome = .ok (result o x) := by
  change Script.result o (Except.ok <$> x.run) = _
  rw [← bind_pure_comp, Script.result_bind]
  rfl

/-- What is asked behind a first part that does not fail. -/
def askedThen (r : Except Fault α) (f : α → Asking Q A β) : List Q :=
  match r with
  | .ok a => asked o (f a)
  | .error _ => []

theorem asked_bind (x : Asking Q A α) (f : α → Asking Q A β) :
    asked o (x >>= f) = asked o x ++ askedThen o (result o x) f := by
  change Script.asked o (x.run >>= _) = _
  rw [Script.asked_bind]
  change asked o x ++ Script.asked o (ExceptT.bindCont f (result o x)) = _
  cases result o x <;> rfl

/-- Fixed answers make a conversation. -/
theorem talks_result (x : Asking Q A α) :
    Talks x ((asked o x).map fun q => ⟨q, o q⟩) (result o x) :=
  Script.talks_result o x.run

/-- A conversation with the fixed answers has the result that they lead to. -/
theorem result_of_talks {o : (q : Q) → A q} {x : Asking Q A α} {h : List (Exchange A)}
    {r : Except Fault α} (htalk : Talks x h r) (hfixed : ∀ e ∈ h, e.2 = o e.1) : result o x = r :=
  Script.result_of_talks htalk hfixed

end Asking
end RowGate
