import RowGate.Proofs.Endpoint.Provenance
import RowGate.Proofs.Script.Answered
/-!
Calls of an endpoint that take turns in surroundings which all of them share: a turn is one question
with its answer. Main statements: what has happened to a call begins a conversation of it, and the
surroundings have answered in the order of the turns, whatever that order is.
-/
namespace RowGate.Endpoint

open Asking

variable {ι σ α : Type} {w : Surroundings Question Question.Answer σ} {s : σ}

/-- The state that surroundings are in after events. -/
def stateAfter (w : Surroundings Question Question.Answer σ) (s : σ) (events : List (Event ι)) : σ :=
  events.foldl (fun s x => (w x.2.1 s).2) s

theorem stateAfter_append (xs ys : List (Event ι)) :
    stateAfter w s (xs ++ ys) = stateAfter w (stateAfter w s xs) ys := List.foldl_append ..

/-- The answers of events are those that surroundings give one after the other. -/
def Answered (w : Surroundings Question Question.Answer σ) (s : σ) (events : List (Event ι)) : Prop :=
  ∀ before x after, events = before ++ x :: after → x.2.2 = (w x.2.1 (stateAfter w s before)).1

theorem answered_nil : Answered w s ([] : List (Event ι)) := by
  intro before x after h
  simp at h

theorem Answered.exists_state {events : List (Event ι)} (h : Answered w s events) {x : Event ι}
    (hx : x ∈ events) : ∃ t, x.2.2 = (w x.2.1 t).1 := by
  obtain ⟨before, after, hsplit⟩ := List.append_of_mem hx
  exact ⟨_, h before x after hsplit⟩

/-- One more event. -/
theorem Answered.concat {events : List (Event ι)} (h : Answered w s events) (i : ι) (q : Question) :
    Answered w s (events ++ [(i, ⟨q, (w q (stateAfter w s events)).1⟩)]) := by
  intro before x after hsplit
  rcases split_concat hsplit with ⟨rfl, rfl⟩ | ⟨more, hevents⟩
  · rfl
  · exact h before x more hevents

/-- Where a state gets a property behind events, one event gives it that property. -/
theorem exists_turning {P : σ → Prop} {events : List (Event ι)} (hnot : ¬ P s)
    (hthen : P (stateAfter w s events)) :
    ∃ first x rest, events = first ++ x :: rest ∧ ¬ P (stateAfter w s first) ∧
      P (stateAfter w s (first ++ [x])) := by
  induction events generalizing s with
  | nil => exact absurd hthen hnot
  | cons x events ih =>
    by_cases hx : P (w x.2.1 s).2
    · exact ⟨[], x, events, rfl, hnot, hx⟩
    · obtain ⟨first, y, rest, rfl, hbefore, hafter⟩ := ih hx hthen
      exact ⟨x :: first, y, rest, rfl, hbefore, hafter⟩

section

variable [DecidableEq ι]

theorem own_cons_of_ne {i j : ι} (h : j ≠ i) (x : Exchange Question.Answer)
    (events : List (Event ι)) : own i ((j, x) :: events) = own i events := by
  simp [own, h]

/-- Where what belongs to a call is split, all events are. -/
theorem split_own {i : ι} {events : List (Event ι)} {x : Exchange Question.Answer}
    {h₁ h₂ : List (Exchange Question.Answer)} (h : own i events = h₁ ++ x :: h₂) :
    ∃ before after, events = before ++ (i, x) :: after ∧ own i before = h₁ ∧ own i after = h₂ := by
  induction events generalizing h₁ with
  | nil => simp [own] at h
  | cons y events ih =>
    obtain ⟨j, y⟩ := y
    by_cases hj : j = i
    · subst hj
      rw [own_cons_self] at h
      cases h₁ with
      | nil =>
        obtain ⟨rfl, hrest⟩ := List.cons.inj h
        exact ⟨[], events, rfl, rfl, hrest⟩
      | cons z h₁ =>
        obtain ⟨rfl, hrest⟩ := List.cons.inj h
        obtain ⟨before, after, rfl, rfl, hafter⟩ := ih hrest
        exact ⟨(j, y) :: before, after, rfl, own_cons_self .., hafter⟩
    · rw [own_cons_of_ne hj] at h
      obtain ⟨before, after, rfl, rfl, hafter⟩ := ih h
      exact ⟨(j, y) :: before, after, rfl, own_cons_of_ne hj .., hafter⟩

end

/-- What is left of calls, the state that they share, and what has happened. -/
structure Underway (ι σ α : Type) where
  left : ι → Script Question Question.Answer (Except Fault α)
  state : σ
  events : List (Event ι)

namespace Underway

/-- The question that a call asks next, unless it is over. -/
def next? (u : Underway ι σ α) (i : ι) : Option Question :=
  match u.left i with
  | .done _ => none
  | .ask q _ => some q

/-- Calls that have not begun. -/
def ready (calls : ι → Serving α) (s : σ) : Underway ι σ α := ⟨fun i => (calls i).run, s, []⟩

variable [DecidableEq ι]

/-- A call has a turn: its next question is answered. -/
def advance (w : Surroundings Question Question.Answer σ) (u : Underway ι σ α) (i : ι) :
    Underway ι σ α :=
  match u.left i with
  | .done _ => u
  | .ask q next =>
    { left := Function.update u.left i (next (w q u.state).1)
      state := (w q u.state).2
      events := u.events ++ [(i, ⟨q, (w q u.state).1⟩)] }

/-- Calls have their turns one after the other. -/
def follow (w : Surroundings Question Question.Answer σ) (u : Underway ι σ α) (turns : List ι) :
    Underway ι σ α :=
  turns.foldl (advance w) u

/-- What has happened are beginnings of conversations of calls, which surroundings have answered. -/
structure Fits (u : Underway ι σ α) (w : Surroundings Question Question.Answer σ)
    (calls : ι → Serving α) (s : σ) : Prop where
  state : u.state = stateAfter w s u.events
  answered : Answered w s u.events
  talks : ∀ i h r, Script.Talks (u.left i) h r → Talks (calls i) (own i u.events ++ h) r

variable {u : Underway ι σ α} {calls : ι → Serving α}

theorem fits_ready (calls : ι → Serving α) (s : σ) : (ready calls s).Fits w calls s :=
  ⟨rfl, answered_nil, fun _ _ _ htalk => htalk⟩

theorem Fits.advance (h : u.Fits w calls s) (i : ι) : (u.advance w i).Fits w calls s := by
  unfold Underway.advance
  cases hleft : u.left i with
  | done r => exact h
  | ask q next =>
    obtain ⟨hstate, hanswered, htalks⟩ := h
    refine ⟨?_, ?_, fun j l r htalk => ?_⟩
    · rw [stateAfter_append, ← hstate]
      rfl
    · rw [hstate]
      exact hanswered.concat i q
    · dsimp only at htalk ⊢
      rw [own_append, List.append_assoc]
      by_cases hj : i = j
      · subst hj
        rw [Function.update_self] at htalk
        rw [own_cons_self]
        refine htalks i _ r ?_
        rw [hleft]
        exact ⟨_, l, rfl, htalk⟩
      · rw [Function.update_of_ne (Ne.symm hj)] at htalk
        rw [own_cons_of_ne hj]
        exact htalks j l r htalk

/-- In whatever order calls have their turns, what has happened fits them. -/
theorem Fits.follow (h : u.Fits w calls s) (turns : List ι) : (u.follow w turns).Fits w calls s := by
  induction turns generalizing u with
  | nil => exact h
  | cons i turns ih => exact ih (h.advance i)

/-- A call that is about to ask a question has a conversation where it asks that one next. -/
theorem Fits.exists_talks (h : u.Fits w calls s) {i : ι} {q : Question}
    (hnext : u.next? i = some q) (a : q.Answer) :
    ∃ rest r, Talks (calls i) (own i u.events ++ ⟨q, a⟩ :: rest) r := by
  unfold next? at hnext
  split at hnext
  · cases hnext
  · rename_i q' next hleft
    obtain rfl := Option.some.inj hnext
    obtain ⟨rest, r, hrest⟩ : ∃ rest r, Script.Talks (next a) rest r :=
      ⟨_, _, Script.talks_result Question.refusal (next a)⟩
    have htalk : Script.Talks (u.left i) (⟨q', a⟩ :: rest) r := by
      rw [hleft]
      exact ⟨a, rest, rfl, hrest⟩
    exact ⟨rest, r, h.talks i _ r htalk⟩

end Underway
end RowGate.Endpoint
