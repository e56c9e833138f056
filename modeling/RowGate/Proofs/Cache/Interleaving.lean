import RowGate.Proofs.Cache.Tags
import RowGate.Proofs.Script.Conversation
/-!
Calls of the cache side by side over one store in memory. Main statement: calls that take turns, in
whatever order and at whatever times, until all are over are carried out side by side.
-/
namespace RowGate.Cache

open Asking
open Number (Later)
open KeyValue (Memory)

/-- A call that caches or removes by tag. -/
inductive Request where
  | set (target : Target) (data ttl tags : Value) (scope : String)
  | invalidate (tags : List String)

/-- A request as a step of its own. -/
def Request.step : Request → Step
  | .set target data ttl tags scope => .set target data ttl tags scope
  | .invalidate tags => .invalidate tags

/-- The call of a request. -/
def Request.call (c : Config) : Request → Caching Bool
  | .set target data ttl tags scope => Cache.set c target data ttl tags scope
  | .invalidate tags => do
    Cache.invalidate c (tags.map .text)
    return true

variable {ι : Type}

/-- A question that one of many calls asks at a time, with its answer. -/
structure Event (ι : Type) where
  caller : ι
  time : Number
  said : Exchange Question.Answer

/-- What belongs to one of many calls. -/
def own [DecidableEq ι] (i : ι) (events : List (Event ι)) : List (Exchange Question.Answer) :=
  (events.filter (·.caller = i)).map (·.said)

/-- A store in memory answers events, one after the other, at times that do not go back. -/
def Answered (now : Number) (m : Memory) (now' : Number) (m' : Memory) : List (Event ι) → Prop
  | [] => now = now' ∧ m = m'
  | x :: events =>
    Later now x.time ∧ x.said.2 = (overMemory x.time x.said.1 m).1 ∧
      Answered x.time (overMemory x.time x.said.1 m).2 now' m' events

/-- Requests that are carried out side by side over one store, from one state to another. The events
of a request are a whole conversation of its call, and the store answers all events in the order in
which they happen. -/
structure Interleaving (ι : Type) [DecidableEq ι] (c : Config) (s : State) where
  requests : ι → Request
  results : ι → Except Fault Bool
  events : List (Event ι)
  last : State
  finished : ∀ i, Talks ((requests i).call c) (own i events) (results i)
  answered : Answered s.now s.store last.now last.store events

section

variable [DecidableEq ι]

theorem own_append (i : ι) (xs ys : List (Event ι)) : own i (xs ++ ys) = own i xs ++ own i ys := by
  simp [own]

theorem own_cons_self (x : Event ι) (events : List (Event ι)) :
    own x.caller (x :: events) = x.said :: own x.caller events := by
  simp [own]

theorem own_cons_of_ne {j : ι} {x : Event ι} (h : x.caller ≠ j) (events : List (Event ι)) :
    own j (x :: events) = own j events := by
  simp [own, h]

theorem mem_own {i : ι} {e : Exchange Question.Answer} {events : List (Event ι)} :
    e ∈ own i events ↔ ∃ x ∈ events, x.caller = i ∧ x.said = e := by
  simp [own, and_assoc]

/-- Where the own events are split, all events are. -/
theorem split_own {i : ι} {events : List (Event ι)} {e : Exchange Question.Answer}
    {h₁ h₂ : List (Exchange Question.Answer)} (h : own i events = h₁ ++ e :: h₂) :
    ∃ before x after, events = before ++ x :: after ∧ x.caller = i ∧ x.said = e ∧
      own i before = h₁ ∧ own i after = h₂ := by
  induction events generalizing h₁ with
  | nil => simp [own] at h
  | cons y events ih =>
    by_cases hj : y.caller = i
    · subst hj
      rw [own_cons_self] at h
      cases h₁ with
      | nil =>
        obtain ⟨hsaid, hrest⟩ := List.cons.inj h
        exact ⟨[], y, events, rfl, rfl, hsaid, rfl, hrest⟩
      | cons z h₁ =>
        obtain ⟨hsaid, hrest⟩ := List.cons.inj h
        obtain ⟨before, x, after, rfl, hx, he, hbefore, hafter⟩ := ih hrest
        exact ⟨y :: before, x, after, rfl, hx, he, by rw [own_cons_self, hbefore, hsaid], hafter⟩
    · rw [own_cons_of_ne hj] at h
      obtain ⟨before, x, after, rfl, hx, he, hbefore, hafter⟩ := ih h
      exact ⟨y :: before, x, after, rfl, hx, he, by rw [own_cons_of_ne hj, hbefore], hafter⟩

end

section

variable {now now' : Number} {m m' : Memory} {events : List (Event ι)}

theorem answered_append {more : List (Event ι)} (h : Answered now m now' m' (events ++ more)) :
    ∃ t between, Answered now m t between events ∧ Answered t between now' m' more := by
  induction events generalizing now m with
  | nil => exact ⟨now, m, ⟨rfl, rfl⟩, h⟩
  | cons x events ih =>
    obtain ⟨hlater, hx, hrest⟩ := h
    obtain ⟨t, between, hbetween, hmore⟩ := ih hrest
    exact ⟨t, between, ⟨hlater, hx, hbetween⟩, hmore⟩

theorem answered_concat (h : Answered now m now' m' events) (i : ι) (q : Question) {t : Number}
    (hlater : Later now' t) :
    Answered now m t (overMemory t q m').2 (events ++ [⟨i, t, q, (overMemory t q m').1⟩]) := by
  induction events generalizing now m with
  | nil =>
    obtain ⟨rfl, rfl⟩ := h
    exact ⟨hlater, rfl, rfl, rfl⟩
  | cons x events ih => exact ⟨h.1, h.2.1, ih h.2.2⟩

theorem answered_later (h : Answered now m now' m' events) : Later now now' := by
  induction events generalizing now m with
  | nil =>
    obtain ⟨rfl, -⟩ := h
    exact Number.later_refl now
  | cons x events ih => exact h.1.trans (ih h.2.2)

/-- Events are answered in the order of their times. -/
theorem answered_times (h : Answered now m now' m' events) :
    (∀ x ∈ events, Later now x.time) ∧ events.Pairwise fun x y => Later x.time y.time := by
  induction events generalizing now m with
  | nil => exact ⟨List.forall_mem_nil _, .nil⟩
  | cons x events ih =>
    obtain ⟨hlater, -, hrest⟩ := h
    obtain ⟨hafter, htimes⟩ := ih hrest
    exact ⟨List.forall_mem_cons.mpr ⟨hlater, fun y hy => hlater.trans (hafter y hy)⟩,
      .cons hafter htimes⟩

end

/-- What is left of calls, the time and the store, and what has happened. -/
structure Underway (ι : Type) where
  left : ι → Script Question Question.Answer (Except Fault Bool)
  state : State
  events : List (Event ι)

namespace Underway

/-- The result of a call that is over. -/
def result? (w : Underway ι) (i : ι) : Option (Except Fault Bool) :=
  match w.left i with
  | .done r => some r
  | .ask .. => none

theorem left_of_result {w : Underway ι} {i : ι} {r : Except Fault Bool}
    (h : w.result? i = some r) : w.left i = .done r := by
  unfold result? at h
  split at h
  · rename_i hleft
    rw [hleft, Option.some.inj h]
  · cases h

variable [DecidableEq ι]

/-- The next question of a call is answered at a time, which is put off until the present one is
over. -/
def advance (w : Underway ι) (turn : ι × Number) : Underway ι :=
  match w.left turn.1 with
  | .done _ => w
  | .ask q next =>
    let t := if w.state.now.atMost turn.2 then turn.2 else w.state.now
    { left := Function.update w.left turn.1 (next (overMemory t q w.state.store).1)
      state := ⟨t, (overMemory t q w.state.store).2⟩
      events := w.events ++ [⟨turn.1, t, q, (overMemory t q w.state.store).1⟩] }

/-- The questions of calls are answered in turn. -/
def follow (w : Underway ι) (turns : List (ι × Number)) : Underway ι := turns.foldl advance w

/-- Calls that have not begun. -/
def ready (c : Config) (s : State) (requests : ι → Request) : Underway ι :=
  ⟨fun i => ((requests i).call c).run, s, []⟩

/-- What has happened is the beginning of conversations of calls, which a store has answered. -/
def Fits (c : Config) (s : State) (requests : ι → Request) (w : Underway ι) : Prop :=
  Answered s.now s.store w.state.now w.state.store w.events ∧
    ∀ i h r, Script.Talks (w.left i) h r → Talks ((requests i).call c) (own i w.events ++ h) r

end Underway

section

variable [DecidableEq ι] {c : Config} {s : State} {requests : ι → Request}

theorem fits_advance {w : Underway ι} (h : w.Fits c s requests) (turn : ι × Number) :
    (w.advance turn).Fits c s requests := by
  obtain ⟨hanswered, htalks⟩ := h
  obtain ⟨i, t⟩ := turn
  unfold Underway.advance
  cases hleft : w.left i with
  | done r => exact ⟨hanswered, htalks⟩
  | ask q next =>
    dsimp only
    generalize ht : (if w.state.now.atMost t then t else w.state.now) = now
    have hlater : Later w.state.now now := by
      subst ht
      split
      · exact .inr ‹_›
      · exact .inl rfl
    refine ⟨answered_concat hanswered i q hlater, fun j h r htalk => ?_⟩
    dsimp only at htalk ⊢
    rw [own_append, List.append_assoc]
    by_cases hj : i = j
    · subst hj
      rw [Function.update_self] at htalk
      have hbegun := htalks i (⟨q, (overMemory now q w.state.store).1⟩ :: h) r
      rw [hleft] at hbegun
      exact own_cons_self (Event.mk i now ⟨q, (overMemory now q w.state.store).1⟩) [] ▸
        hbegun ⟨_, h, rfl, htalk⟩
    · rw [Function.update_of_ne (Ne.symm hj)] at htalk
      rw [own_cons_of_ne hj]
      exact htalks j h r htalk

theorem fits_follow (c : Config) (s : State) (requests : ι → Request) (turns : List (ι × Number)) :
    ((Underway.ready c s requests).follow turns).Fits c s requests := by
  unfold Underway.follow
  refine List.foldlRecOn turns _ ?_ fun w hw turn _ => fits_advance hw turn
  exact ⟨⟨rfl, rfl⟩, fun i h r htalk => htalk⟩

/-- Calls that take turns until all are over are carried out side by side. -/
def Interleaving.ofTurns (c : Config) (s : State) (requests : ι → Request)
    (turns : List (ι × Number))
    (hover : ∀ i, (((Underway.ready c s requests).follow turns).result? i).isSome) :
    Interleaving ι c s where
  requests := requests
  results i := (((Underway.ready c s requests).follow turns).result? i).get (hover i)
  events := ((Underway.ready c s requests).follow turns).events
  last := ((Underway.ready c s requests).follow turns).state
  finished i := by
    obtain ⟨r, hr⟩ := Option.isSome_iff_exists.mp (hover i)
    have htalk := (fits_follow c s requests turns).2 i [] r
    rw [List.append_nil, Underway.left_of_result hr] at htalk
    rw [Option.get_of_eq_some (hover i) hr]
    exact htalk ⟨rfl, rfl⟩
  answered := (fits_follow c s requests turns).1

end

end RowGate.Cache
