import RowGate.Endpoint.Basic
import RowGate.Proofs.KeyValue.Memory
import RowGate.Proofs.KeyValue.Redis
/-!
The store of a cache under many calls that interleave. Main statements: stores in memory and stores
over a server find only texts that have been put under the key, at whatever times they are asked.
-/
namespace RowGate.Endpoint

variable {ι : Type}

/-- A question of one of many calls, with its answer. -/
abbrev Event (ι : Type) := ι × Exchange Question.Answer

/-- A text is put under a key. -/
def Puts (events : List (Event ι)) (i : ι) (key text : String) : Prop :=
  ∃ ttl answer, (i, ⟨.cache (.store (.set key text ttl)), answer⟩) ∈ events

/-- Stores find only what was put there: a text that is found under a key has been put under it. -/
def HandsBack (events : List (Event ι)) : Prop :=
  ∀ before i key text after,
    events = before ++ (i, ⟨.cache (.store (.get key)), .ok (some text)⟩) :: after →
      ∃ j, Puts before j key text

theorem Puts.append {events : List (Event ι)} {i : ι} {key text : String}
    (h : Puts events i key text) (more : List (Event ι)) : Puts (events ++ more) i key text := by
  obtain ⟨ttl, answer, hmem⟩ := h
  exact ⟨ttl, answer, List.mem_append_left more hmem⟩

theorem handsBack_nil : HandsBack ([] : List (Event ι)) := by
  intro before i key text after h
  simp at h

/-- Where a list with one more item is split, this is at that item or before it. -/
theorem split_concat {α : Type} {xs front rest : List α} {x y : α}
    (h : xs ++ [y] = front ++ x :: rest) :
    xs = front ∧ y = x ∨ ∃ more, xs = front ++ x :: more := by
  rcases List.eq_nil_or_concat rest with rfl | ⟨more, z, rfl⟩
  · obtain ⟨hfront, hlast⟩ := List.append_inj' h rfl
    exact .inl ⟨hfront, List.singleton_inj.mp hlast⟩
  · rw [List.concat_eq_append, ← List.cons_append, ← List.append_assoc] at h
    exact .inr ⟨more, (List.append_inj' h rfl).1⟩

/-- One more event. -/
theorem HandsBack.concat {events : List (Event ι)} (h : HandsBack events) {x : Event ι}
    (hx : ∀ i key text, x = (i, ⟨.cache (.store (.get key)), .ok (some text)⟩) →
      ∃ j, Puts events j key text) : HandsBack (events ++ [x]) := by
  intro before i key text after hsplit
  rcases split_concat hsplit with ⟨rfl, hlast⟩ | ⟨more, hevents⟩
  · exact hx i key text hlast
  · exact h before i key text more hevents

/-- Events whose cache is over a store in memory that held nothing at first; it is asked at any
times. -/
inductive OverMemory : List (Event ι) → KeyValue.Memory → Prop where
  | start : OverMemory [] .empty
  | stored {events : List (Event ι)} {m : KeyValue.Memory} (h : OverMemory events m) (i : ι)
      (now : Number) (call : KeyValue.Call) :
      OverMemory (events ++ [(i, ⟨.cache (.store call), (m.answer now call).1⟩)])
        (m.answer now call).2
  | beside {events : List (Event ι)} {m : KeyValue.Memory} (h : OverMemory events m) (x : Event ι)
      (hx : ∀ call, x.2.1 ≠ .cache (.store call)) : OverMemory (events ++ [x]) m

/-- A call of a store in memory that holds only what was put there leaves it so. -/
theorem holds_put_step {events : List (Event ι)} {m : KeyValue.Memory}
    (h : ∀ key text, m.Holds key text → ∃ j, Puts events j key text) (i : ι) (now : Number)
    (call : KeyValue.Call) : ∀ key text, (m.answer now call).2.Holds key text →
      ∃ j, Puts (events ++ [(i, ⟨.cache (.store call), (m.answer now call).1⟩)]) j key text := by
  intro key text hholds
  rcases KeyValue.Memory.holds_of_answer hholds with hheld | ⟨ttl, rfl⟩
  · obtain ⟨j, hput⟩ := h key text hheld
    exact ⟨j, hput.append _⟩
  · exact ⟨i, ttl, _, List.mem_append_right _ (List.mem_singleton_self _)⟩

/-- A store in memory holds only what was put there. -/
theorem OverMemory.holds_put {events : List (Event ι)} {m : KeyValue.Memory}
    (h : OverMemory events m) : ∀ key text, m.Holds key text → ∃ j, Puts events j key text := by
  induction h with
  | start => exact fun key text hholds => absurd hholds KeyValue.Memory.not_holds_empty
  | stored _ i now call ih => exact holds_put_step ih i now call
  | beside _ x _ ih =>
    intro key text hholds
    obtain ⟨j, hput⟩ := ih key text hholds
    exact ⟨j, hput.append _⟩

/-- A store in memory finds only what was put there. -/
theorem OverMemory.handsBack {events : List (Event ι)} {m : KeyValue.Memory}
    (h : OverMemory events m) : HandsBack events := by
  induction h with
  | start => exact handsBack_nil
  | stored hm i now call ih =>
    refine ih.concat fun j key text heq => hm.holds_put key text ?_
    cases call with
    | get name =>
      obtain ⟨rfl, hexchange⟩ := Prod.mk.inj heq
      obtain ⟨hquestion, hanswer⟩ := Sigma.mk.inj hexchange
      cases hquestion
      exact KeyValue.Memory.holds_of_get (Except.ok.inj (eq_of_heq hanswer))
    | _ => cases heq
  | beside hm x hx ih =>
    refine ih.concat fun j key text heq => ?_
    rw [heq] at hx
    exact absurd rfl (hx _)

/-- Replies of a server with texts that have been put under the key. -/
def RepliesBack (log : List (Exchange KeyValue.Redis.Command.Answer)) : Prop :=
  ∀ before key reply after, log = before ++ ⟨.get key, some reply⟩ :: after →
    ∃ x ∈ before, ∃ value, x.1.put? = some (key, value) ∧ reply.read = .ok value

/-- Events whose cache is over a server, with what the server was sent and replied. -/
inductive OverServer :
    List (Event ι) → List (Exchange KeyValue.Redis.Command.Answer) → Prop where
  | start : OverServer [] []
  | stored {events : List (Event ι)} {log l : List (Exchange KeyValue.Redis.Command.Answer)}
      (h : OverServer events log) (i : ι) {call : KeyValue.Call} {answer : call.Answer}
      (htalk : (KeyValue.Redis.perform call).Talks l answer) :
      OverServer (events ++ [(i, ⟨.cache (.store call), answer⟩)]) (log ++ l)
  | beside {events : List (Event ι)} {log : List (Exchange KeyValue.Redis.Command.Answer)}
      (h : OverServer events log) (x : Event ι) (hx : ∀ call, x.2.1 ≠ .cache (.store call)) :
      OverServer (events ++ [x]) log

/-- A text is sent to the server only where a call puts it. -/
theorem OverServer.put {events : List (Event ι)}
    {log : List (Exchange KeyValue.Redis.Command.Answer)} (h : OverServer events log) :
    ∀ x ∈ log, ∀ key value, x.1.put? = some (key, value) → ∃ j, Puts events j key value := by
  induction h with
  | start => exact fun x hx => absurd hx List.not_mem_nil
  | stored _ i htalk ih =>
    intro x hx key value hput
    rcases List.mem_append.mp hx with hold | hnew
    · obtain ⟨j, hputs⟩ := ih x hold key value hput
      exact ⟨j, hputs.append _⟩
    · have hserves := (KeyValue.Redis.asksOnly_perform _).of_talks htalk x hnew
      obtain ⟨ttl, rfl⟩ := hserves key value hput
      exact ⟨i, ttl, _, List.mem_append_right _ (List.mem_singleton_self _)⟩
  | beside _ x _ ih =>
    intro y hy key value hput
    obtain ⟨j, hputs⟩ := ih y hy key value hput
    exact ⟨j, hputs.append _⟩

/-- A store over a server finds only what was put there. -/
theorem OverServer.handsBack {events : List (Event ι)}
    {log : List (Exchange KeyValue.Redis.Command.Answer)} (h : OverServer events log)
    (hserver : RepliesBack log) : HandsBack events := by
  induction h with
  | start => exact handsBack_nil
  | stored hlog i htalk ih =>
    rename_i events log l call answer
    have hbefore : RepliesBack log := by
      intro before key reply after hsplit
      exact hserver before key reply (after ++ l) (by rw [hsplit]; simp)
    refine (ih hbefore).concat fun j key text heq => ?_
    obtain ⟨hquestion, hanswer⟩ := Sigma.mk.inj (Prod.mk.inj heq).2
    cases hquestion
    obtain rfl := eq_of_heq hanswer
    obtain ⟨reply, rfl, hread⟩ := KeyValue.Redis.talks_perform_get htalk
    obtain ⟨x, hx, value, hput, hvalue⟩ := hserver log key reply [] rfl
    obtain rfl : value = text := Except.ok.inj (hvalue.symm.trans hread)
    exact hlog.put x hx key value hput
  | beside hlog x hx ih =>
    refine (ih hserver).concat fun j key text heq => ?_
    rw [heq] at hx
    exact absurd rfl (hx _)

end RowGate.Endpoint
