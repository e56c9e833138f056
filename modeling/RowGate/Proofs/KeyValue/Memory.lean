import RowGate.KeyValue.Memory
import RowGate.Proofs.Number.Order
import RowGate.Proofs.Sequence
import RowGate.Proofs.Text.Collection
/-!
Texts and sets in a store in memory. Main statements: a call leaves only texts there that were there
before, or that it puts there itself, and what is found is there; what is under a name after a call.
-/
namespace RowGate

namespace KeyValue.Memory

variable {m : Memory} {now : Number} {key text : String}

/-- A text is held under a key, ended or not. -/
def Holds (m : Memory) (key text : String) : Prop :=
  ∃ e, m.values.get? key = some e ∧ e.content = text

theorem not_holds_empty : ¬ empty.Holds key text := nofun

theorem holds_of_erase {name : String} {sets : Entries (Expiring (List String))}
    (h : (⟨m.values.erase name, sets⟩ : Memory).Holds key text) : m.Holds key text := by
  obtain ⟨e, he, hcontent⟩ := h
  by_cases hname : key = name
  · rw [hname, Entries.get?_erase_self] at he
    cases he
  · rw [Entries.get?_erase_of_ne _ hname] at he
    exact ⟨e, he, hcontent⟩

theorem holds_of_delete {keys : List String} (h : (m.delete keys).Holds key text) :
    m.Holds key text := by
  induction keys generalizing m with
  | nil => exact h
  | cons name keys ih => exact holds_of_erase (ih h)

theorem values_settle (m : Memory) (now : Number) (name : String) :
    (m.settle now name).values = m.values := by
  unfold settle
  split
  · split <;> rfl
  · rfl

/-- What is found is held. -/
theorem holds_of_get (h : (m.get now key).1 = some text) : m.Holds key text := by
  unfold get at h
  split at h
  · cases h
  · rename_i e he
    split at h
    · cases h
    · exact ⟨e, he, Option.some.inj h⟩

theorem holds_of_set {name value : String} {ttl : Option Number} {m' : Memory}
    (hset : m.set now name value ttl = .ok m') (h : m'.Holds key text) :
    m.Holds key text ∨ key = name ∧ text = value := by
  obtain ⟨ends, -, hm⟩ := sequence_eq_ok.mp hset
  obtain rfl := pure_answers.mp hm
  obtain ⟨e, he, hcontent⟩ := h
  by_cases hname : key = name
  · rw [hname, Entries.get?_insert_self, Option.some.injEq] at he
    exact .inr ⟨hname, by rw [← hcontent, ← he]⟩
  · rw [Entries.get?_insert_of_ne _ hname] at he
    exact .inl ⟨e, he, hcontent⟩

theorem values_addToSet {name : String} {members : List String} {ttl : Option Number} {m' : Memory}
    (h : m.addToSet now name members ttl = .ok m') : m'.values = m.values := by
  unfold addToSet at h
  dsimp only at h
  split at h
  · obtain ⟨ends, -, hm⟩ := sequence_eq_ok.mp h
    rw [← pure_answers.mp hm]
    exact values_settle m now name
  · split at h
    all_goals
      obtain ⟨ends, -, hm⟩ := sequence_eq_ok.mp h
      rw [← pure_answers.mp hm]
      exact values_settle m now name

theorem sets_addToSet_of_ne {name : String} {members : List String} {ttl : Option Number}
    {m' : Memory} (h : m.addToSet now name members ttl = .ok m') (hne : key ≠ name) :
    m'.sets.get? key = (m.settle now name).sets.get? key := by
  unfold addToSet at h
  dsimp only at h
  split at h
  · obtain ⟨ends, -, hm⟩ := sequence_eq_ok.mp h
    rw [← pure_answers.mp hm]
    exact Entries.get?_insert_of_ne _ hne _
  · split at h
    all_goals
      obtain ⟨ends, -, hm⟩ := sequence_eq_ok.mp h
      rw [← pure_answers.mp hm]
      exact Entries.get?_insert_of_ne _ hne _

theorem answer_addToSet_ok {name : String} {members : List String} {ttl : Option Number} {m' : Memory}
    (h : m.addToSet now name members ttl = .ok m') :
    m.answer now (.addToSet name members ttl) = (.ok (), m') := by
  change (m.widened now name members).attempt (m.addToSet now name members ttl) = _
  rw [h]
  rfl

theorem answer_addToSet_error {name : String} {members : List String} {ttl : Option Number}
    {f : Fault} (h : m.addToSet now name members ttl = .error f) :
    m.answer now (.addToSet name members ttl) = (.error f, m.widened now name members) := by
  change (m.widened now name members).attempt (m.addToSet now name members ttl) = _
  rw [h]
  rfl

theorem values_widened (m : Memory) (now : Number) (name : String) (members : List String) :
    (m.widened now name members).values = m.values := by
  unfold widened
  dsimp only
  split <;> exact values_settle m now name

/-- An addition leaves all texts as they are, also where it fails. -/
theorem values_answer_addToSet (m : Memory) (now : Number) (name : String) (members : List String)
    (ttl : Option Number) : (m.answer now (.addToSet name members ttl)).2.values = m.values := by
  cases hadd : m.addToSet now name members ttl with
  | error f =>
    rw [answer_addToSet_error hadd]
    exact values_widened m now name members
  | ok m' =>
    rw [answer_addToSet_ok hadd]
    exact values_addToSet hadd

/-- Putting a text leaves all sets as they are, also where it fails. -/
theorem sets_answer_set (m : Memory) (now : Number) (name value : String) (ttl : Option Number) :
    (m.answer now (.set name value ttl)).2.sets = m.sets := by
  change (m.attempt (m.set now name value ttl)).2.sets = _
  cases hset : m.set now name value ttl with
  | error f => rfl
  | ok m' =>
    obtain ⟨ends, -, hm⟩ := sequence_eq_ok.mp hset
    obtain rfl := pure_answers.mp hm
    rfl

/-- A call leaves no other texts than those from before and the one that it puts. -/
theorem holds_of_answer {call : Call} (h : (m.answer now call).2.Holds key text) :
    m.Holds key text ∨ ∃ ttl, call = .set key text ttl := by
  cases call with
  | get name =>
    refine .inl ?_
    change (m.get now name).2.Holds key text at h
    unfold get at h
    split at h
    · exact h
    · split at h
      · exact holds_of_erase h
      · exact h
  | set name value ttl =>
    change (m.attempt (m.set now name value ttl)).2.Holds key text at h
    cases hset : m.set now name value ttl with
    | error f =>
      rw [hset] at h
      exact .inl h
    | ok m' =>
      rw [hset] at h
      rcases holds_of_set hset h with hheld | ⟨rfl, rfl⟩
      · exact .inl hheld
      · exact .inr ⟨ttl, rfl⟩
  | delete keys => exact .inl (holds_of_delete h)
  | addToSet name members ttl =>
    refine .inl ?_
    unfold Holds at h ⊢
    rwa [values_answer_addToSet] at h
  | members name =>
    refine .inl ?_
    change (m.settle now name).Holds key text at h
    unfold Holds at h ⊢
    rwa [← values_settle m now name]

theorem get?_values_delete (m : Memory) (keys : List String) (name : String) :
    (m.delete keys).values.get? name = if name ∈ keys then none else m.values.get? name := by
  induction keys generalizing m with
  | nil => simp [delete]
  | cons k keys ih =>
    change (delete ⟨m.values.erase k, m.sets.erase k⟩ keys).values.get? name = _
    rw [ih]
    by_cases hk : name = k
    · subst hk
      simp
    · simp [hk, Entries.get?_erase_of_ne _ hk]

theorem get?_sets_delete (m : Memory) (keys : List String) (name : String) :
    (m.delete keys).sets.get? name = if name ∈ keys then none else m.sets.get? name := by
  induction keys generalizing m with
  | nil => simp [delete]
  | cons k keys ih =>
    change (delete ⟨m.values.erase k, m.sets.erase k⟩ keys).sets.get? name = _
    rw [ih]
    by_cases hk : name = k
    · subst hk
      simp
    · simp [hk, Entries.get?_erase_of_ne _ hk]

/-- A call that puts nothing under a key leaves what is there or removes it. -/
theorem entry_answer {call : Call} (h : ∀ value ttl, call ≠ .set key value ttl) (m : Memory) :
    (m.answer now call).2.values.get? key = m.values.get? key ∨
      (m.answer now call).2.values.get? key = none := by
  cases call with
  | get name =>
    change (m.get now name).2.values.get? key = _ ∨ (m.get now name).2.values.get? key = _
    unfold get
    split
    · exact .inl rfl
    · split
      · by_cases hname : key = name
        · exact .inr (hname ▸ Entries.get?_erase_self _ _)
        · exact .inl (Entries.get?_erase_of_ne _ hname)
      · exact .inl rfl
  | set name value ttl =>
    have hname : key ≠ name := fun hname => h value ttl (hname ▸ rfl)
    change (m.attempt (m.set now name value ttl)).2.values.get? key = _ ∨ _
    cases hset : m.set now name value ttl with
    | error f => exact .inl rfl
    | ok m' =>
      obtain ⟨ends, -, hm⟩ := sequence_eq_ok.mp hset
      obtain rfl := pure_answers.mp hm
      exact .inl (Entries.get?_insert_of_ne _ hname _)
  | delete keys =>
    change (m.delete keys).values.get? key = _ ∨ (m.delete keys).values.get? key = _
    rw [get?_values_delete]
    split
    · exact .inr rfl
    · exact .inl rfl
  | addToSet name members ttl =>
    exact .inl (congrArg (·.get? key) (values_answer_addToSet m now name members ttl))
  | members name => exact .inl (congrArg (·.get? key) (values_settle m now name))

theorem endAfter_some {t : Number} {last : Option Number} (h : endAfter now (some t) = .ok last) :
    ∃ ends, last = some ends ∧ now.add t = .ok ends := by
  unfold endAfter at h
  rw [Option.mapM_some] at h
  cases hsum : now.add t with
  | error f =>
    rw [hsum] at h
    cases h
  | ok ends =>
    rw [hsum] at h
    cases h
    exact ⟨ends, rfl, rfl⟩

theorem endAfter_ok {t ends : Number} (h : now.add t = .ok ends) :
    endAfter now (some t) = .ok (some ends) := by
  unfold endAfter
  rw [Option.mapM_some, h]
  rfl

theorem isOver_of_ends {α : Type} {now t : Number} {e : Expiring α} (h : e.ends = some t) :
    e.isOver now = t.atMost now := by
  unfold Expiring.isOver
  rw [h]

/-- What is over stays over. -/
theorem isOver_later {α : Type} {now t : Number} {e : Expiring α} (hlater : Number.Later now t)
    (h : e.isOver now = true) : e.isOver t = true := by
  cases hends : e.ends with
  | none =>
    unfold Expiring.isOver at h
    rw [hends] at h
    cases h
  | some ends =>
    rw [isOver_of_ends hends] at h ⊢
    exact hlater.atMost h

/-- What is held, unless its end has come. -/
def unended {α : Type} (now : Number) (e : Option (Expiring α)) : Option (Expiring α) :=
  e.filter fun e => !e.isOver now

theorem unended_some {α : Type} {now : Number} {e : Expiring α} :
    unended now (some e) = if e.isOver now then none else some e := by
  unfold unended
  cases hover : e.isOver now <;> simp [Option.filter, hover]

theorem unended_eq_some {α : Type} {now : Number} {s : Option (Expiring α)} {e : Expiring α} :
    unended now s = some e ↔ s = some e ∧ e.isOver now = false := by
  unfold unended
  rw [Option.filter_eq_some_iff, Bool.not_eq_true']

theorem get?_settle (m : Memory) (now : Number) (key name : String) :
    (m.settle now key).sets.get? name =
      if name = key then unended now (m.sets.get? key) else m.sets.get? name := by
  unfold settle
  by_cases hname : name = key
  · subst hname
    rw [if_pos rfl]
    cases hentry : m.sets.get? name with
    | none => exact hentry
    | some e =>
      rw [unended_some]
      dsimp only
      by_cases hover : e.isOver now = true
      · rw [if_pos hover, if_pos hover]
        exact Entries.get?_erase_self _ _
      · rw [if_neg hover, if_neg hover]
        exact hentry
  · rw [if_neg hname]
    split
    · split
      · exact Entries.get?_erase_of_ne _ hname
      · rfl
    · rfl

theorem unended_unended {α : Type} (now : Number) (s : Option (Expiring α)) :
    unended now (unended now s) = unended now s := by
  simp [unended, Option.filter_filter]

theorem unended_later {α : Type} {now t : Number} (hlater : Number.Later now t)
    (s : Option (Expiring α)) : unended t (unended now s) = unended t s := by
  cases s with
  | none => rfl
  | some e =>
    rw [unended_some]
    split
    · rename_i hover
      rw [unended_some, if_pos (isOver_later hlater hover)]
      rfl
    · rfl

theorem get_eq (m : Memory) (now : Number) (key : String) :
    (m.get now key).1 = (unended now (m.values.get? key)).map (·.content) := by
  unfold get
  cases m.values.get? key with
  | none => rfl
  | some e =>
    rw [unended_some]
    dsimp only
    split <;> rfl

theorem members_eq (m : Memory) (now : Number) (key : String) :
    (m.members now key).1 = ((unended now (m.sets.get? key)).map (·.content)).getD [] := by
  unfold members
  dsimp only
  rw [get?_settle, if_pos rfl]

theorem unended_settle (m : Memory) (now : Number) (key name : String) :
    unended now ((m.settle now key).sets.get? name) = unended now (m.sets.get? name) := by
  rw [get?_settle]
  split
  · rename_i hname
    rw [unended_unended, hname]
  · rfl

/-- A set with further members, which lasts at least until an end. -/
def extended (now : Number) (members : List String) (ends : Option Number)
    (s : Option (Expiring (List String))) : Expiring (List String) :=
  match unended now s with
  | none => ⟨Text.distinct members, ends⟩
  | some e => ⟨Text.distinct (e.content ++ members), laterEnd e.ends ends⟩

theorem get?_insert_settle (m : Memory) (now : Number) (key name : String)
    (s : Expiring (List String)) : ((m.settle now key).sets.insert key s).get? name =
      if name = key then some s else m.sets.get? name := by
  by_cases hname : name = key
  · subst hname
    rw [Entries.get?_insert_self, if_pos rfl]
  · rw [Entries.get?_insert_of_ne _ hname, get?_settle, if_neg hname, if_neg hname]

theorem get?_widened (m : Memory) (now : Number) (key name : String) (members : List String) :
    (m.widened now key members).sets.get? name =
      if name = key then (unended now (m.sets.get? key)).map fun e =>
        ⟨Text.distinct (e.content ++ members), e.ends⟩
      else m.sets.get? name := by
  have hheld := get?_settle m now key key
  rw [if_pos rfl] at hheld
  unfold widened
  dsimp only
  rw [hheld]
  cases hentry : unended now (m.sets.get? key) with
  | none =>
    dsimp only
    rw [get?_settle, hentry]
    rfl
  | some e => exact get?_insert_settle m now key name _

theorem addToSet_ok (m : Memory) {now : Number} (key : String) (members : List String)
    {ttl ends : Option Number} (hends : endAfter now ttl = .ok ends) :
    ∃ m', m.addToSet now key members ttl = .ok m' ∧ m'.values = m.values ∧
      ∀ name, m'.sets.get? name =
        if name = key then some (extended now members ends (m.sets.get? key))
        else m.sets.get? name := by
  have hheld := get?_settle m now key key
  rw [if_pos rfl] at hheld
  unfold addToSet extended
  dsimp only
  rw [hheld, hends]
  cases unended now (m.sets.get? key) with
  | none =>
    refine ⟨_, rfl, values_settle m now key, ?_⟩
    intro name
    exact get?_insert_settle m now key name _
  | some e =>
    dsimp only
    -- a set without an end stays without one
    cases e.ends with
    | none =>
      refine ⟨_, rfl, values_settle m now key, ?_⟩
      intro name
      exact get?_insert_settle m now key name _
    | some t =>
      refine ⟨_, rfl, values_settle m now key, ?_⟩
      intro name
      exact get?_insert_settle m now key name _

/-- An addition to a set without an end does not reckon one. -/
theorem addToSet_endless (members : List String) (ttl : Option Number)
    {e : Expiring (List String)} (hheld : unended now (m.sets.get? key) = some e)
    (hends : e.ends = none) :
    ∃ m', m.addToSet now key members ttl = .ok m' ∧
      m'.sets.get? key = some ⟨Text.distinct (e.content ++ members), none⟩ := by
  have hsettled := get?_settle m now key key
  rw [if_pos rfl, hheld] at hsettled
  unfold addToSet
  dsimp only
  rw [hsettled]
  dsimp only
  rw [hends]
  refine ⟨_, rfl, ?_⟩
  dsimp only
  rw [get?_insert_settle, if_pos rfl]
  rfl

theorem addToSet_error {ttl : Option Number} (members : List String) {f : Fault}
    (hends : endAfter now ttl = .error f)
    (hset : ∀ e, unended now (m.sets.get? key) = some e → e.ends.isSome) :
    m.addToSet now key members ttl = .error f := by
  have hsettled := get?_settle m now key key
  rw [if_pos rfl] at hsettled
  unfold addToSet
  dsimp only
  rw [hsettled, hends]
  cases hentry : unended now (m.sets.get? key) with
  | none => rfl
  | some e =>
    dsimp only
    rw [if_pos (hset e hentry)]
    rfl

end KeyValue.Memory
end RowGate
