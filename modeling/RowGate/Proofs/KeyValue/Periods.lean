import RowGate.Proofs.KeyValue.Agreement
import RowGate.Proofs.Number.Sums
/-!
Sets of a store in memory over time. The additions to a set make up periods: one ends when the set is
deleted, or when none of its additions holds it any longer. What is over is removed by the first call
that looks for it, which nothing but the number of what is held tells. Main statement: the members that
are found are those of the last period while it lasts, and reading changes no later answer.
-/
namespace RowGate.KeyValue

open Number (Later)
open Memory (unended)

/-- A call at a time. -/
structure TimedCall where
  time : Number
  call : Call

/-- A store after calls. -/
def Memory.after (m : Memory) (run : List TimedCall) : Memory :=
  run.foldl (fun m c => (m.answer c.time c.call).2) m

/-! ## Periods -/

/-- An addition to a set. -/
structure Addition where
  members : List String
  time : Number
  ttl : Option Number

/-- Whether an addition no longer holds its set. One without a time to live holds it for ever, and
one whose end cannot be reckoned does not hold it at all. -/
def Addition.isOver (a : Addition) (now : Number) : Bool :=
  match endAfter a.time a.ttl with
  | .ok (some t) => t.atMost now
  | .ok none => false
  | .error _ => true

/-- The additions of the last period after another one. If none of those before holds the set, a
period begins; an addition whose end cannot be reckoned begins none. -/
def enlarged (p : List Addition) (a : Addition) : List Addition :=
  if p.all (·.isOver a.time) then
    match endAfter a.time a.ttl with
    | .ok _ => [a]
    | .error _ => []
  else p ++ [a]

/-- The additions of the last period of a set after another call. -/
def periodStep (key : String) (p : List Addition) (c : TimedCall) : List Addition :=
  match c.call with
  | .addToSet name members ttl => if name = key then enlarged p ⟨members, c.time, ttl⟩ else p
  | .delete names => if key ∈ names then [] else p
  | .get _ | .set .. | .members _ => p

/-- The additions of the last period of a set in a run. -/
def period (key : String) (run : List TimedCall) : List Addition :=
  run.foldl (periodStep key) []

/-- A call as it is made: at a finite time, with a time to live that is a number if there is one. -/
structure TimedCall.IsProper (c : TimedCall) : Prop where
  time : c.time.IsFinite
  ttl : ∀ key members ttl, c.call = .addToSet key members (some ttl) → ttl.place?.isSome

/-! ## Additions -/

/-- What an addition leaves under its key, given the set that is there. -/
def setAfter (now : Number) (members : List String) (ttl : Option Number) :
    Option (Expiring (List String)) → Option (Expiring (List String))
  | none => (endAfter now ttl).toOption.map fun ends => ⟨Text.distinct members, ends⟩
  | some e => some ⟨Text.distinct (e.content ++ members),
      ((endAfter now ttl).toOption.map (laterEnd e.ends)).getD e.ends⟩

/-- The answer to an addition. Nothing is reckoned for a set without an end. -/
def additionAnswer (now : Number) (ttl : Option Number) :
    Option (Expiring (List String)) → Except Fault Unit
  | some ⟨_, none⟩ => .ok ()
  | _ => (endAfter now ttl).map fun _ => ()

section Additions

variable {m : Memory} {now t : Number} {key : String} {members : List String} {ttl : Option Number}
  {s : Option (Expiring (List String))} {e : Expiring (List String)} {p : List Addition}
  {a : Addition}

theorem answer_addToSet (m : Memory) (now : Number) (key : String) (members : List String)
    (ttl : Option Number) :
    (m.answer now (.addToSet key members ttl)).1 =
        additionAnswer now ttl (unended now (m.sets.get? key)) ∧
      (m.answer now (.addToSet key members ttl)).2.sets.get? key =
        setAfter now members ttl (unended now (m.sets.get? key)) := by
  cases hends : endAfter now ttl with
  | ok ends =>
    obtain ⟨m', hadd, -, hsets⟩ := Memory.addToSet_ok m key members hends
    rw [Memory.answer_addToSet_ok hadd, hsets, if_pos rfl]
    unfold additionAnswer Memory.extended setAfter
    rw [hends]
    rcases unended now (m.sets.get? key) with _ | ⟨content, _ | t⟩ <;> exact ⟨rfl, rfl⟩
  | error f =>
    have hwidened := Memory.get?_widened m now key key members
    rw [if_pos rfl] at hwidened
    unfold additionAnswer setAfter
    rw [hends]
    rcases hheld : unended now (m.sets.get? key) with _ | ⟨content, _ | t⟩
    · have hfails := Memory.addToSet_error members hends fun e he => by
        rw [hheld] at he
        cases he
      rw [Memory.answer_addToSet_error hfails, hwidened, hheld]
      exact ⟨rfl, rfl⟩
    · obtain ⟨m', hadd, hset⟩ := Memory.addToSet_endless members ttl hheld rfl
      rw [Memory.answer_addToSet_ok hadd, hset]
      exact ⟨rfl, rfl⟩
    · have hfails := Memory.addToSet_error members hends fun e he => by
        rw [hheld] at he
        rw [← Option.some.inj he]
        rfl
      rw [Memory.answer_addToSet_error hfails, hwidened, hheld]
      exact ⟨rfl, rfl⟩

theorem isOver_addition {t' : Number} (hlater : Later t t') (h : a.isOver t = true) :
    a.isOver t' = true := by
  unfold Addition.isOver at h ⊢
  split at h
  · exact hlater.atMost h
  · cases h
  · rfl

theorem isOver_laterEnd {x y : Number} (hx : x.place?.isSome) (hy : y.place?.isSome)
    (content : List String) : (⟨content, laterEnd (some x) (some y)⟩ : Expiring _).isOver t =
      (x.atMost t && y.atMost t) := by
  change (if x.less y then y else x).atMost t = _
  cases hless : x.less y with
  | true =>
    rw [if_pos rfl]
    cases hover : y.atMost t with
    | false => rw [Bool.and_false]
    | true => rw [Number.atMost_trans (Number.atMost_of_less hless) hover, Bool.and_true]
  | false =>
    rw [if_neg Bool.false_ne_true]
    cases hover : x.atMost t with
    | false => rw [Bool.false_and]
    | true => rw [Number.atMost_trans (Number.atMost_of_not_less hx hy hless) hover, Bool.and_true]

/-- A set has the members of some additions, and is over when all of them are. -/
structure Covers (now : Number) (e : Expiring (List String)) (p : List Addition) : Prop where
  content : e.content = Text.distinct (p.flatMap (·.members))
  ends : ∀ t, Later now t → e.isOver t = p.all (·.isOver t)
  place : ∀ x ∈ e.ends, x.place?.isSome

/-- What is under the key of a set covers the additions of the last period while it lasts. -/
def Tracks (now : Number) (s : Option (Expiring (List String))) (p : List Addition) : Prop :=
  match unended now s with
  | none => p.all (·.isOver now) = true
  | some e => Covers now e p

theorem Covers.later (h : Covers now e p) (hlater : Later now t) : Covers t e p :=
  ⟨h.content, fun t' ht' => h.ends t' (hlater.trans ht'), h.place⟩

theorem Covers.tracks (h : Covers now e p) : Tracks now (some e) p := by
  have hover := h.ends now (Number.later_refl now)
  unfold Tracks
  rw [Memory.unended_some]
  by_cases hends : e.isOver now = true
  · rw [if_pos hends]
    exact hover.symm.trans hends
  · rw [if_neg hends]
    exact h

theorem Tracks.later (h : Tracks now s p) (hlater : Later now t) : Tracks t s p := by
  -- what is held may have come to its end in between
  unfold Tracks at h
  have hs : Tracks t (unended now s) p := by
    cases hheld : unended now s with
    | none =>
      rw [hheld] at h
      exact List.all_eq_true.mpr fun a ha => isOver_addition hlater (List.all_eq_true.mp h a ha)
    | some e =>
      rw [hheld] at h
      exact (h.later hlater).tracks
  unfold Tracks at hs ⊢
  rwa [Memory.unended_later hlater] at hs

/-- An addition that begins a period. -/
theorem covers_first {ends : Option Number} (hends : endAfter a.time a.ttl = .ok ends)
    (hplace : ∀ x ∈ ends, x.place?.isSome) : Covers now ⟨Text.distinct a.members, ends⟩ [a] where
  content := by rw [List.flatMap_singleton]
  ends t _ := by
    rw [List.all_cons, List.all_nil, Bool.and_true]
    unfold Addition.isOver
    rw [hends]
    cases ends <;> rfl
  place := hplace

/-- The end of a set after a further addition. -/
def endAfterAddition (ends : Option Number) (a : Addition) : Option Number :=
  ((endAfter a.time a.ttl).toOption.map (laterEnd ends)).getD ends

theorem isOver_endAfterAddition {ends : Option Number} (hplace : ∀ x ∈ ends, x.place?.isSome)
    (haplace : ∀ last, endAfter a.time a.ttl = .ok last → ∀ y ∈ last, y.place?.isSome)
    (before after : List String) :
    (⟨after, endAfterAddition ends a⟩ : Expiring _).isOver t =
      ((⟨before, ends⟩ : Expiring _).isOver t && a.isOver t) := by
  unfold endAfterAddition Addition.isOver
  cases ends with
  | none => cases endAfter a.time a.ttl <;> rfl
  | some x =>
    cases hends : endAfter a.time a.ttl with
    | error f => exact (Bool.and_true _).symm
    | ok last =>
      cases last with
      | none => exact (Bool.and_false _).symm
      | some y => exact isOver_laterEnd (hplace x rfl) (haplace _ hends y rfl) after

theorem place_endAfterAddition {ends : Option Number} (hplace : ∀ x ∈ ends, x.place?.isSome)
    (haplace : ∀ last, endAfter a.time a.ttl = .ok last → ∀ y ∈ last, y.place?.isSome) :
    ∀ x ∈ endAfterAddition ends a, x.place?.isSome := by
  unfold endAfterAddition
  cases hends : endAfter a.time a.ttl with
  | error f => exact hplace
  | ok last =>
    intro z hz
    change z ∈ laterEnd ends last at hz
    rcases ends with _ | x
    · cases hz
    rcases last with _ | y
    · cases hz
    obtain rfl := Option.some.inj hz
    split
    · exact haplace _ hends y rfl
    · exact hplace x rfl

/-- A further addition of a period, whether its end can be reckoned or not. -/
theorem Covers.extend (h : Covers now e p)
    (hplace : ∀ ends, endAfter a.time a.ttl = .ok ends → ∀ x ∈ ends, x.place?.isSome) :
    Covers now ⟨Text.distinct (e.content ++ a.members), endAfterAddition e.ends a⟩ (p ++ [a]) where
  content := by
    rw [h.content, Text.distinct_append, List.flatMap_append, List.flatMap_singleton]
  ends t ht := by
    have hover := h.ends t ht
    rw [List.all_append, List.all_cons, List.all_nil, Bool.and_true, ← hover]
    exact isOver_endAfterAddition h.place hplace e.content _
  place := place_endAfterAddition h.place hplace

/-- An addition leaves a set of the last period. -/
theorem Tracks.add (h : Tracks a.time s p)
    (hplace : ∀ ends, endAfter a.time a.ttl = .ok ends → ∀ x ∈ ends, x.place?.isSome) :
    Tracks a.time (setAfter a.time a.members a.ttl (unended a.time s)) (enlarged p a) := by
  unfold Tracks at h
  unfold enlarged
  cases hheld : unended a.time s with
  | none =>
    rw [hheld] at h
    rw [if_pos h]
    unfold setAfter
    cases hends : endAfter a.time a.ttl with
    | error f => exact List.all_nil
    | ok ends => exact (covers_first hends (hplace ends hends)).tracks
  | some e =>
    rw [hheld] at h
    have hlive : p.all (·.isOver a.time) = false := by
      rw [← h.ends a.time (Number.later_refl _)]
      exact (Memory.unended_eq_some.mp hheld).2
    rw [hlive, if_neg Bool.false_ne_true]
    exact (h.extend hplace).tracks

end Additions

/-! ## Runs -/

section Runs

variable {m m' : Memory} {now t : Number} {key : String} {p : List Addition} {c : TimedCall}
  {run : List TimedCall}

theorem TimedCall.IsProper.place (h : c.IsProper) {members : List String} {ttl ends : Option Number}
    (hcall : c.call = .addToSet key members ttl) (hends : endAfter c.time ttl = .ok ends) :
    ∀ x ∈ ends, x.place?.isSome := by
  cases ttl with
  | none =>
    cases hends
    exact fun _ hx => by cases hx
  | some length =>
    obtain ⟨last, rfl, hsum⟩ := Memory.endAfter_some hends
    intro x hx
    obtain rfl := Option.some.inj hx
    exact Number.place_sum h.time.place (h.ttl key members length hcall) (.inl h.time) hsum

/-- A call leaves a set of the last period. -/
theorem tracks_step (hc : c.IsProper) (h : Tracks c.time (m.sets.get? key) p) :
    Tracks c.time ((m.answer c.time c.call).2.sets.get? key) (periodStep key p c) := by
  obtain ⟨time, call⟩ := c
  have huntouched (htouches : ¬ Twins.Touches key call) :
      Tracks time ((m.answer time call).2.sets.get? key) p := by
    unfold Tracks
    rw [Twins.sets_untouched htouches]
    exact h
  cases call with
  | get name => exact huntouched nofun
  | members name => exact huntouched nofun
  | set name value ttl =>
    unfold Tracks
    rw [Memory.sets_answer_set]
    exact h
  | delete names =>
    change Tracks time _ (if key ∈ names then [] else p)
    by_cases hname : key ∈ names
    · rw [if_pos hname]
      change Tracks time ((m.delete names).sets.get? key) []
      rw [Memory.get?_sets_delete, if_pos hname]
      exact List.all_nil
    · rw [if_neg hname]
      exact huntouched hname
  | addToSet name members ttl =>
    change Tracks time _ (if name = key then enlarged p ⟨members, time, ttl⟩ else p)
    by_cases hname : name = key
    · subst hname
      rw [if_pos rfl, (answer_addToSet m time name members ttl).2]
      exact h.add (a := ⟨members, time, ttl⟩) fun ends => hc.place rfl
    · rw [if_neg hname]
      exact huntouched fun htouches => hname htouches.symm

/-- Induction along a run: what holds at first, goes on holding as time passes, and holds after each
call if it held at the time of the call. -/
theorem run_induction {P : Number → List TimedCall → Prop} {start : Number}
    (hstart : P start []) (hlater : ∀ {now t run}, Later now t → P now run → P t run)
    (hcall : ∀ {run c}, c.IsProper → P c.time run → P c.time (run ++ [c]))
    (hproper : ∀ c ∈ run, c.IsProper)
    (hclock : (start :: (run.map (·.time) ++ [t])).Pairwise Later) : P t run := by
  -- from the last call, with the time after it left open: the run before it ends at its time
  induction run using List.reverseRecOn generalizing t with
  | nil => exact hlater (List.rel_of_pairwise_cons hclock (by simp)) hstart
  | append_singleton run c ih =>
    rw [List.map_append, List.map_singleton, ← List.cons_append, List.pairwise_append] at hclock
    obtain ⟨hbefore, -, hlast⟩ := hclock
    have htime : Later c.time t := hlast c.time (by simp) t (by simp)
    have hrun := ih (fun d hd => hproper d (List.mem_append_left _ hd)) hbefore
    exact hlater htime (hcall (hproper c (by simp)) hrun)

theorem after_concat (m : Memory) (run : List TimedCall) (c : TimedCall) :
    m.after (run ++ [c]) = ((m.after run).answer c.time c.call).2 := by
  simp [Memory.after]

theorem period_concat (key : String) (run : List TimedCall) (c : TimedCall) :
    period key (run ++ [c]) = periodStep key (period key run) c := by
  simp [period]

/-- The clock of a run may be taken to start at its first time. -/
theorem clock_starts {times : List Number} (h : (times ++ [t]).Pairwise Later) :
    ∃ start, (start :: (times ++ [t])).Pairwise Later := by
  cases times with
  | nil => exact ⟨t, by simp [Number.later_refl]⟩
  | cons s times =>
    refine ⟨s, List.pairwise_cons.mpr ⟨fun x hx => ?_, h⟩⟩
    rcases List.mem_cons.mp hx with rfl | hx
    · exact Number.later_refl x
    · exact List.rel_of_pairwise_cons h hx

/-- After a run there is a set of the last period. -/
theorem tracks_run (key : String) (hproper : ∀ c ∈ run, c.IsProper)
    (hclock : (run.map (·.time) ++ [now]).Pairwise Later) :
    Tracks now ((Memory.empty.after run).sets.get? key) (period key run) := by
  obtain ⟨start, hclock⟩ := clock_starts hclock
  refine run_induction
    (P := fun now run => Tracks now ((Memory.empty.after run).sets.get? key) (period key run))
    List.all_nil (fun hlater h => h.later hlater) ?_ hproper hclock
  intro run c hc h
  rw [after_concat, period_concat]
  exact tracks_step hc h

/-- The members that are found are those of the last period, while it lasts. -/
theorem Tracks.members (h : Tracks now (m.sets.get? key) p) :
    (m.members now key).1 =
      if p.all (·.isOver now) then [] else Text.distinct (p.flatMap (·.members)) := by
  rw [Memory.members_eq]
  unfold Tracks at h
  cases hheld : unended now (m.sets.get? key) with
  | none =>
    rw [hheld] at h
    exact (if_pos h).symm
  | some e =>
    rw [hheld] at h
    have hlive : p.all (·.isOver now) = false := by
      rw [← h.ends now (Number.later_refl _)]
      exact (Memory.unended_eq_some.mp hheld).2
    rw [hlive, if_neg Bool.false_ne_true]
    exact h.content

/-! ## Reading -/

/-- Two stores hold the same, apart from what is over. -/
def Same (now : Number) (m m' : Memory) : Prop :=
  ∀ key, unended now (m.values.get? key) = unended now (m'.values.get? key) ∧
    unended now (m.sets.get? key) = unended now (m'.sets.get? key)

theorem Same.later (h : Same now m m') (hlater : Later now t) : Same t m m' := by
  intro key
  obtain ⟨hvalue, hset⟩ := h key
  rw [← Memory.unended_later hlater (m.values.get? key), hvalue,
    ← Memory.unended_later hlater (m.sets.get? key), hset]
  exact ⟨Memory.unended_later hlater _, Memory.unended_later hlater _⟩

/-- A call that only reads. -/
def Call.Reads : Call → Prop
  | .get _ | .members _ => True
  | _ => False

theorem same_reading {call : Call} (h : call.Reads) (now : Number) (m : Memory) :
    Same now (m.answer now call).2 m := by
  have huntouched (key : String) : ¬ Twins.Touches key call := by
    cases call with
    | get name => exact nofun
    | members name => exact nofun
    | _ => exact h.elim
  exact fun key => ⟨Twins.values_untouched (huntouched key), Twins.sets_untouched (huntouched key)⟩

/-- Stores that hold the same answer the same. -/
theorem Same.answer (h : Same now m m') (call : Call) :
    (m.answer now call).1 = (m'.answer now call).1 := by
  cases call with
  | get name =>
    change Except.ok (m.get now name).1 = Except.ok (m'.get now name).1
    rw [Memory.get_eq, Memory.get_eq, (h name).1]
  | members name =>
    change Except.ok (m.members now name).1 = Except.ok (m'.members now name).1
    rw [Memory.members_eq, Memory.members_eq, (h name).2]
  | delete names => rfl
  | set name value ttl =>
    change (m.attempt (m.set now name value ttl)).1 = (m'.attempt (m'.set now name value ttl)).1
    unfold Memory.set
    cases endAfter now ttl <;> rfl
  | addToSet name members ttl =>
    rw [(answer_addToSet m now name members ttl).1, (answer_addToSet m' now name members ttl).1,
      (h name).2]

/-- Stores that hold the same hold the same after a call. -/
theorem Same.call (h : Same now m m') (call : Call) :
    Same now (m.answer now call).2 (m'.answer now call).2 := by
  intro key
  by_cases htouches : Twins.Touches key call
  · cases call with
    | get name => exact htouches.elim
    | members name => exact htouches.elim
    | set name value ttl =>
      obtain rfl : key = name := htouches
      rw [Memory.sets_answer_set, Memory.sets_answer_set]
      refine ⟨?_, (h key).2⟩
      change unended now ((m.attempt (m.set now key value ttl)).2.values.get? key) =
        unended now ((m'.attempt (m'.set now key value ttl)).2.values.get? key)
      unfold Memory.set
      cases endAfter now ttl with
      | error f => exact (h key).1
      | ok ends =>
        change unended now ((m.values.insert key _).get? key) =
          unended now ((m'.values.insert key _).get? key)
        rw [Entries.get?_insert_self, Entries.get?_insert_self]
    | delete names =>
      have hin : key ∈ names := htouches
      change unended now ((m.delete names).values.get? key) =
          unended now ((m'.delete names).values.get? key) ∧
        unended now ((m.delete names).sets.get? key) = unended now ((m'.delete names).sets.get? key)
      simp only [Memory.get?_values_delete, Memory.get?_sets_delete, if_pos hin, true_and]
    | addToSet name members ttl =>
      obtain rfl : key = name := htouches
      rw [Memory.values_answer_addToSet, Memory.values_answer_addToSet,
        (answer_addToSet m now key members ttl).2, (answer_addToSet m' now key members ttl).2,
        (h key).2]
      exact ⟨(h key).1, rfl⟩
  · rw [Twins.values_untouched htouches, Twins.values_untouched htouches,
      Twins.sets_untouched htouches, Twins.sets_untouched htouches]
    exact h key

theorem after_append (m : Memory) (run rest : List TimedCall) :
    m.after (run ++ rest) = (m.after run).after rest := by
  simp [Memory.after]

/-- A call that only reads leaves a run with a store that holds the same. -/
theorem same_without {before : List TimedCall} (hreads : c.call.Reads)
    (hproper : ∀ d ∈ run, d.IsProper)
    (hclock : ((before ++ c :: run).map (·.time) ++ [now]).Pairwise Later) :
    Same now (m.after (before ++ c :: run)) (m.after (before ++ run)) := by
  rw [List.map_append, List.append_assoc, List.pairwise_append] at hclock
  have hstart : Same c.time ((m.after before).after [c]) (m.after before) :=
    same_reading hreads c.time (m.after before)
  have hrun : Same now (((m.after before).after [c]).after run) ((m.after before).after run) := by
    refine run_induction
      (P := fun now run =>
        Same now (((m.after before).after [c]).after run) ((m.after before).after run))
      hstart (fun hlater h => h.later hlater) ?_ hproper hclock.2.1
    intro run d _ h
    rw [after_concat, after_concat]
    exact h.call d.call
  rw [← List.singleton_append, after_append, after_append, after_append]
  exact hrun

end Runs

/-! ## Members over time -/

/-- In every run of calls at times that do not go back, the members that are found are those of all
additions of the last period, unless each of these is over; and no answer depends on whether the store
was read before. -/
theorem members_of_last_period {run : List TimedCall} {now : Number} (key : String)
    (hproper : ∀ c ∈ run, c.IsProper) (hclock : (run.map (·.time) ++ [now]).Pairwise Later) :
    ((Memory.empty.after run).answer now (.members key)).1 =
        .ok (if (period key run).all (·.isOver now) then []
          else Text.distinct ((period key run).flatMap (·.members))) ∧
      ∀ before c after, run = before ++ c :: after → c.call.Reads → ∀ call,
        ((Memory.empty.after run).answer now call).1 =
          ((Memory.empty.after (before ++ after)).answer now call).1 := by
  constructor
  · exact congrArg Except.ok (tracks_run key hproper hclock).members
  · rintro before c after rfl hreads call
    have hafter (d : TimedCall) (hd : d ∈ after) : d.IsProper := hproper d (by simp [hd])
    exact (same_without hreads hafter hclock).answer call

/-- A set that is read between two additions. -/
def filledTwice : List TimedCall :=
  [⟨.int 0, .addToSet "tag" ["k1"] (some (.int 10))⟩, ⟨.int 4, .members "tag"⟩,
    ⟨.int 5, .addToSet "tag" ["k2"] (some (.int 2))⟩]

theorem filledTwice_members :
    ((Memory.empty.after filledTwice).answer (.int 9) (.members "tag")).1 = .ok ["k1", "k2"] ∧
      ((Memory.empty.after filledTwice).answer (.int 10) (.members "tag")).1 = .ok [] := by
  have hint (n : Int) : (Number.int n).IsFinite := ⟨n, rfl⟩
  have hproper : ∀ c ∈ filledTwice, c.IsProper := by
    intro c hc
    simp only [filledTwice, List.mem_cons, List.not_mem_nil, or_false] at hc
    refine ⟨?_, fun key members ttl hcall => ?_⟩
    · rcases hc with rfl | rfl | rfl <;> exact hint _
    · rcases hc with rfl | rfl | rfl <;> cases hcall <;> rfl
  have hclock (n : Int) (hn : 9 ≤ n) :
      (filledTwice.map (·.time) ++ [Number.int n]).Pairwise Later := by
    have hlast : (n = 0 ∨ 0 ≤ n) ∧ (n = 4 ∨ 4 ≤ n) ∧ (n = 5 ∨ 5 ≤ n) := by omega
    simpa [filledTwice, Later, Number.atMost_int] using hlast
  have hmembers : Text.distinct ((period "tag" filledTwice).flatMap (·.members)) = ["k1", "k2"] := by
    decide
  have hlasts : (period "tag" filledTwice).all (·.isOver (.int 9)) = false := by decide
  have hover : (period "tag" filledTwice).all (·.isOver (.int 10)) = true := by decide
  constructor
  · rw [(members_of_last_period "tag" hproper (hclock 9 le_rfl)).1, hlasts, hmembers]
    rfl
  · rw [(members_of_last_period "tag" hproper (hclock 10 (by decide))).1, hover]
    rfl

/-- An addition for ten seconds, and one for a time that no float can hold. -/
def overlong : List TimedCall :=
  [⟨.float (Number.ofRat 1000), .addToSet "s" ["a"] (some (.int 10))⟩,
    ⟨.float (Number.ofRat 1000), .addToSet "s" ["b"] (some (.int (10 ^ 400)))⟩]

/-- A set takes the members of an addition that fails, but not its time to live. -/
theorem failed_addition_enters :
    (((Memory.empty.after (overlong.take 1)).answer (.float (Number.ofRat 1000))
        (.addToSet "s" ["b"] (some (.int (10 ^ 400))))).1.toOption = none ∧
      ((Memory.empty.after overlong).answer (.float (Number.ofRat 1000)) (.members "s")).1.toOption =
        some ["a", "b"]) ∧
      ((Memory.empty.after overlong).answer (.float (Number.ofRat 1010)) (.members "s")).1.toOption =
        some [] := by
  decide +kernel

end RowGate.KeyValue
