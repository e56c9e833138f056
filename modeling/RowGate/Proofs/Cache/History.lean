import Mathlib
import RowGate.Proofs.Cache.Tags
import RowGate.Proofs.Json.Interchange
/-!
Reading from a cache over a store in memory, and the history of the run. Main statement: what is
found under a key is the data that was last put there, as the interchange format gives it back, as
long as it lives and no removal of a tag has found the key since; otherwise nothing is found.
-/
namespace RowGate.Cache

open Asking
open Number (Later)
open KeyValue (Memory Expiring)

/-- Data as the interchange format gives it back: written as a text, and read again. -/
def decoded? (data : Value) : Option Value :=
  (data.toJson? fallback).bind fun j => (Json.parse? j.render).bind fun k => k.toValue.toOption

/-- Data that was put under a key, with the time and for how long. -/
structure Filing where
  data : Value
  time : Number
  ttl : Number

/-- What is read of it at a time: the data before the end has come. -/
def Filing.readAt (x : Filing) (now : Number) : Option Value :=
  match x.time.add x.ttl with
  | .ok ends => if now.less ends then decoded? x.data else none
  | .error _ => none

namespace Step

/-- What a step puts under a key, if it succeeds. -/
def filing? (c : Config) (key : String) (s : State) : Step → Option Filing
  | .set target data ttl tags scope =>
    match (s.call (Cache.set c target data ttl tags scope)).1, target.key c scope,
      lifetime (chosenTtl target ttl) with
    | .ok true, .ok other, .ok (some t) => if other = key then some ⟨data, s.now, t⟩ else none
    | _, _, _ => none
  | _ => none

/-- Whether a step removes a tag and finds a key in its set. -/
def finds (c : Config) (key : String) (s : State) : Step → Bool
  | .invalidate tags => tags.any fun tag =>
    match tagKey c (.text tag) with
    | .ok name => (s.store.members s.now name).1.contains key
    | .error _ => false
  | _ => false

/-- A step whose data has no map with a key twice, and whose numbers are integers or floats. -/
def IsTimed : Step → Prop
  | .set target data ttl _ _ => data.isProper = true ∧
    ∀ t, lifetime (chosenTtl target ttl) = .ok (some t) → t.isDecimal = false
  | .wait time => time.isDecimal = false
  | _ => True

end Step

/-- What is under a key after a step, given what was before. -/
def Filing.next (c : Config) (key : String) (s : State) (x : Option Filing) (step : Step) :
    Option Filing :=
  match step.filing? c key s with
  | some y => some y
  | none => if step.finds c key s then none else x

/-- What is under a key after steps. -/
def Filing.after (c : Config) (key : String) (x : Option Filing) : State → List Step → Option Filing
  | _, [] => x
  | s, step :: rest => Filing.after c key (Filing.next c key s x step) (s.next c step) rest

section

variable {data v : Value}

/-- A text gives back the form of the data that is written in it. -/
theorem decoded?_eq (hproper : data.isProper = true) : decoded? data = recalled? data := by
  unfold decoded? recalled?
  cases hj : data.toJson? fallback with
  | none => rfl
  | some j =>
    rw [Option.bind_some, Option.bind_some, Json.parse?_render (readable_of_toJson? hproper hj)]
    rfl

theorem decoded?_of_isInterchange (h : data.IsInterchange) : decoded? data = data.toOption := by
  obtain ⟨j, hj, hparse, rfl⟩ := h.written fallback
  unfold decoded?
  rw [hj, Option.bind_some, hparse]
  rfl

theorem isInterchange_of_decoded? (hproper : data.isProper = true) (h : decoded? data = some v) :
    v.IsInterchange := by
  rw [decoded?_eq hproper] at h
  obtain ⟨j, hj, hv⟩ := Option.bind_eq_some_iff.mp h
  have hvalue : v = j.toValue := by
    unfold Value.toOption at hv
    split at hv
    · cases hv
    · exact (Option.some.inj hv).symm
  exact ⟨j, readable_of_toJson? hproper hj, hvalue.symm⟩

theorem toOption_of_decoded? (h : decoded? data = some v) : v.toOption = some v := by
  obtain ⟨j, -, h⟩ := Option.bind_eq_some_iff.mp h
  obtain ⟨k, -, h⟩ := Option.bind_eq_some_iff.mp h
  unfold Value.toOption at h
  split at h
  · cases h
  · rename_i hnull
    obtain rfl := Option.some.inj h
    unfold Value.toOption
    split
    · rename_i hvalue
      exact absurd hvalue hnull
    · rfl

theorem decoded?_decoded (hproper : data.isProper = true) (h : decoded? data = some v) :
    decoded? v = some v := by
  rw [decoded?_of_isInterchange (isInterchange_of_decoded? hproper h)]
  exact toOption_of_decoded? h

end

section

variable {c : Config} {start key : String} {now : Number} {m : Memory}

/-- What is found in a text that may have ended. -/
def foundIn (now : Number) (e : Option (Expiring String)) : Option Value :=
  match e with
  | some e => if e.isOver now then none else dataAt now e.content
  | none => none

theorem found?_eq (start : String) (m : Memory) (t : Number) (key : String) :
    found? m t key = foundIn t (View.of start key m).entry := rfl

/-- Data that was put under a key is read as long as it lives. -/
theorem foundIn_filed {data : Value} {text : String} {ttl ends t : Number}
    (hproper : data.isProper = true) (hsum : now.add ttl = .ok ends)
    (htext : enclose ends data = .ok text) (hends : ends.place?.isSome)
    (hdecimal : ends.isDecimal = false) (ht : t.place?.isSome) :
    foundIn t (some ⟨text, some ends⟩) = Filing.readAt ⟨data, now, ttl⟩ t := by
  obtain ⟨i, -, hi, -, -⟩ := enclose_eq_ok.mp htext
  have hread := dataAt_enclose hproper htext t
  rw [isReadBack_of_form hi, hdecimal, Bool.not_false, Bool.true_and,
    ← Number.less_eq_not_atMost ht hends, ← decoded?_eq hproper] at hread
  unfold Filing.readAt
  rw [hsum]
  exact hread

/-- What a removal of tags leaves under a key: nothing, if the key is found in the set of one. -/
theorem dropAll_entry (tags : List String) (v : View) :
    (tags.foldl (View.drop now key) v).entry =
      if tags.any fun tag => (membersAt now (v.tagged tag)).contains key then none else v.entry := by
  induction tags generalizing v with
  | nil => rfl
  | cons tag tags ih =>
    rw [List.foldl_cons, ih, List.any_cons]
    by_cases hmember : key ∈ membersAt now (v.tagged tag)
    · have hentry : (v.drop now key tag).entry = none := if_pos hmember
      rw [hentry, ite_self, List.contains_iff_mem.mpr hmember, Bool.true_or, if_pos rfl]
    · have hentry : (v.drop now key tag).entry = v.entry := if_neg hmember
      have hcontains : (membersAt now (v.tagged tag)).contains key = false := by
        simpa using hmember
      have hrest (u : String) : (membersAt now ((v.drop now key tag).tagged u)).contains key =
          (membersAt now (v.tagged u)).contains key := by
        by_cases hu : u = tag
        · subst hu
          have hnone : (v.drop now key u).tagged u = none := if_pos rfl
          rw [hnone, hcontains]
          rfl
        · have hsame : (v.drop now key tag).tagged u = v.tagged u := if_neg hu
          rw [hsame]
      simp only [hentry, hrest, hcontains, Bool.false_or]

theorem finds_invalidate (hstart : c.tagPrefix = .text start) (tags : List String) :
    Step.finds c key ⟨now, m⟩ (.invalidate tags) =
      tags.any fun tag => (membersAt now ((View.of start key m).tagged tag)).contains key := by
  unfold Step.finds
  simp only [tagKey_text hstart, members_eq]
  rfl

variable {s : State} {x : Option Filing}

/-- What is found under a key from now on is what was filed there. -/
structure Follows (c : Config) (start key : String) (s : State) (x : Option Filing) : Prop where
  sound : (View.of start key s.store).IsSound c
  found : ∀ t, Later s.now t → found? s.store t key = x.bind (·.readAt t)

theorem follows_empty (c : Config) (start key : String) (now : Number) :
    Follows c start key ⟨now, .empty⟩ none where
  sound := nofun
  found _ _ := rfl

/-- What a call of the cache that puts data under keys leaves to be found. -/
theorem found_set (hstart : c.tagPrefix = .text start) {target : Target} {data ttl chosen : Value}
    {scope : String} (hnow : now.place?.isSome) (hdecimal : now.isDecimal = false)
    (hproper : (Step.set target data ttl chosen scope).IsProper)
    (htimed : (Step.set target data ttl chosen scope).IsTimed) {t : Number} (ht : Later now t) :
    found? (State.next c ⟨now, m⟩ (.set target data ttl chosen scope)).store t key =
      match (Step.set target data ttl chosen scope).filing? c key ⟨now, m⟩ with
      | some y => y.readAt t
      | none => found? m t key := by
  obtain ⟨hfinite, listed, hlisted⟩ := hproper
  obtain ⟨hdata, httl⟩ := htimed
  unfold State.next Step.filing? State.call
  dsimp only
  rcases runIn_set_cases hstart hlisted data scope with
    ⟨y, hy, hrun⟩ | ⟨k, text, life, ends, hkey, hlifetime, hsum, htext, hrun⟩
  · rw [hrun]
    split
    · rename_i h
      split at h
      · exact absurd ‹_› hy
      · cases h
    · rfl
  · obtain ⟨m', hset, hview⟩ := hrun m
    rw [hset, hkey, hlifetime]
    dsimp only
    rw [found?_eq start, hview, View.after, View.enterAll_entry]
    by_cases hsame : k = key
    · rw [if_pos hsame, if_pos hsame]
      have hends : ends.place?.isSome := Number.place_add hnow (hfinite life hlifetime) hsum
      have hplain : ends.isDecimal = false :=
        Number.isDecimal_add hdecimal (httl life hlifetime) hsum
      exact foundIn_filed hdata hsum htext hends hplain (ht.place hnow)
    · rw [if_neg hsame, if_neg hsame]
      rfl

/-- A step leaves under a key what it files there, or nothing where it removes it, or what was
there. -/
theorem Follows.next (hapart : Apart c) (hstart : c.tagPrefix = .text start) (hkey : IsKey c key)
    (h : Follows c start key s x) (hnow : s.now.place?.isSome) (hdecimal : s.now.isDecimal = false)
    {step : Step} (hproper : step.IsProper) (htimed : step.IsTimed)
    (hlater : Later s.now (step.time s.now)) :
    Follows c start key (s.next c step) (Filing.next c key s x step) where
  sound := by
    obtain ⟨effect, heffect, -, hdoes⟩ := next_effect hapart hstart hnow hproper
    have hview := (hdoes key hkey s.store).2 h.sound
    exact hview ▸ h.sound.after heffect
  found t ht := by
    rw [next_now] at ht
    have ht : Later s.now t := hlater.trans ht
    obtain ⟨now, m⟩ := s
    have hbefore := h.found t ht
    unfold Filing.next
    cases step with
    | set target data ttl chosen scope =>
      rw [found_set hstart hnow hdecimal hproper htimed ht, hbefore]
      cases (Step.set target data ttl chosen scope).filing? c key ⟨now, m⟩ <;> rfl
    | get target scope =>
      -- what is removed because its end has come is not found later either
      change found? ((get c target scope).runIn (overMemory now) m).2 t key = x.bind (·.readAt t)
      rw [← hbefore]
      cases htarget : target.key c scope with
      | error f =>
        rw [get_keyless htarget]
        rfl
      | ok k =>
        obtain ⟨m', hget, -, hsame⟩ := runIn_get htarget m now
        rw [hget]
        exact hsame t ht key
    | invalidate tags =>
      have hview := does_invalidate hapart hstart hkey tags now m h.sound
      change found? ((invalidate c (tags.map .text)).runIn (overMemory now) m).2 t key = _
      rw [found?_eq start, hview, View.after, dropAll_entry, finds_invalidate hstart]
      change _ = Option.bind (if _ then none else x) _
      split
      · rfl
      · exact hbefore
    | wait time => exact hbefore

theorem Follows.after (hapart : Apart c) (hstart : c.tagPrefix = .text start) (hkey : IsKey c key)
    {steps : List Step} (h : Follows c start key s x) (hnow : s.now.place?.isSome)
    (hdecimal : s.now.isDecimal = false) (hproper : IsProperRun s.now steps)
    (htimed : ∀ step ∈ steps, step.IsTimed) :
    Follows c start key (s.after c steps) (Filing.after c key x s steps) := by
  induction steps generalizing s x with
  | nil => exact h
  | cons step steps ih =>
    obtain ⟨hstep, hlater, hrest⟩ := hproper
    -- the time stays one that data can be filed at: it is placed, and no decimal
    have htime : step.IsTimed := htimed step List.mem_cons_self
    have hplain : (step.time s.now).isDecimal = false := by
      cases step with
      | wait time => exact htime
      | _ => exact hdecimal
    rw [← next_now (c := c)] at hrest hplain
    have hplace : (s.next c step).now.place?.isSome := by
      rw [next_now]
      exact hlater.place hnow
    exact ih (h.next hapart hstart hkey hnow hdecimal hstep htime hlater) hplace hplain hrest
      fun other hother => htimed other (List.mem_cons_of_mem step hother)

end

/-- Reading follows the history. Over any run that begins with an empty store, a key is answered by
what the last successful call put there, in the form that the interchange format gives it back, if
its end has not come and no removal of a tag has found the key since; by nothing otherwise. Data of
the interchange format is given back as it is, and so is what was once given back. -/
theorem answers_follow_history {c : Config} (hapart : Apart c) {start : String}
    (hstart : c.tagPrefix = .text start) {now : Number} (hnow : now.place?.isSome)
    (hdecimal : now.isDecimal = false) {steps : List Step} (hproper : IsProperRun now steps)
    (htimed : ∀ step ∈ steps, step.IsTimed) {target : Target} {scope key : String}
    (hkey : target.key c scope = .ok key) :
    let s := State.after c ⟨now, .empty⟩ steps
    s.answer c target scope =
      .ok ((Filing.after c key none ⟨now, .empty⟩ steps).bind (·.readAt s.now)) ∧
    (∀ data, data.IsInterchange → decoded? data = data.toOption) ∧
    ∀ data v, data.isProper = true → decoded? data = some v → decoded? v = some v := by
  intro s
  refine ⟨?_, fun _ => decoded?_of_isInterchange, fun _ _ => decoded?_decoded⟩
  have hfollows : Follows c start key s (Filing.after c key none ⟨now, .empty⟩ steps) :=
    (follows_empty c start key now).after hapart hstart ⟨target, scope, hkey⟩ hnow hdecimal hproper
      htimed
  rw [answer_view hkey, hfollows.found s.now (Number.later_refl s.now)]

/-- Two answers are cached, that with the tag is removed, and a time comes. -/
def tidied (time : Int) : List Step := oneTagged ++ [.invalidate ["t"], .wait (.int time)]

/-- The answer without the tag is there until its end. -/
theorem untagged_until_end :
    let before := State.after .default ⟨.int 0, .empty⟩ (tidied 4)
    let behind := State.after .default ⟨.int 0, .empty⟩ (tidied 5)
    before.answer .default (.named "a") "" = .ok none ∧
      before.answer .default (.named "b") "" = .ok (some (.int 2)) ∧
      behind.answer .default (.named "b") "" = .ok none := by
  intro before behind
  have hproper (time : Int) (h : 2 ≤ time) : IsProperRun (.int 0) (tidied time) := by
    have hlater : Later (.int 2) (.int time) := .inr (Number.atMost_int.mpr h)
    refine ⟨⟨?_, ["t"], rfl⟩, .inl rfl, ⟨?_, [], rfl⟩, .inl rfl, trivial, .inr rfl, trivial,
      .inl rfl, trivial, hlater, trivial⟩
    · rintro t ⟨⟩
      exact ⟨_, rfl⟩
    · rintro t ⟨⟩
      exact ⟨_, rfl⟩
  have htimed (time : Int) : ∀ step ∈ tidied time, step.IsTimed := by
    intro step hstep
    simp only [tidied, oneTagged, List.cons_append, List.nil_append, List.mem_cons,
      List.not_mem_nil, or_false] at hstep
    rcases hstep with rfl | rfl | rfl | rfl | rfl
    · refine ⟨rfl, ?_⟩
      rintro t ⟨⟩
      rfl
    · refine ⟨rfl, ?_⟩
      rintro t ⟨⟩
      rfl
    · rfl
    · trivial
    · rfl
  have hkey (name : String) :
      Target.key .default "" (.named name) = .ok ("query:" ++ name) := rfl
  have hstart : Config.default.tagPrefix = .text "tag:" := rfl
  have hread (time : Int) (h : 2 ≤ time) (name : String) :=
    (answers_follow_history apart_default hstart rfl rfl (hproper time h) (htimed time)
      (hkey name)).1
  exact ⟨hread 4 (by decide) "a", hread 4 (by decide) "b", hread 5 (by decide) "b"⟩

end RowGate.Cache
