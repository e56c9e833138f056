import RowGate.Proofs.Cache.Views
/-!
Removing by tag over runs of a cache with a store in memory. Main statement: what was last put under
a tag is not found after the tag was removed, and all that has not been put under it since it was
last removed is answered as if it had not been removed.
-/
namespace RowGate.Cache

open Asking
open Number (Later)
open KeyValue (Memory)

/-- A call of the cache, or waiting until a time. -/
inductive Step where
  | set (target : Target) (data ttl tags : Value) (scope : String)
  | get (target : Target) (scope : String)
  | invalidate (tags : List String)
  | wait (time : Number)

/-- A time, and a store in memory. -/
structure State where
  now : Number
  store : Memory

namespace State

/-- The result of a call, and the state that it leaves. -/
def call {α : Type} (s : State) (x : Caching α) : Except Fault α × State :=
  ((x.runIn (overMemory s.now) s.store).1, ⟨s.now, (x.runIn (overMemory s.now) s.store).2⟩)

/-- The state after a step. -/
def next (c : Config) (s : State) : Step → State
  | .set target data ttl tags scope => (s.call (set c target data ttl tags scope)).2
  | .get target scope => (s.call (get c target scope)).2
  | .invalidate tags => (s.call (invalidate c (tags.map .text))).2
  | .wait time => ⟨time, s.store⟩

/-- The state after steps. -/
def after (c : Config) (s : State) (steps : List Step) : State := steps.foldl (next c) s

/-- What is answered for a target. -/
def answer (c : Config) (s : State) (target : Target) (scope : String) :
    Except Fault (Option Value) :=
  (s.call (get c target scope)).1

end State

namespace Step

/-- The texts in a list. -/
def textsIn (vs : List Value) : List String :=
  vs.filterMap fun
    | .text s => some s
    | _ => none

/-- The tags under which a step puts a key: those that it lists, if it succeeds. -/
def filed (c : Config) (key : String) (s : State) : Step → Option (List String)
  | .set target data ttl tags scope =>
    match (s.call (Cache.set c target data ttl tags scope)).1, target.key c scope,
      tagsOf (chosenTags target tags) with
    | .ok true, .ok other, .ok listed => if other = key then some (textsIn listed) else none
    | _, _, _ => none
  | _ => none

/-- The tags that a step removes. -/
def dropped : Step → List String
  | .invalidate tags => tags
  | _ => []

/-- The time after a step. -/
def time (now : Number) : Step → Number
  | .wait time => time
  | _ => now

/-- A step whose tags are texts and whose time to live is finite. -/
def IsProper : Step → Prop
  | .set target _ ttl tags _ =>
    (∀ t, lifetime (chosenTtl target ttl) = .ok (some t) → t.IsFinite) ∧
      ∃ listed : List String, tagsOf (chosenTags target tags) = .ok (listed.map .text)
  | _ => True

end Step

/-- Steps that are proper, at times that do not go back. -/
def IsProperRun : Number → List Step → Prop
  | _, [] => True
  | now, step :: rest =>
    step.IsProper ∧ Later now (step.time now) ∧ IsProperRun (step.time now) rest

/-- The tags that a key was put under: by the last call that put it anywhere, and by any call since
the tag was last removed. -/
structure Marks where
  latest : List String
  since : List String

/-- What is added by putting a key under tags or by removing tags. -/
def Marks.next (marks : Marks) (filed : Option (List String)) (dropped : List String) : Marks :=
  match filed with
  | some tags => ⟨tags, marks.since ++ tags⟩
  | none => ⟨marks.latest, marks.since.filter (· ∉ dropped)⟩

/-- The tags of a key after steps. -/
def Marks.after (c : Config) (key : String) (marks : Marks) : State → List Step → Marks
  | _, [] => marks
  | s, step :: rest =>
    (marks.next (step.filed c key s) step.dropped).after c key (s.next c step) rest

/-- Whenever steps put a key under tags, these have a property. -/
def FilesOnly (c : Config) (key : String) (allowed : List String → Prop) : State → List Step → Prop
  | _, [] => True
  | s, step :: rest =>
    (∀ tags, step.filed c key s = some tags → allowed tags) ∧
      FilesOnly c key allowed (s.next c step) rest

section

variable {c : Config} {start key : String} {now : Number}

theorem textsIn_texts (tags : List String) : Step.textsIn (tags.map .text) = tags := by
  unfold Step.textsIn
  induction tags with
  | nil => rfl
  | cons tag tags ih => exact congrArg (tag :: ·) ih

/-- A step has the same effect on every store. -/
theorem next_effect (hapart : Apart c) (hstart : c.tagPrefix = .text start)
    (hnow : now.place?.isSome) {step : Step} (hproper : step.IsProper) :
    ∃ effect : Effect, effect.IsSound c ∧ effect.dropped = step.dropped ∧
      ∀ key, IsKey c key → ∀ m, step.filed c key ⟨now, m⟩ = effect.filed key ∧
        ((View.of start key m).IsSound c → View.of start key (State.next c ⟨now, m⟩ step).store =
          (View.of start key m).after now key effect) := by
  cases step with
  | set target data ttl tags scope =>
    obtain ⟨hfinite, listed, hlisted⟩ := hproper
    rcases runIn_set_cases hstart hlisted data scope with
      ⟨y, hy, hrun⟩ | ⟨k, text, t, ends, hkey, hlifetime, hsum, -, hrun⟩
    · refine ⟨.nothing, trivial, rfl, fun key hkey m => ⟨?_, fun _ => ?_⟩⟩
      · change Step.filed c key ⟨now, m⟩ _ = none
        unfold Step.filed State.call
        dsimp only
        rw [hrun]
        split
        · rename_i h _ _
          exact absurd h hy
        · rfl
      · change View.of start key ((set c target data ttl tags scope).runIn (overMemory now) m).2 = _
        rw [hrun]
        rfl
    · have hends : ends.place?.isSome := Number.place_add hnow (hfinite t hlifetime) hsum
      refine ⟨.filing k text ends listed, ⟨⟨target, scope, hkey⟩, hends⟩, rfl,
        fun key _ m => ⟨?_, fun _ => ?_⟩⟩
      · obtain ⟨m', hset, -⟩ := hrun m
        unfold Step.filed State.call
        dsimp only
        rw [hset, hkey, hlisted]
        dsimp only
        rw [textsIn_texts]
        rfl
      · obtain ⟨m', hset, hview⟩ := hrun m
        change View.of start key ((set c target data ttl tags scope).runIn (overMemory now) m).2 = _
        rw [hset]
        exact hview key
  | get target scope =>
    cases htarget : target.key c scope with
    | error f =>
      refine ⟨.nothing, trivial, rfl, fun key _ m => ⟨rfl, fun _ => ?_⟩⟩
      change View.of start key ((get c target scope).runIn (overMemory now) m).2 = _
      rw [get_keyless htarget]
      rfl
    | ok k =>
      exact ⟨.reading k, trivial, rfl, fun key _ m =>
        ⟨rfl, fun hsound => does_get hapart hstart htarget now key m hsound⟩⟩
  | invalidate tags =>
    exact ⟨.dropping tags, trivial, rfl, fun key hkey m =>
      ⟨rfl, fun hsound => does_invalidate hapart hstart hkey tags now m hsound⟩⟩
  | wait time => exact ⟨.nothing, trivial, rfl, fun _ _ _ => ⟨rfl, fun _ => rfl⟩⟩

theorem next_now (s : State) (step : Step) : (s.next c step).now = step.time s.now := by
  cases step <;> rfl

/-- Sets of tags hold a key for as long as the text that was last put under it is there, and hold no
keys but those put under their tags. -/
structure Covered (c : Config) (start key : String) (s : State) (marks : Marks) : Prop where
  sound : (View.of start key s.store).IsSound c
  sheltered : ∀ tag ∈ marks.latest, (View.of start key s.store).Shelters s.now key tag
  enrolled : ∀ tag, (View.of start key s.store).Enrolled key tag → tag ∈ marks.since

theorem covered_empty (c : Config) (start key : String) (now : Number) :
    Covered c start key ⟨now, .empty⟩ ⟨[], []⟩ where
  sound := nofun
  sheltered := nofun
  enrolled := by
    rintro tag ⟨s, hs, -⟩
    cases hs

variable {s : State} {marks : Marks}

/-- A step keeps sets of tags as they should be. -/
theorem Covered.next (hapart : Apart c) (hstart : c.tagPrefix = .text start) (hkey : IsKey c key)
    (h : Covered c start key s marks) (hnow : s.now.place?.isSome) {step : Step}
    (hproper : step.IsProper) (hlater : Later s.now (step.time s.now)) :
    Covered c start key (s.next c step) (marks.next (step.filed c key s) step.dropped) := by
  obtain ⟨effect, heffect, hdropped, hdoes⟩ := next_effect hapart hstart hnow hproper
  obtain ⟨hfiled, hview⟩ := hdoes key hkey s.store
  have hview := hview h.sound
  change View.of start key (s.next c step).store = _ at hview
  change step.filed c key s = _ at hfiled
  rw [hfiled, ← hdropped]
  constructor
  · rw [hview]
    exact h.sound.after heffect
  · intro tag htag
    rw [hview, next_now]
    apply View.Shelters.later _ hlater
    cases hlisted : effect.filed key with
    | none =>
      rw [hlisted] at htag
      exact (h.sheltered tag htag).after h.sound heffect hlisted
    | some tags =>
      rw [hlisted] at htag
      exact View.shelters_filed h.sound heffect hlisted htag
  · intro tag hmember
    rw [hview] at hmember
    rcases View.enrolled_after hmember with ⟨hbefore, hkept⟩ | ⟨tags, hlisted, htag⟩
    · have hsince := h.enrolled tag hbefore
      cases effect.filed key with
      | none => exact List.mem_filter.mpr ⟨hsince, decide_eq_true hkept⟩
      | some tags => exact List.mem_append_left tags hsince
    · rw [hlisted]
      exact List.mem_append_right marks.since htag

/-- Steps keep sets of tags as they should be. -/
theorem Covered.after (hapart : Apart c) (hstart : c.tagPrefix = .text start) (hkey : IsKey c key)
    {steps : List Step} (h : Covered c start key s marks) (hnow : s.now.place?.isSome)
    (hproper : IsProperRun s.now steps) :
    Covered c start key (s.after c steps) (marks.after c key s steps) := by
  induction steps generalizing s marks with
  | nil => exact h
  | cons step steps ih =>
    obtain ⟨hstep, hlater, hrest⟩ := hproper
    rw [← next_now (c := c)] at hrest
    have hplace : (s.next c step).now.place?.isSome := by
      rw [next_now]
      exact hlater.place hnow
    exact ih (h.next hapart hstart hkey hnow hstep hlater) hplace hrest

theorem isProperRun_append {steps more : List Step} (h : IsProperRun s.now (steps ++ more)) :
    IsProperRun s.now steps ∧ IsProperRun (s.after c steps).now more := by
  induction steps generalizing s with
  | nil => exact ⟨trivial, h⟩
  | cons step steps ih =>
    obtain ⟨hstep, hlater, hrest⟩ := h
    rw [← next_now (c := c)] at hrest
    obtain ⟨hsteps, hmore⟩ := ih hrest
    rw [next_now] at hsteps
    exact ⟨⟨hstep, hlater, hsteps⟩, hmore⟩

theorem place_after (hnow : s.now.place?.isSome) {steps : List Step}
    (hproper : IsProperRun s.now steps) : (s.after c steps).now.place?.isSome := by
  induction steps generalizing s with
  | nil => exact hnow
  | cons step steps ih =>
    obtain ⟨-, hlater, hrest⟩ := hproper
    rw [← next_now (c := c)] at hrest
    apply ih _ hrest
    rw [next_now]
    exact hlater.place hnow

/-- What is gone stays gone until a text is put under the key again. -/
theorem gone_after (hapart : Apart c) (hstart : c.tagPrefix = .text start) (hkey : IsKey c key)
    {steps : List Step} (hnow : s.now.place?.isSome) (hproper : IsProperRun s.now steps)
    (hsound : (View.of start key s.store).IsSound c) (h : (View.of start key s.store).Gone s.now)
    (hfiles : FilesOnly c key (fun _ => False) s steps) :
    (View.of start key (s.after c steps).store).Gone (s.after c steps).now := by
  induction steps generalizing s with
  | nil => exact h
  | cons step steps ih =>
    obtain ⟨hstep, hlater, hrest⟩ := hproper
    obtain ⟨effect, heffect, -, hdoes⟩ := next_effect hapart hstart hnow hstep
    obtain ⟨hfiled, hview⟩ := hdoes key hkey s.store
    have hview := hview hsound
    have hnone : effect.filed key = none := by
      rw [← hfiled, Option.eq_none_iff_forall_ne_some]
      exact fun tags => hfiles.1 tags
    rw [← next_now (c := c)] at hrest hlater
    apply ih (hlater.place hnow) hrest
    · exact hview ▸ hsound.after heffect
    · exact hview ▸ (h.after hnone).later hlater
    · exact hfiles.2

/-- Two runs that a key cannot tell from each other go on so until it is put under one of the tags
in whose sets they differ. -/
theorem alike_after (hapart : Apart c) (hstart : c.tagPrefix = .text start) (hkey : IsKey c key)
    {steps : List Step} {tags : List String} {s' : State} (hsame : s'.now = s.now)
    (hnow : s.now.place?.isSome) (hproper : IsProperRun s.now steps)
    (hsound : (View.of start key s.store).IsSound c)
    (hsound' : (View.of start key s'.store).IsSound c)
    (h : View.Alike key tags (View.of start key s.store) (View.of start key s'.store))
    (hfiles : FilesOnly c key (fun listed => ∀ tag ∈ listed, tag ∉ tags) s steps) :
    (s'.after c steps).now = (s.after c steps).now ∧
      View.Alike key tags (View.of start key (s.after c steps).store)
        (View.of start key (s'.after c steps).store) := by
  induction steps generalizing s s' with
  | nil => exact ⟨hsame, h⟩
  | cons step steps ih =>
    obtain ⟨hstep, hlater, hrest⟩ := hproper
    obtain ⟨effect, heffect, -, hdoes⟩ := next_effect hapart hstart hnow hstep
    obtain ⟨now, m⟩ := s
    obtain ⟨now', m'⟩ := s'
    obtain rfl : now' = now := hsame
    obtain ⟨hfiled, hview⟩ := hdoes key hkey m
    obtain ⟨-, hview'⟩ := hdoes key hkey m'
    have hview := hview hsound
    have hview' := hview' hsound'
    rw [← next_now (c := c)] at hrest hlater
    apply ih
    · rw [next_now, next_now]
    · exact hlater.place hnow
    · exact hrest
    · exact hview ▸ hsound.after heffect
    · exact hview' ▸ hsound'.after heffect
    · rw [hview, hview']
      apply h.after
      intro listed hlisted
      exact hfiles.1 listed (hfiled.trans hlisted)
    · exact hfiles.2

theorem answer_view {target : Target} {scope : String} (htarget : target.key c scope = .ok key)
    (s : State) : s.answer c target scope = .ok (found? s.store s.now key) := by
  obtain ⟨m', hget, -⟩ := runIn_get htarget s.store s.now
  unfold State.answer State.call
  rw [hget]

theorem tagKey_error (hstart : ¬∃ start, c.tagPrefix = .text start) (tag : Value) :
    tagKey c tag = .error .wrongType := by
  unfold tagKey behind
  split
  · split
    · rename_i htext
      exact absurd ⟨_, htext⟩ hstart
    · rfl
  · rfl

theorem write_nil (hstart : ¬∃ start, c.tagPrefix = .text start) {data chosen : Value}
    {ttl : Number} {m m' : Memory}
    (h : (write c key data ttl chosen).runIn (overMemory now) m = (.ok true, m')) :
    tagsOf chosen = .ok [] := by
  unfold write at h
  obtain ⟨_, _, -, h⟩ := runIn_bind_eq_ok h
  obtain ⟨_, _, -, h⟩ := runIn_bind_eq_ok h
  obtain ⟨_, _, -, h⟩ := runIn_bind_eq_ok h
  obtain ⟨_, _, -, h⟩ := runIn_bind_eq_ok h
  obtain ⟨listed, _, hlisted, h⟩ := runIn_bind_eq_ok h
  obtain ⟨_, _, henter, -⟩ := runIn_bind_eq_ok h
  rw [runIn_lift] at hlisted
  cases listed with
  | nil => exact congrArg Prod.fst hlisted
  | cons tag rest =>
    rw [enterAll, tagKey_error hstart, runIn_bind_lift] at henter
    cases henter

/-- Where tags have no sets, no step puts a key under any. -/
theorem filed_nil (hstart : ¬∃ start, c.tagPrefix = .text start) {step : Step}
    {tags : List String} (h : step.filed c key s = some tags) : tags = [] := by
  cases step with
  | set target data ttl chosen scope =>
    unfold Step.filed at h
    dsimp only at h
    split at h
    · rename_i other listed hrun hkey hlisted
      unfold State.call at hrun
      rw [set_planned, runIn_bind_lift] at hrun
      rcases hplanned : planned c target ttl scope with f | - | ⟨k, t⟩
      · rw [hplanned] at hrun
        cases hrun
      · rw [hplanned] at hrun
        cases hrun
      · rw [hplanned] at hrun
        dsimp only [runThen, writePlanned] at hrun
        rw [runIn_attempt] at hrun
        rcases hwrite : (write c k data t (chosenTags target chosen)).runIn (overMemory s.now)
          s.store with ⟨f | done, m'⟩
        · rw [hwrite] at hrun
          cases hrun
        · rw [hwrite] at hrun
          cases hrun
          cases hlisted.symm.trans (write_nil hstart hwrite)
          split at h
          · exact (Option.some.inj h).symm
          · cases h
    · cases h
  | _ => cases h

theorem latest_nil (hstart : ¬∃ start, c.tagPrefix = .text start) {steps : List Step}
    (h : marks.latest = []) : (marks.after c key s steps).latest = [] := by
  induction steps generalizing s marks with
  | nil => exact h
  | cons step steps ih =>
    apply ih
    cases hfiled : step.filed c key s with
    | none => exact h
    | some tags => exact filed_nil hstart hfiled

theorem invalidate_nothing (hstart : ¬∃ start, c.tagPrefix = .text start) (tags : List String)
    (s : State) : s.next c (.invalidate tags) = s := by
  obtain ⟨now, m⟩ := s
  cases tags with
  | nil => rfl
  | cons tag tags =>
    unfold State.next State.call
    dsimp only
    rw [List.map_cons, invalidate, tagKey_error hstart, runIn_bind_lift]
    rfl

end

/-- With the settings where nothing is overridden no key is that of a tag's set. -/
theorem apart_default : Apart .default := by
  have hstart {key : String} (h : IsKey .default key) : key.toList.head? = some 'q' := by
    obtain ⟨target, scope, hkey⟩ := h
    have hnamed (k : String) : ("query:" ++ k).toList.head? = some 'q' := by
      rw [String.toList_append]
      rfl
    cases target with
    | named k =>
      cases hkey
      exact hnamed k
    | query q =>
      change keyOf _ scope q = .ok key at hkey
      unfold keyOf at hkey
      cases hown : ownKey? q with
      | some k =>
        rw [hown] at hkey
        cases hkey
        exact hnamed k
      | none =>
        rw [hown] at hkey
        obtain ⟨text, -, hkey⟩ := sequence_eq_ok.mp hkey
        unfold inScope at hkey
        split at hkey
        · cases hkey
          exact hnamed text
        · cases hkey
          change ("query:" ++ scope ++ ":" ++ text).toList.head? = some 'q'
          rw [String.append_assoc, String.append_assoc]
          exact hnamed _
  intro key tag hkey htag
  cases htag
  have h := hstart hkey
  rw [String.toList_append] at h
  cases h

/-- Removing by tag is complete and confined. What the last call that put a key anywhere listed under
one of the tags is not found, until the key is put there again; and a key that was not put under any
of the tags since it was last removed is answered as if nothing had been removed, until it is put
under one of them. -/
theorem invalidate_complete_and_confined {c : Config} (hapart : Apart c) {now : Number}
    (hnow : now.place?.isSome) {steps rest : List Step} {tags : List String}
    (hproper : IsProperRun now (steps ++ .invalidate tags :: rest)) {target : Target}
    {scope key : String} (hkey : target.key c scope = .ok key) :
    let before := State.after c ⟨now, .empty⟩ steps
    let marks := Marks.after c key ⟨[], []⟩ ⟨now, .empty⟩ steps
    let removed := before.next c (.invalidate tags)
    ((∃ tag ∈ tags, tag ∈ marks.latest) →
      FilesOnly c key (fun _ => False) removed rest →
        (removed.after c rest).answer c target scope = .ok none) ∧
    ((∀ tag ∈ tags, tag ∉ marks.since) →
      FilesOnly c key (fun listed => ∀ tag ∈ listed, tag ∉ tags) removed rest →
        (removed.after c rest).answer c target scope =
          (before.after c rest).answer c target scope) := by
  intro before marks removed
  have hisKey : IsKey c key := ⟨target, scope, hkey⟩
  by_cases htext : ∃ start, c.tagPrefix = .text start
  · obtain ⟨start, hstart⟩ := htext
    obtain ⟨hsteps, hmore⟩ := isProperRun_append (c := c) (s := ⟨now, .empty⟩) hproper
    have hrest : IsProperRun removed.now rest := hmore.2.2
    have hplace : removed.now.place?.isSome := place_after (c := c) hnow hsteps
    have hcovered : Covered c start key before marks :=
      (covered_empty c start key now).after hapart hstart hisKey hnow hsteps
    have hview : View.of start key removed.store =
        (View.of start key before.store).after before.now key (.dropping tags) :=
      does_invalidate hapart hstart hisKey tags before.now before.store hcovered.sound
    have hsound : (View.of start key removed.store).IsSound c :=
      hview ▸ hcovered.sound.after trivial
    rw [answer_view hkey, answer_view hkey]
    constructor
    · rintro ⟨tag, htag, hlatest⟩ hfiles
      have hgone : (View.of start key removed.store).Gone removed.now :=
        hview ▸ View.gone_dropping htag (hcovered.sheltered tag hlatest)
      have hend := gone_after hapart hstart hisKey hplace hrest hsound hgone hfiles
      rw [hend.found]
    · intro hsince hfiles
      have hunlisted : ∀ tag ∈ tags, ¬(View.of start key before.store).Enrolled key tag :=
        fun tag htag hmember => hsince tag htag (hcovered.enrolled tag hmember)
      have halike : View.Alike key tags (View.of start key removed.store)
          (View.of start key before.store) := hview ▸ View.alike_dropping hunlisted
      have hsame : before.now = removed.now := rfl
      obtain ⟨htime, hend⟩ := alike_after hapart hstart hisKey hsame hplace hrest hsound
        hcovered.sound halike hfiles
      have hentry : (removed.after c rest).store.values.get? key =
          (before.after c rest).store.values.get? key := hend.entry
      unfold found?
      rw [htime, hentry]
  · have hremoved : removed = before := invalidate_nothing htext tags before
    constructor
    · rintro ⟨tag, -, hlatest⟩
      have hnil : marks.latest = [] := latest_nil htext rfl
      rw [hnil] at hlatest
      cases hlatest
    · intro _ _
      rw [hremoved]

/-- Two answers are cached, one of them under a tag. -/
def oneTagged : List Step :=
  [.set (.named "a") (.int 1) (.int 10) (.list [.text "t"]) "",
    .set (.named "b") (.int 2) (.int 5) .null "", .wait (.int 2)]

theorem tagged_removed_alone :
    let before := State.after .default ⟨.int 0, .empty⟩ oneTagged
    let removed := before.next .default (.invalidate ["t"])
    removed.answer .default (.named "a") "" = .ok none ∧
      removed.answer .default (.named "b") "" = before.answer .default (.named "b") "" := by
  intro before removed
  have hproper : IsProperRun (.int 0) (oneTagged ++ .invalidate ["t"] :: []) := by
    refine ⟨⟨?_, ["t"], rfl⟩, .inl rfl, ⟨?_, [], rfl⟩, .inl rfl, trivial, .inr rfl, trivial,
      .inl rfl, trivial⟩
    · rintro t ⟨⟩
      exact ⟨_, rfl⟩
    · rintro t ⟨⟩
      exact ⟨_, rfl⟩
  have hkey (name : String) :
      Target.key .default "" (.named name) = .ok ("query:" ++ name) := rfl
  obtain ⟨hmissed, -⟩ := invalidate_complete_and_confined apart_default rfl hproper (hkey "a")
  obtain ⟨-, hkept⟩ := invalidate_complete_and_confined apart_default rfl hproper (hkey "b")
  exact ⟨hmissed ⟨"t", List.mem_singleton_self _, by decide⟩ trivial,
    hkept (by decide) trivial⟩

end RowGate.Cache
