import RowGate.Proofs.Cache.Recall
import RowGate.Proofs.Number.Sums
/-!
What calls of the cache do to a store in memory, as far as one key and the sets of tags are
concerned. Main statement: a call does one of four things, and which one does not depend on what the
store holds.
-/
namespace RowGate.Cache

open Asking
open KeyValue (Memory Expiring)
open KeyValue.Memory (unended extended)

/-- A key that some target has. -/
def IsKey (c : Config) (key : String) : Prop :=
  ∃ (target : Target) (scope : String), target.key c scope = .ok key

/-- No key is that of a tag's set. -/
def Apart (c : Config) : Prop := ∀ key tag, IsKey c key → tagKey c (.text tag) ≠ .ok key

/-- The part of a store that concerns one key: the text under it, and the sets of tags. -/
structure View where
  entry : Option (Expiring String)
  tagged : String → Option (Expiring (List String))

/-- What a call does. -/
inductive Effect where
  | nothing
  /-- What has ended under a key is removed. -/
  | reading (key : String)
  /-- A text is put under a key, and the key into the sets of tags. -/
  | filing (key text : String) (ends : Number) (tags : List String)
  /-- What is in the sets of tags is removed, and the sets. -/
  | dropping (tags : List String)

/-- Whether reading leaves a text where it is. -/
def lasts (now : Number) (e : Expiring String) : Bool :=
  !e.isOver now &&
    match contentOf now e.content with
    | .ok .ended => false
    | _ => true

/-- What is left under a key that has been read. -/
def lasting (now : Number) (e : Option (Expiring String)) : Option (Expiring String) :=
  e.filter (lasts now)

/-- The keys in the set of a tag. -/
def membersAt (now : Number) (s : Option (Expiring (List String))) : List String :=
  ((unended now s).map (·.content)).getD []

namespace View

/-- A store as one key sees it; the keys of tags start with some text. -/
def of (start key : String) (m : Memory) : View :=
  ⟨m.values.get? key, fun tag => m.sets.get? (start ++ tag)⟩

/-- A key is put into the set of a tag. -/
def enter (now : Number) (key : String) (ends : Number) (v : View) (tag : String) : View :=
  { v with tagged := fun other =>
      if other = tag then some (extended now [key] (some ends) (v.tagged tag)) else v.tagged other }

/-- What is in the set of a tag is removed, and the set. -/
def drop (now : Number) (key : String) (v : View) (tag : String) : View where
  entry := if key ∈ membersAt now (v.tagged tag) then none else v.entry
  tagged other := if other = tag then none else v.tagged other

/-- What a key sees after an effect. -/
def after (now : Number) (key : String) (v : View) : Effect → View
  | .nothing => v
  | .reading other => if other = key then { v with entry := lasting now v.entry } else v
  | .filing other text ends tags =>
    tags.foldl (enter now other ends)
      (if other = key then { v with entry := some ⟨text, some ends⟩ } else v)
  | .dropping tags => tags.foldl (drop now key) v

/-- The sets of tags hold keys, and each of them has an end. -/
def IsSound (c : Config) (v : View) : Prop :=
  ∀ tag s, v.tagged tag = some s →
    (∀ key ∈ s.content, IsKey c key) ∧ ∃ t, s.ends = some t ∧ t.place?.isSome

end View

/-- A call does something to what a key sees of a store. -/
def Does {α : Type} (c : Config) (start key : String) (now : Number) (x : Caching α)
    (effect : Effect) : Prop :=
  ∀ m, (View.of start key m).IsSound c →
    View.of start key (x.runIn (overMemory now) m).2 = (View.of start key m).after now key effect

section

variable {c : Config} {start key : String} {now : Number} {m : Memory}

theorem mem_membersAt {s : Option (Expiring (List String))} :
    key ∈ membersAt now s ↔ ∃ e, s = some e ∧ e.isOver now = false ∧ key ∈ e.content := by
  unfold membersAt
  cases s with
  | none => simp [unended]
  | some e =>
    rw [Memory.unended_some]
    cases hover : e.isOver now <;> simp [hover]

theorem members_eq (m : Memory) (now : Number) (name : String) :
    (m.members now name).1 = membersAt now (m.sets.get? name) := by
  unfold Memory.members membersAt
  dsimp only
  rw [Memory.get?_settle, if_pos rfl]

theorem View.IsSound.isKey {v : View} (h : v.IsSound c) {tag : String}
    (hmem : key ∈ membersAt now (v.tagged tag)) : IsKey c key := by
  obtain ⟨s, hs, -, hcontent⟩ := mem_membersAt.mp hmem
  exact (h tag s hs).1 key hcontent

theorem tagKey_text (hstart : c.tagPrefix = .text start) (tag : String) :
    tagKey c (.text tag) = .ok (start ++ tag) := by
  unfold tagKey behind
  rw [hstart]

theorem appended_inj {tag other : String} (h : start ++ other = start ++ tag) : other = tag := by
  have hlists := congrArg String.toList h
  rw [String.toList_append, String.toList_append] at hlists
  exact String.toList_inj.mp (List.append_cancel_left hlists)

theorem Apart.ne (hapart : Apart c) (hstart : c.tagPrefix = .text start) (hkey : IsKey c key)
    (tag : String) : start ++ tag ≠ key := by
  intro heq
  apply hapart key tag hkey
  rw [tagKey_text hstart, heq]

theorem reading_none (h : lasting now (m.values.get? key) = m.values.get? key) (other : String) :
    View.of start other m = (View.of start other m).after now other (.reading key) := by
  rw [View.after]
  by_cases hother : key = other
  · subst hother
    rw [if_pos rfl]
    exact congrArg (fun e => View.mk e _) h.symm
  · rw [if_neg hother]

theorem reading_erased (m' : Memory) (h : lasting now (m.values.get? key) = none)
    (hvalues : m'.values = m.values.erase key)
    (hsets : ∀ tag, m'.sets.get? (start ++ tag) = m.sets.get? (start ++ tag)) (other : String) :
    View.of start other m' = (View.of start other m).after now other (.reading key) := by
  have htagged : (View.of start other m').tagged = (View.of start other m).tagged := funext hsets
  rw [View.after]
  by_cases hother : key = other
  · subst hother
    rw [if_pos rfl]
    have hentry : (View.of start key m').entry = lasting now (View.of start key m).entry := by
      change m'.values.get? key = lasting now (m.values.get? key)
      rw [hvalues, Entries.get?_erase_self, h]
    exact congrArg₂ View.mk hentry htagged
  · rw [if_neg hother]
    have hentry : (View.of start other m').entry = (View.of start other m).entry := by
      change m'.values.get? other = m.values.get? other
      rw [hvalues, Entries.get?_erase_of_ne _ (Ne.symm hother)]
    exact congrArg₂ View.mk hentry htagged

/-- Reading removes at most what has ended under its key. -/
theorem does_read (hne : ∀ tag, start ++ tag ≠ key) (now : Number) (other : String) :
    Does c start other now (read key) (.reading key) := by
  intro m _
  have hfetch : (fetch key).runIn (overMemory now) m =
      (.ok (m.get now key).1, (m.get now key).2) := rfl
  have hnow : Asking.runIn (overMemory now) Cache.now m = (.ok now, m) := rfl
  unfold read
  rw [runIn_bind_ok hfetch]
  unfold Memory.get
  cases hentry : m.values.get? key with
  | none =>
    have hlasting : lasting now (m.values.get? key) = m.values.get? key := by
      rw [hentry]
      rfl
    exact reading_none hlasting other
  | some e =>
    dsimp only
    have hlasting : lasting now (m.values.get? key) = if lasts now e then some e else none := by
      rw [hentry]
      rfl
    unfold lasts at hlasting
    by_cases hover : e.isOver now = true
    · simp only [if_pos hover]
      rw [hover] at hlasting
      exact reading_erased ⟨m.values.erase key, m.sets⟩ hlasting rfl (fun _ => rfl) other
    · simp only [if_neg hover]
      rw [Bool.not_eq_true _ |>.mp hover] at hlasting
      rw [runIn_bind_ok hnow, runIn_bind_lift]
      cases hcontent : contentOf now e.content with
      | error f =>
        rw [hcontent] at hlasting
        exact reading_none (hlasting.trans hentry.symm) other
      | ok content =>
        rw [hcontent] at hlasting
        cases content with
        | data v => exact reading_none (hlasting.trans hentry.symm) other
        | ended =>
          have hsets (tag : String) :
              (m.delete [key]).sets.get? (start ++ tag) = m.sets.get? (start ++ tag) :=
            Entries.get?_erase_of_ne _ (hne tag)
          exact reading_erased (m.delete [key]) hlasting rfl hsets other

theorem does_get (hapart : Apart c) (hstart : c.tagPrefix = .text start) {target : Target}
    {scope : String} (htarget : target.key c scope = .ok key) (now : Number) (other : String) :
    Does c start other now (get c target scope) (.reading key) := by
  intro m hsound
  have hne := hapart.ne hstart ⟨target, scope, htarget⟩
  unfold get
  rw [htarget, runIn_bind_lift]
  change View.of start other ((attempt (read key) ("Cache read failed for " ++ key) none).runIn
    (overMemory now) m).2 = _
  rw [runIn_attempt]
  exact does_read hne now other m hsound

/-- Clearing a set removes what is in it, and the set. -/
theorem runIn_clear (set : String) (m : Memory) (now : Number) :
    (clear set).runIn (overMemory now) m =
      (.ok (), ((m.settle now set).delete (Text.sorted (m.members now set).1)).delete [set]) := by
  have hkeys : (keysIn set).runIn (overMemory now) m =
      (.ok (m.members now set).1, m.settle now set) := rfl
  unfold clear
  rw [runIn_bind_ok hkeys]
  by_cases hempty : (m.members now set).1 = []
  · have hsorted : Text.sorted [] = [] := List.mergeSort_nil
    rw [hempty, hsorted]
    rfl
  · have hsome : (!(m.members now set).1.isEmpty) = true := by simp [hempty]
    rw [if_pos hsome]
    rfl

theorem does_clear (hapart : Apart c) (hstart : c.tagPrefix = .text start) (hkey : IsKey c key)
    (tag : String) (now : Number) :
    Does c start key now (clear (start ++ tag)) (.dropping [tag]) := by
  intro m hsound
  have hmembers := members_eq m now (start ++ tag)
  rw [runIn_clear]
  have hentry : (((m.settle now (start ++ tag)).delete (Text.sorted
        (m.members now (start ++ tag)).1)).delete [start ++ tag]).values.get? key =
      if key ∈ membersAt now (m.sets.get? (start ++ tag)) then none else m.values.get? key := by
    have hne : ¬key ∈ [start ++ tag] := by
      rw [List.mem_singleton]
      exact (hapart.ne hstart hkey tag).symm
    rw [Memory.get?_values_delete, if_neg hne, Memory.get?_values_delete, Memory.values_settle,
      hmembers]
    simp [Text.sorted]
  have htagged (other : String) : (((m.settle now (start ++ tag)).delete (Text.sorted
        (m.members now (start ++ tag)).1)).delete [start ++ tag]).sets.get? (start ++ other) =
      if other = tag then none else m.sets.get? (start ++ other) := by
    have hother : ¬start ++ other ∈ Text.sorted (m.members now (start ++ tag)).1 := by
      rw [hmembers]
      intro hmem
      have hmem := List.mem_mergeSort.mp hmem
      exact hapart.ne hstart (View.IsSound.isKey hsound hmem) other rfl
    rw [Memory.get?_sets_delete, Memory.get?_sets_delete, if_neg hother, Memory.get?_settle]
    by_cases hsame : other = tag
    · subst hsame
      rw [if_pos (List.mem_singleton_self _), if_pos rfl]
    · have hne : ¬start ++ other = start ++ tag := fun h => hsame (appended_inj h)
      have hmem : ¬start ++ other ∈ [start ++ tag] := fun h => hne (List.mem_singleton.mp h)
      rw [if_neg hmem, if_neg hne, if_neg hsame]
  exact congrArg₂ View.mk hentry (funext htagged)

/-- Sets of tags stay sound where what is in them is removed. -/
theorem View.IsSound.drop {v : View} (h : v.IsSound c) (tag : String) :
    (v.drop now key tag).IsSound c := by
  intro other s hs
  change (if other = tag then none else v.tagged other) = some s at hs
  split at hs
  · cases hs
  · exact h other s hs

theorem does_invalidate (hapart : Apart c) (hstart : c.tagPrefix = .text start)
    (hkey : IsKey c key) (tags : List String) (now : Number) :
    Does c start key now (invalidate c (tags.map .text)) (.dropping tags) := by
  induction tags with
  | nil => exact fun _ _ => rfl
  | cons tag tags ih =>
    intro m hsound
    have hclear := does_clear hapart hstart hkey tag now m hsound
    rw [List.map_cons, invalidate, tagKey_text hstart, runIn_bind_lift]
    simp only [runThen]
    rw [runIn_bind_ok (runIn_attempt _ _ _)]
    have hrest := ih ((clear (start ++ tag)).runIn (overMemory now) m).2
      (hclear ▸ hsound.drop tag)
    rw [hrest, hclear]
    rfl

/-- A key is put into the set of a tag. -/
theorem addToSet_view (start : String) {ttl : Option Number} {ends : Number}
    (hends : KeyValue.endAfter now ttl = .ok (some ends)) (key tag : String) (m : Memory) :
    ∃ m', m.addToSet now (start ++ tag) [key] ttl = .ok m' ∧
      ∀ other, View.of start other m' = (View.of start other m).enter now key ends tag := by
  obtain ⟨m', hadd, hvalues, hsets⟩ := m.addToSet_ok (start ++ tag) [key] hends
  refine ⟨m', hadd, fun other => ?_⟩
  have hentry : m'.values.get? other = m.values.get? other := by rw [hvalues]
  have htagged (u : String) : m'.sets.get? (start ++ u) =
      if u = tag then some (extended now [key] (some ends) (m.sets.get? (start ++ tag)))
      else m.sets.get? (start ++ u) := by
    rw [hsets]
    by_cases hu : u = tag
    · rw [hu, if_pos rfl, if_pos rfl]
    · rw [if_neg hu, if_neg fun h => hu (appended_inj h)]
  exact congrArg₂ View.mk hentry (funext htagged)

theorem runIn_enterAll (hstart : c.tagPrefix = .text start) {ttl ends : Number}
    (hends : KeyValue.endAfter now (some ttl) = .ok (some ends)) (key : String)
    (tags : List String) (m : Memory) :
    ∃ m', (enterAll c key ttl (tags.map .text)).runIn (overMemory now) m = (.ok (), m') ∧
      ∀ other, View.of start other m' =
        tags.foldl (View.enter now key ends) (View.of start other m) := by
  induction tags generalizing m with
  | nil => exact ⟨m, rfl, fun _ => rfl⟩
  | cons tag tags ih =>
    obtain ⟨m₁, hadd, hview⟩ := addToSet_view start hends key tag m
    have henter : (Cache.enter (start ++ tag) key ttl).runIn (overMemory now) m = (.ok (), m₁) :=
      Memory.answer_addToSet_ok hadd
    obtain ⟨m', hrun, hrest⟩ := ih m₁
    refine ⟨m', ?_, fun other => ?_⟩
    · rw [List.map_cons, enterAll, tagKey_text hstart, runIn_bind_lift]
      simp only [runThen]
      rw [runIn_bind_ok henter]
      exact hrun
    · rw [hrest, hview]
      rfl

/-- A text is put under a key. -/
theorem view_put (start : String) (m : Memory) (key : String) (e : Expiring String)
    (other : String) : View.of start other { m with values := m.values.insert key e } =
      if key = other then { View.of start other m with entry := some e }
      else View.of start other m := by
  by_cases hother : key = other
  · subst hother
    rw [if_pos rfl]
    exact congrArg (fun e => View.mk e _) (Entries.get?_insert_self _ _ _)
  · rw [if_neg hother]
    exact congrArg (fun e => View.mk e _) (Entries.get?_insert_of_ne _ (Ne.symm hother) _)

/-- Writing does the same in every store: it fails and leaves the store, or it files a text. -/
theorem runIn_write (hstart : c.tagPrefix = .text start) (key : String) (data : Value)
    (ttl : Number) {chosen : Value} {tags : List String}
    (htags : tagsOf chosen = .ok (tags.map .text)) :
    (∃ f, ∀ m, (write c key data ttl chosen).runIn (overMemory now) m = (.error f, m)) ∨
      ∃ text ends, now.add ttl = .ok ends ∧ enclose ends data = .ok text ∧ ∀ m, ∃ m',
        (write c key data ttl chosen).runIn (overMemory now) m = (.ok true, m') ∧
          ∀ other, View.of start other m' =
            (View.of start other m).after now other (.filing key text ends tags) := by
  have hwrite (m : Memory) :=
    runIn_write_file (w := overMemory now) (s := m) rfl c key data ttl chosen
  cases hsum : now.add ttl with
  | error f =>
    rw [hsum] at hwrite
    exact .inl ⟨_, hwrite⟩
  | ok ends =>
    rw [hsum] at hwrite
    dsimp only at hwrite
    cases htext : enclose ends data with
    | error f =>
      rw [htext] at hwrite
      exact .inl ⟨f, hwrite⟩
    | ok text =>
      rw [htext] at hwrite
      refine .inr ⟨text, ends, rfl, htext, fun m => ?_⟩
      obtain ⟨m', hrun, hview⟩ := runIn_enterAll hstart (endAfter_add hsum) key tags
        { m with values := m.values.insert key ⟨text, some ends⟩ }
      refine ⟨m', ?_, fun other => ?_⟩
      · refine (hwrite m).trans ?_
        change (file c key text ttl chosen).runIn (overMemory now) m = _
        unfold file
        rw [runIn_bind_ok (runIn_put hsum key text m), htags, runIn_bind_lift]
        simp only [runThen]
        rw [runIn_bind_ok hrun]
        rfl
      · rw [hview, View.after, view_put]

/-- The time to live that counts for a target. -/
def chosenTtl (target : Target) (ttl : Value) : Value :=
  if ttl.isNull then (target.settings.map fun s => .number s.ttl).getD .null else ttl

/-- The tags that count for a target. -/
def chosenTags (target : Target) (tags : Value) : Value :=
  if tags.isNull then (target.settings.map fun s => .texts s.tags).getD .null else tags

/-- The key under which a target is to be written, and the time for which, if it is to be. -/
def planned (c : Config) (target : Target) (ttl : Value) (scope : String) :
    Except Fault (Option (String × Number)) := do
  if !(← isWanted target) then return none
  else
    match ← lifetime (chosenTtl target ttl) with
    | none => return none
    | some t => return some (← target.key c scope, t)

/-- Writes what is planned. -/
def writePlanned (c : Config) (data tags : Value) : Option (String × Number) → Caching Bool
  | none => return false
  | some (key, ttl) => attempt (write c key data ttl tags) ("Cache write failed for " ++ key) false

/-- Caching is planning, then writing. -/
theorem set_planned (c : Config) (target : Target) (data ttl chosen : Value) (scope : String) :
    set c target data ttl chosen scope =
      (liftM (planned c target ttl scope) : Caching _) >>=
        writePlanned c data (chosenTags target chosen) := by
  unfold set planned
  cases isWanted target with
  | error f => rfl
  | ok wanted =>
    cases wanted with
    | false => rfl
    | true =>
      change (liftM (lifetime (chosenTtl target ttl)) : Caching _) >>= _ =
        (liftM (lifetime (chosenTtl target ttl) >>= _) : Caching _) >>= _
      cases lifetime (chosenTtl target ttl) with
      | error f => rfl
      | ok found =>
        cases found with
        | none => rfl
        | some t =>
          change (liftM (target.key c scope) : Caching _) >>= _ =
            (liftM (target.key c scope >>= _) : Caching _) >>= _
          cases target.key c scope <;> rfl

theorem planned_ok {target : Target} {ttl : Value} {scope : String} {t : Number}
    (h : planned c target ttl scope = .ok (some (key, t))) :
    lifetime (chosenTtl target ttl) = .ok (some t) ∧ target.key c scope = .ok key := by
  obtain ⟨wanted, -, h⟩ := sequence_eq_ok.mp h
  split at h
  · cases h
  · obtain ⟨found, hfound, h⟩ := sequence_eq_ok.mp h
    cases found with
    | none => cases h
    | some t' =>
      obtain ⟨key', hkey, h⟩ := sequence_eq_ok.mp h
      cases h
      exact ⟨hfound, hkey⟩

/-- Caching does the same in every store: it answers no success and leaves the store, or it files a
text of the data, which ends when the time to live is over. -/
theorem runIn_set_cases (hstart : c.tagPrefix = .text start) {target : Target}
    {ttl chosen : Value} {tags : List String}
    (htags : tagsOf (chosenTags target chosen) = .ok (tags.map .text)) (data : Value)
    (scope : String) :
    (∃ y, y ≠ .ok true ∧ ∀ m,
      (set c target data ttl chosen scope).runIn (overMemory now) m = (y, m)) ∨
    ∃ key text t ends, target.key c scope = .ok key ∧
      lifetime (chosenTtl target ttl) = .ok (some t) ∧ now.add t = .ok ends ∧
      enclose ends data = .ok text ∧ ∀ m, ∃ m',
        (set c target data ttl chosen scope).runIn (overMemory now) m = (.ok true, m') ∧
          ∀ other, View.of start other m' =
            (View.of start other m).after now other (.filing key text ends tags) := by
  simp only [set_planned, runIn_bind_lift]
  cases hplanned : planned c target ttl scope with
  | error f => exact .inl ⟨.error f, nofun, fun m => rfl⟩
  | ok found =>
    rcases found with - | ⟨key, t⟩
    · exact .inl ⟨.ok false, nofun, fun m => rfl⟩
    · obtain ⟨hlifetime, hkey⟩ := planned_ok hplanned
      simp only [runThen, writePlanned, runIn_attempt]
      rcases runIn_write hstart key data t htags with
        ⟨f, hfails⟩ | ⟨text, ends, hends, htext, hfiles⟩
      · refine .inl ⟨.ok false, nofun, fun m => ?_⟩
        rw [hfails]
        rfl
      · refine .inr ⟨key, text, t, ends, hkey, hlifetime, hends, htext, fun m => ?_⟩
        obtain ⟨m', hrun, hview⟩ := hfiles m
        refine ⟨m', ?_, hview⟩
        rw [hrun]
        rfl

end

end RowGate.Cache
