import Mathlib
import RowGate.Cache.Basic
import RowGate.Proofs.Cache.Envelope
import RowGate.Proofs.KeyValue.Memory
import RowGate.Proofs.Script.Run
/-!
The cache over a store in memory. Main statements: looking for data finds what the text under its
key gives and changes nothing that could be found later, and what is cached is found, in the form
that the interchange format has for it, until its time is over.
-/
namespace RowGate.Cache

open Asking
open Number (Later)
open KeyValue (Memory Expiring)

/-- Surroundings of the cache with a store in memory, at a time. -/
def overMemory (now : Number) : Surroundings Question Question.Answer Memory
  | .store call, m => m.answer now call
  | .now, m => (now, m)
  | .log _, m => ((), m)

/-- The data that is found under a key at a time. -/
def found? (m : Memory) (now : Number) (key : String) : Option Value :=
  match m.values.get? key with
  | some e => if e.isOver now then none else dataAt now e.content
  | none => none

variable {m : Memory} {now t : Number} {key : String}

/-- What is not found is not found later. -/
theorem found?_none_later (hlater : Later now t) (h : found? m now key = none) :
    found? m t key = none := by
  unfold found? at h ⊢
  cases hentry : m.values.get? key with
  | none => rfl
  | some e =>
    rw [hentry] at h
    by_cases hover : e.isOver now = true
    · exact if_pos (Memory.isOver_later hlater hover)
    · simp only [if_neg hover] at h
      change (if e.isOver t = true then none else dataAt t e.content) = none
      rw [dataAt_none hlater h, ite_self]

/-- Nothing is found under a key that was erased; all else is as it was. -/
theorem found?_erase {m' : Memory} (hvalues : m'.values = m.values.erase key)
    (h : found? m t key = none) (other : String) : found? m' t other = found? m t other := by
  unfold found?
  rw [hvalues]
  by_cases hother : other = key
  · subst hother
    rw [Entries.get?_erase_self]
    exact h.symm
  · rw [Entries.get?_erase_of_ne _ hother]

/-- A store that finds the same as another one, from a time on. -/
def SameFrom (now : Number) (m m' : Memory) : Prop :=
  ∀ t, Later now t → ∀ key, found? m' t key = found? m t key

theorem SameFrom.of_values {m' : Memory} (h : m'.values = m.values) : SameFrom now m m' := by
  intro t _ key
  unfold found?
  rw [h]

theorem SameFrom.of_erase {m' : Memory} (h : m'.values = m.values.erase key)
    (hnone : found? m now key = none) : SameFrom now m m' :=
  fun _ hlater other => found?_erase h (found?_none_later hlater hnone) other

/-- Where nothing is kept of the log, something that is attempted leaves what it leaves itself. -/
theorem runIn_attempt_unlogged {α σ : Type} {w : Surroundings Question Question.Answer σ}
    (hlog : ∀ entry s, (w (.log entry) s).2 = s) (x : Caching α) (message : String) (otherwise : α)
    (s : σ) : (attempt x message otherwise).runIn w s =
      (.ok ((x.runIn w s).1.toOption.getD otherwise), (x.runIn w s).2) := by
  unfold attempt
  rw [runIn_bind_ok (runIn_outcome x s)]
  cases (x.runIn w s).1 with
  | ok a => rfl
  | error f => exact Prod.ext rfl (hlog _ _)

theorem runIn_attempt {α : Type} (x : Caching α) (message : String) (otherwise : α) :
    (attempt x message otherwise).runIn (overMemory now) m =
      (.ok ((x.runIn (overMemory now) m).1.toOption.getD otherwise),
        (x.runIn (overMemory now) m).2) :=
  runIn_attempt_unlogged (fun _ _ => rfl) x message otherwise m

/-- Reading finds what is there, and removes nothing that could be found. -/
theorem runIn_read (m : Memory) (now : Number) (key : String) :
    (((read key).runIn (overMemory now) m).1.toOption.getD none = found? m now key) ∧
      (found? m now key ≠ none → ((read key).runIn (overMemory now) m).2 = m) ∧
      SameFrom now m ((read key).runIn (overMemory now) m).2 := by
  have hfetch : (fetch key).runIn (overMemory now) m =
      (.ok (m.get now key).1, (m.get now key).2) := rfl
  unfold read
  rw [runIn_bind_ok hfetch]
  unfold Memory.get found?
  cases hentry : m.values.get? key with
  | none => exact ⟨rfl, fun h => absurd rfl h, .of_values rfl⟩
  | some e =>
    simp only
    by_cases hover : e.isOver now = true
    · -- the entry is over: it is removed
      simp only [if_pos hover]
      refine ⟨rfl, fun h => absurd rfl h, .of_erase rfl ?_⟩
      unfold found?
      rw [hentry]
      exact if_pos hover
    · simp only [if_neg hover]
      have hnow : Asking.runIn (overMemory now) Cache.now m = (.ok now, m) := rfl
      rw [runIn_bind_ok hnow, runIn_bind_lift]
      unfold dataAt
      cases hcontent : contentOf now e.content with
      | error f => exact ⟨rfl, fun _ => rfl, .of_values rfl⟩
      | ok content =>
        cases content with
        | data v => exact ⟨rfl, fun _ => rfl, .of_values rfl⟩
        | ended =>
          refine ⟨rfl, fun h => absurd rfl h, .of_erase rfl ?_⟩
          unfold found? dataAt
          rw [hentry]
          simp only [hcontent, ite_self]

variable {c : Config} {target : Target} {scope : String}

/-- Looking for the data of a target finds what is there under its key. -/
theorem runIn_get (hkey : target.key c scope = .ok key) (m : Memory) (now : Number) :
    ∃ m', (get c target scope).runIn (overMemory now) m = (.ok (found? m now key), m') ∧
      (found? m now key ≠ none → m' = m) ∧ SameFrom now m m' := by
  obtain ⟨hfound, hstays, hsame⟩ := runIn_read m now key
  refine ⟨((read key).runIn (overMemory now) m).2, ?_, hstays, hsame⟩
  unfold get
  rw [hkey, runIn_bind_lift]
  change (attempt (read key) ("Cache read failed for " ++ key) none).runIn (overMemory now) m = _
  rw [runIn_attempt, hfound]

/-- A target without a key is not looked for. -/
theorem get_keyless {f : Fault} (hkey : target.key c scope = .error f) :
    get c target scope = throw f := by
  unfold get
  rw [hkey]
  rfl

/-- The texts in a store after data was put there for a time; where there is no end or no text for
the data, nothing was. -/
def written (m : Memory) (now : Number) (key : String) (data : Value) (ttl : Number) :
    Entries (Expiring String) :=
  match now.add ttl with
  | .error _ => m.values
  | .ok ends =>
    match enclose ends data with
    | .error _ => m.values
    | .ok text => m.values.insert key ⟨text, some ends⟩

/-- Questions that leave the texts in the store as they are. -/
def Question.LeavesTexts : Question → Prop
  | .store (.addToSet ..) | .now | .log _ => True
  | _ => False

theorem values_of_leavesTexts (q : Question) (hq : q.LeavesTexts) (m : Memory) :
    (overMemory now q m).2.values = m.values := by
  match q, hq with
  | .now, _ | .log _, _ => rfl
  | .store (.addToSet set members ttl), _ =>
    exact KeyValue.Memory.values_answer_addToSet m now set members ttl

theorem asksOnly_enterAll_leaves (c : Config) (key : String) (ttl : Number) (tags : List Value) :
    AsksOnly Question.LeavesTexts (enterAll c key ttl tags) := by
  induction tags with
  | nil => exact asksOnly_pure ()
  | cons tag rest ih =>
    refine asksOnly_bind (asksOnly_lift _) fun set => ?_
    exact asksOnly_bind ⟨trivial, fun _ => trivial⟩ fun _ => ih

/-- Puts a text under a key, then the key into the sets of tags. -/
def file (c : Config) (key text : String) (ttl : Number) (tags : Value) : Caching Bool := do
  put key text ttl
  enterAll c key ttl (← tagsOf tags)
  return true

/-- Writing is filing the text of the data, if there is an end and a text. -/
theorem runIn_write_file {σ : Type} {w : Surroundings Question Question.Answer σ} {s : σ}
    (hnow : w .now s = (now, s)) (c : Config) (key : String) (data : Value) (ttl : Number)
    (tags : Value) : (write c key data ttl tags).runIn w s =
      match now.add ttl with
      | .error f => (.error (.ofNumber f), s)
      | .ok ends =>
        match enclose ends data with
        | .error f => (.error f, s)
        | .ok text => (file c key text ttl tags).runIn w s := by
  have htime : Asking.runIn w Cache.now s = (.ok now, s) := by
    change (Except.ok (w .now s).1, (w .now s).2) = _
    rw [hnow]
  unfold write
  rw [runIn_bind_ok htime, runIn_bind_lift]
  cases now.add ttl with
  | error f => rfl
  | ok ends =>
    change (liftM (enclose ends data) >>= _ : Caching Bool).runIn w s = _
    dsimp only
    rw [runIn_bind_lift]
    cases enclose ends data with
    | error f => rfl
    | ok text => rfl

theorem endAfter_add {ttl ends : Number} (h : now.add ttl = .ok ends) :
    KeyValue.endAfter now (some ttl) = .ok (some ends) := by
  unfold KeyValue.endAfter
  rw [Option.mapM_some, h]
  rfl

theorem put_text {ttl ends : Number} (hends : now.add ttl = .ok ends) (key text : String)
    (m : Memory) : m.set now key text (some ttl) =
      .ok { m with values := m.values.insert key ⟨text, some ends⟩ } := by
  unfold Memory.set
  rw [endAfter_add hends]
  rfl

theorem runIn_put {ttl ends : Number} (hends : now.add ttl = .ok ends) (key text : String)
    (m : Memory) : (put key text ttl).runIn (overMemory now) m =
      (.ok (), { m with values := m.values.insert key ⟨text, some ends⟩ }) := by
  change m.attempt (m.set now key text (some ttl)) = _
  rw [put_text hends]
  rfl

theorem values_write (c : Config) (key : String) (data : Value) (ttl : Number) (tags : Value)
    (now : Number) (m : Memory) :
    ((write c key data ttl tags).runIn (overMemory now) m).2.values = written m now key data ttl := by
  rw [runIn_write_file rfl]
  unfold written
  cases hends : now.add ttl with
  | error f => rfl
  | ok ends =>
    dsimp only
    cases enclose ends data with
    | error f => rfl
    | ok text =>
      dsimp only
      unfold file
      rw [runIn_bind_ok (runIn_put hends key text m)]
      refine runIn_keeps Memory.values values_of_leavesTexts ?_ _
      refine asksOnly_bind (asksOnly_lift _) fun ts => ?_
      exact asksOnly_bind (asksOnly_enterAll_leaves c key ttl ts) fun _ => asksOnly_pure _

theorem lifetime_number {ttl : Number} (h : ttl.isDecimal = false) :
    lifetime (.number ttl) = .ok (if ttl.atMost (.int 0) then none else some ttl) := by
  have hbelow : ttl.below (.int 0) = .ok (ttl.less (.int 0)) := by
    unfold Number.below
    rw [h]
    rfl
  have hcomparable : (Value.number ttl).comparable = .ok ttl := by
    unfold Value.comparable
    simp only [Value.number?, hbelow]
    rfl
  change ((Value.number ttl).comparable >>= fun t =>
    .ok (if t.atMost (.int 0) then none else some t)) = _
  rw [hcomparable, ok_sequence]

variable {q : Query} {s : CacheSettings} {data : Value}

/-- Caching the data of a query puts it under its key for the time that the query wants. -/
theorem runIn_set (hsettings : q.cache = some s) (hwanted : isWanted (.query q) = .ok true)
    (httl : s.ttl.isDecimal = false) (hkey : Target.key c scope (.query q) = .ok key)
    (data : Value) (now : Number) (m : Memory) :
    ∃ written? m', (set c (.query q) data .null .null scope).runIn (overMemory now) m =
        (.ok written?, m') ∧
      m'.values = if s.ttl.atMost (.int 0) then m.values else written m now key data s.ttl := by
  have httlValue : ((Target.settings (.query q)).map fun s => Value.number s.ttl).getD .null =
      .number s.ttl := by
    simp only [Target.settings, hsettings, Option.map_some, Option.getD_some]
  unfold set
  rw [runIn_bind_lift, hwanted]
  simp only [runThen, Bool.not_true, Bool.false_eq_true, if_false, Value.isNull, if_true, httlValue]
  generalize ((Target.settings (.query q)).map fun s => Value.texts s.tags).getD .null = tags
  rw [runIn_bind_lift, lifetime_number httl]
  by_cases hnone : s.ttl.atMost (.int 0) = true
  · simp only [if_pos hnone]
    exact ⟨false, m, rfl, rfl⟩
  · simp only [if_neg hnone]
    simp only [runThen]
    rw [runIn_bind_lift, hkey]
    change ∃ _ m', (attempt (write c key data s.ttl tags) _ false).runIn (overMemory now) m = _ ∧ _
    rw [runIn_attempt]
    exact ⟨_, _, rfl, values_write c key data s.ttl tags now m⟩

/-- Whether an end is read back as the number that it is: a decimal comes back as a text. -/
def isReadBack : Number → Bool
  | .int n => Json.isWritten n
  | .float _ => true
  | .decimal _ => false

/-- Whether what is cached at one time for some time can still be found at another time: its end is
one that can be read, and has not come. -/
def lives (stored ttl t : Number) : Bool :=
  !ttl.atMost (.int 0) &&
    match stored.add ttl with
    | .ok ends => isReadBack ends && !ends.atMost t
    | .error _ => false

/-- Data as it comes back from the cache, if the cache can keep it: what its form stands for. -/
def recalled? (data : Value) : Option Value :=
  (data.toJson? fallback).bind fun j => j.toValue.toOption

theorem form_isSome {ends : Number} (h : isReadBack ends = true) :
    ∃ i, (Value.number ends).toJson? fallback = some i := by
  cases ends with
  | int n => exact ⟨.int n, if_pos h⟩
  | float x => exact ⟨.float x, rfl⟩
  | decimal d => cases h

theorem isReadBack_of_form {ends : Number} {i : Json}
    (h : (Value.number ends).toJson? fallback = some i) :
    isReadBack ends = !ends.isDecimal := by
  cases ends with
  | int n =>
    rw [Value.toJson?] at h
    split at h
    · rename_i hwritten
      exact hwritten
    · cases h
  | float x => rfl
  | decimal d => rfl

/-- Where there is no text, either the end or the data has no form. -/
theorem unwritten {ends : Number} {f : Fault} (h : enclose ends data = .error f) (t : Number) :
    (if isReadBack ends && !ends.atMost t then recalled? data else none) = none := by
  unfold recalled?
  split
  · rename_i hback
    obtain ⟨i, hi⟩ := form_isSome (Bool.and_eq_true _ _ |>.mp hback).1
    cases hj : data.toJson? fallback with
    | none => rfl
    | some j =>
      rw [enclose_eq_ok.mpr ⟨i, j, hi, hj, rfl⟩] at h
      cases h
  · rfl

/-- A text that is held until its end gives its data as it comes back. -/
theorem dataAt_enclose {ends : Number} {text : String} (hproper : data.isProper = true)
    (h : enclose ends data = .ok text) (t : Number) :
    (if ends.atMost t then none else dataAt t text) =
      if isReadBack ends && !ends.atMost t then recalled? data else none := by
  obtain ⟨j, hj, hcontent⟩ := contentOf_enclose hproper h
  obtain ⟨i, -, hi, -, -⟩ := enclose_eq_ok.mp h
  unfold recalled? dataAt
  rw [isReadBack_of_form hi, hcontent t, hj]
  cases ends.isDecimal <;> cases ends.atMost t <;> rfl

/-- Cached data is found, as it comes back, as long as it lives; before, nothing was found. -/
theorem found?_written {m' : Memory} {ttl : Number} (hproper : data.isProper = true)
    (hnone : found? m now key = none) (hlater : Later now t)
    (hvalues : m'.values = if ttl.atMost (.int 0) then m.values else written m now key data ttl)
    (other : String) :
    found? m' t other = if other = key then if lives now ttl t then recalled? data else none
      else found? m t other := by
  -- without a text nothing is found, neither before nor behind
  have hunwritten (hsame : m'.values = m.values) {y : Option Value} (hy : y = none) :
      found? m' t other = if other = key then y else found? m t other := by
    rw [SameFrom.of_values hsame t hlater other, hy]
    split
    · rename_i hother
      rw [hother, found?_none_later hlater hnone]
    · rfl
  by_cases hzero : ttl.atMost (.int 0) = true
  · rw [if_pos hzero] at hvalues
    refine hunwritten hvalues ?_
    simp [lives, hzero]
  have hlives : lives now ttl t = match now.add ttl with
      | .ok ends => isReadBack ends && !ends.atMost t
      | .error _ => false := by
    simp [lives, hzero]
  rw [if_neg hzero, written] at hvalues
  rw [hlives]
  cases hends : now.add ttl with
  | error f =>
    rw [hends] at hvalues
    exact hunwritten hvalues rfl
  | ok ends =>
    rw [hends] at hvalues
    cases henclose : enclose ends data with
    | error f =>
      simp only [henclose] at hvalues
      exact hunwritten hvalues (unwritten henclose t)
    | ok text =>
      simp only [henclose] at hvalues
      unfold found?
      rw [hvalues]
      by_cases hother : other = key
      · rw [if_pos hother, hother, Entries.get?_insert_self]
        exact dataAt_enclose hproper henclose t
      · rw [if_neg hother, Entries.get?_insert_of_ne _ hother]

end RowGate.Cache
