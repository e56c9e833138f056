import RowGate.Proofs.Cache.Interleaving
import RowGate.Proofs.Cache.Orderly
/-!
Removing by tag while other calls of the cache are under way. Main statements: a text that is there
is in the sets of the tags that were listed with it, unless another text was put under its key, or
one of the sets was about to be removed without the key; in these cases the key may be lost.
-/
namespace RowGate.Cache

open Asking
open Number (Later)
open KeyValue (Memory Expiring)
open KeyValue.Memory (unended extended)

variable {ι : Type}

/-- A text is put under a key. -/
def Question.Puts (key : String) : Question → Prop
  | .store (.set k _ _) => k = key
  | _ => False

/-- A key is put into a set. -/
def Question.Adds (key tagSet : String) : Question → Prop
  | .store (.addToSet s keys _) => s = tagSet ∧ keys = [key]
  | _ => False

/-- How long something is to be kept in the store. -/
def Question.length? : Question → Option Number
  | .store (.set _ _ ttl) => ttl
  | .store (.addToSet _ _ ttl) => ttl
  | _ => none

instance (key : String) : DecidablePred (Question.Puts key) := fun q => by
  unfold Question.Puts
  split <;> infer_instance

instance (key tagSet : String) : DecidablePred (Question.Adds key tagSet) := fun q => by
  unfold Question.Adds
  split <;> infer_instance

namespace Interleaving

variable [DecidableEq ι] {c : Config} {s : State}

/-- When request `i` put a key into a set, another one had yet to remove the set, which it had read
without the key or after which it had removed the key. -/
def Crossed (run : Interleaving ι c s) (i : ι) (key tagSet : String) : Prop :=
  ∃ (n : Nat) (x : Event ι) (j : ι),
    run.events[n]? = some x ∧ x.caller = i ∧ x.said.1.Adds key tagSet ∧
      Phase.after key tagSet .idle (own j (run.events.take n)) = .free

/-- After request `i` had put a text under a key, another text was put there. -/
def Overtaken (run : Interleaving ι c s) (i : ι) (key : String) : Prop :=
  ∃ (n n' : Nat) (x y : Event ι),
    run.events[n]? = some x ∧ x.caller = i ∧ x.said.1.Puts key ∧
      n < n' ∧ run.events[n']? = some y ∧ y.said.1.Puts key

/-- What is to be kept equally long is kept at least until then if it comes later. -/
def Steady (run : Interleaving ι c s) : Prop :=
  run.events.Pairwise fun x y => ∀ length a b, x.said.1.length? = some length →
    y.said.1.length? = some length → x.time.add length = .ok a → y.time.add length = .ok b →
      a.atMost b = true

variable {run : Interleaving ι c s} {key tagSet : String} {x : Event ι}
  {before after : List (Event ι)}

theorem crossed_of_split (h : run.events = before ++ x :: after) (hadds : x.said.1.Adds key tagSet)
    {j : ι} (hphase : Phase.after key tagSet .idle (own j before) = .free) :
    run.Crossed x.caller key tagSet := by
  refine ⟨before.length, x, j, ?_, rfl, hadds, ?_⟩
  · rw [h, List.getElem?_append_right (Nat.le_refl _), Nat.sub_self]
    rfl
  · rw [h, List.take_left]
    exact hphase

theorem overtaken_of_split (h : run.events = before ++ x :: after) (hputs : x.said.1.Puts key)
    {y : Event ι} (hy : y ∈ after) (hputs' : y.said.1.Puts key) : run.Overtaken x.caller key := by
  obtain ⟨n, hn⟩ := List.getElem?_of_mem hy
  have hbehind : before.length < before.length + (n + 1) := by omega
  refine ⟨before.length, before.length + (n + 1), x, y, ?_, rfl, hputs, hbehind, ?_, hputs'⟩
  · rw [h, List.getElem?_append_right (Nat.le_refl _), Nat.sub_self]
    rfl
  · rw [h, List.getElem?_append_right (Nat.le_add_right _ _), Nat.add_sub_cancel_left]
    exact hn

/-- Readings of a clock that are integers are steady for lengths that are so. -/
theorem steady_of_integers (h : ∀ x ∈ run.events, x.time.isInt = true ∧
    ∀ length ∈ x.said.1.length?, length.isInt = true) : run.Steady := by
  refine (answered_times run.answered).2.imp_of_mem ?_
  intro x y hx hy hlater length a b hlength _ ha hb
  obtain ⟨hxtime, hxlength⟩ := h x hx
  obtain ⟨k, rfl⟩ := Number.isInt_iff.mp (hxlength length hlength)
  exact hlater.add_int hxtime (h y hy).1 ha hb

end Interleaving

section

variable {c : Config} {start key tagSet tag : String} {now now' : Number} {m m' : Memory}
  {events : List (Event ι)}

/-- What is under a key stays there or is removed where nothing is put there. -/
theorem entry_call {q : Question} (hq : ¬q.Puts key) (m : Memory) :
    (overMemory now q m).2.values.get? key = m.values.get? key ∨
      (overMemory now q m).2.values.get? key = none := by
  cases q with
  | now => exact .inl rfl
  | log entry => exact .inl rfl
  | store call =>
    apply m.entry_answer
    rintro text ttl rfl
    exact hq rfl

theorem gone_call {q : Question} (hq : ¬q.Puts key) (h : (View.of start key m).Gone now) :
    (View.of start key (overMemory now q m).2).Gone now := by
  intro e he
  change (overMemory now q m).2.values.get? key = some e at he
  rcases entry_call hq m with hsame | hnone
  · exact h e (hsame.symm.trans he)
  · cases hnone.symm.trans he

/-- A text that is put under a key has the end of its time there. -/
theorem put_ends {text : String} {t : Number}
    (h : Except.ok () = (overMemory now (.store (.set key text (some t))) m).1) :
    ∃ ends, now.add t = .ok ends ∧
      ∀ e, (overMemory now (.store (.set key text (some t))) m).2.values.get? key = some e →
        e.ends = some ends := by
  change Except.ok () = (m.attempt (m.set now key text (some t))).1 at h
  change ∃ ends, _ ∧ ∀ e, (m.attempt (m.set now key text (some t))).2.values.get? key = _ → _
  cases hset : m.set now key text (some t) with
  | error f =>
    rw [hset] at h
    cases h
  | ok m' =>
    obtain ⟨last, hlast, hm⟩ := sequence_eq_ok.mp hset
    obtain ⟨ends, rfl, hends⟩ := Memory.endAfter_some hlast
    obtain rfl := pure_answers.mp hm
    refine ⟨ends, hends, fun e he => ?_⟩
    change (m.values.insert key ⟨text, some ends⟩).get? key = some e at he
    rw [Entries.get?_insert_self] at he
    rw [← Option.some.inj he]

theorem sets_end (hsound : (View.of start key m).IsSound c) (u : String)
    (e : Expiring (List String)) (he : unended now (m.sets.get? (start ++ u)) = some e) :
    e.ends.isSome := by
  obtain ⟨-, a, ha, -⟩ := hsound u e (Memory.unended_eq_some.mp he).1
  rw [ha]
  rfl

/-- A key that is put into the set of a tag is to be kept until some time. -/
theorem added_ends {length : Number} {k u : String} (hsound : (View.of start key m).IsSound c)
    (h : Except.ok () = (overMemory now (.store (.addToSet (start ++ u) [k] (some length))) m).1) :
    ∃ ends, now.add length = .ok ends := by
  cases hends : KeyValue.endAfter now (some length) with
  | error f =>
    have hfails := Memory.addToSet_error [k] hends (sets_end hsound u)
    change Except.ok () = (m.answer now (.addToSet (start ++ u) [k] (some length))).1 at h
    rw [Memory.answer_addToSet_error hfails] at h
    cases h
  | ok last =>
    obtain ⟨ends, -, hsum⟩ := Memory.endAfter_some hends
    exact ⟨ends, hsum⟩

/-- A key whose end cannot be reckoned is put into a set that is there until the end of the set;
otherwise the set is only looked at. -/
theorem view_widened (hsound : (View.of start key m).IsSound c) (now : Number) (k u : String) :
    View.of start key (m.widened now (start ++ u) [k]) =
        View.of start key (m.members now (start ++ u)).2 ∨
      ∃ ends, ends.place?.isSome ∧ View.of start key (m.widened now (start ++ u) [k]) =
        (View.of start key m).enter now k ends u := by
  have hentry (m' : Memory) (h : m'.values = m.values) : m'.values.get? key = m.values.get? key := by
    rw [h]
  have hwidened := hentry _ (Memory.values_widened m now (start ++ u) [k])
  cases hheld : unended now (m.sets.get? (start ++ u)) with
  | none =>
    refine .inl (congrArg₂ View.mk ?_ (funext fun tag => ?_))
    · exact hwidened.trans (hentry _ (Memory.values_settle m now (start ++ u))).symm
    · change (m.widened now (start ++ u) [k]).sets.get? (start ++ tag) =
        (m.settle now (start ++ u)).sets.get? (start ++ tag)
      rw [Memory.get?_widened, Memory.get?_settle, hheld]
      rfl
  | some e =>
    obtain ⟨hsome, -⟩ := Memory.unended_eq_some.mp hheld
    obtain ⟨-, a, ha, hplace⟩ := hsound u e hsome
    refine .inr ⟨a, hplace, congrArg₂ View.mk hwidened (funext fun tag => ?_)⟩
    change (m.widened now (start ++ u) [k]).sets.get? (start ++ tag) =
      if tag = u then some (extended now [k] (some a) (m.sets.get? (start ++ u)))
      else m.sets.get? (start ++ tag)
    rw [Memory.get?_widened, hheld]
    by_cases htag : tag = u
    · have hlater : KeyValue.laterEnd (some a) (some a) = some a := by
        unfold KeyValue.laterEnd
        simp
      rw [if_pos (congrArg _ htag), if_pos htag]
      unfold extended
      rw [hheld]
      dsimp only [Option.map_some]
      rw [ha, hlater]
    · rw [if_neg htag, if_neg fun h => htag (appended_inj h)]

/-- A key is put into the set of a tag, or the set is only looked at. -/
theorem view_addToSet {t : Number} (hfinite : t.IsFinite) (hnow : now.place?.isSome)
    (k u : String) (hsound : (View.of start key m).IsSound c) :
    View.of start key (overMemory now (.store (.addToSet (start ++ u) [k] (some t))) m).2 =
        View.of start key (m.members now (start ++ u)).2 ∨
      ∃ ends, ends.place?.isSome ∧
        View.of start key (overMemory now (.store (.addToSet (start ++ u) [k] (some t))) m).2 =
          (View.of start key m).enter now k ends u := by
  change View.of start key (m.answer now (.addToSet (start ++ u) [k] (some t))).2 = _ ∨
    ∃ ends, _ ∧ View.of start key (m.answer now (.addToSet (start ++ u) [k] (some t))).2 = _
  cases hends : KeyValue.endAfter now (some t) with
  | error f =>
    have hfails := Memory.addToSet_error [k] hends (sets_end hsound u)
    rw [Memory.answer_addToSet_error hfails]
    exact view_widened hsound now k u
  | ok last =>
    obtain ⟨ends, rfl, hsum⟩ := Memory.endAfter_some hends
    obtain ⟨m', hadd, hview⟩ := addToSet_view start hends k u m
    rw [Memory.answer_addToSet_ok hadd]
    exact .inr ⟨ends, Number.place_add hnow hfinite hsum, hview key⟩

/-- Looking at a set removes it if it has ended. -/
theorem tagged_members (start key : String) (m : Memory) (s u : String) :
    (View.of start key (m.members now s).2).tagged u = (View.of start key m).tagged u ∨
      (View.of start key (m.members now s).2).tagged u =
        unended now ((View.of start key m).tagged u) := by
  change (m.settle now s).sets.get? (start ++ u) = _ ∨ (m.settle now s).sets.get? (start ++ u) = _
  rw [Memory.get?_settle]
  split
  · rename_i hs
    exact .inr (congrArg (fun name => unended now (m.sets.get? name)) hs.symm)
  · exact .inl rfl

theorem View.IsSound.of_tagged {v v' : View} (h : v.IsSound c)
    (htagged : ∀ u s, v'.tagged u = some s → v.tagged u = some s) : v'.IsSound c :=
  fun u s hs => h u s (htagged u s hs)

theorem sound_members (hsound : (View.of start key m).IsSound c) (name : String) :
    (View.of start key (m.members now name).2).IsSound c := by
  apply hsound.of_tagged
  intro u s hs
  rcases tagged_members start key m name u with hsame | hheld
  · exact hsame.symm.trans hs
  · exact (Memory.unended_eq_some.mp (hheld.symm.trans hs)).1

theorem shelters_members (h : (View.of start key m).Shelters now key tag) (name : String) :
    (View.of start key (m.members now name).2).Shelters now key tag := by
  have hentry : (m.settle now name).values.get? key = m.values.get? key := by
    rw [Memory.values_settle]
  rcases tagged_members start key m name tag with hsame | hheld
  · exact h.of_same hentry hsame
  · exact h.of_unended hentry hheld

variable {phase : Phase} {q : Question}

/-- A question that is in order leaves the sets of tags sound. -/
theorem sound_call (hnow : now.place?.isSome) (hsound : (View.of start key m).IsSound c)
    (hallows : phase.Allows c start tagSet q) :
    (View.of start key (overMemory now q m).2).IsSound c := by
  cases q with
  | now => exact hsound
  | log entry => exact hsound
  | store call =>
    cases call with
    | get k => exact hallows.elim
    | set k text ttl =>
      apply hsound.of_tagged
      intro u s hs
      change (m.attempt (m.set now k text ttl)).2.sets.get? (start ++ u) = some s at hs
      cases hset : m.set now k text ttl with
      | error f =>
        rw [hset] at hs
        exact hs
      | ok m' =>
        obtain ⟨ends, -, hm⟩ := sequence_eq_ok.mp hset
        rw [hset, ← pure_answers.mp hm] at hs
        exact hs
    | delete keys =>
      apply hsound.of_tagged
      intro u s hs
      change (m.delete keys).sets.get? (start ++ u) = some s at hs
      rw [Memory.get?_sets_delete] at hs
      split at hs
      · cases hs
      · exact hs
    | addToSet s keys ttl =>
      obtain ⟨u, k, t, rfl, rfl, hk, rfl, hfinite⟩ := hallows
      rcases view_addToSet hfinite hnow k u hsound with hlooked | ⟨ends, hends, hview⟩
      · rw [hlooked]
        exact sound_members hsound (start ++ u)
      · rw [hview]
        exact hsound.enter hk hends u
    | members name => exact sound_members hsound name

/-- A store whose sets of tags are sound answers what is promised. -/
theorem promised_call (hsound : (View.of start key m).IsSound c)
    (hallows : phase.Allows c start tagSet q) : Promised c ⟨q, (overMemory now q m).1⟩ := by
  cases q with
  | now => trivial
  | log entry => trivial
  | store call =>
    cases call with
    | members name =>
      obtain ⟨u, rfl⟩ := hallows
      refine ⟨_, rfl, fun k hk => ?_⟩
      rw [members_eq] at hk
      exact View.IsSound.isKey hsound hk
    | delete keys => rfl
    | _ => trivial

/-- A set that outlives the text under a key goes on doing so, or the text is removed, as long as
nobody who may ask something is about to remove the set without the key. -/
theorem shelters_call (hapart : Apart c) (hstart : c.tagPrefix = .text start)
    (hnow : now.place?.isSome) (hsound : (View.of start key m).IsSound c) (hq : ¬q.Puts key)
    (hallows : phase.Allows c start (start ++ tag) q) (hphase : phase ≠ .free)
    (h : (View.of start key m).Shelters now key tag) :
    (View.of start key (overMemory now q m).2).Gone now ∨
      (View.of start key (overMemory now q m).2).Shelters now key tag ∧
        phase.next key (start ++ tag) ⟨q, (overMemory now q m).1⟩ ≠ .free := by
  cases q with
  | now => exact .inr ⟨h, hphase⟩
  | log entry => exact .inr ⟨h, hphase⟩
  | store call =>
    cases call with
    | get k => exact hallows.elim
    | set k text ttl =>
      refine .inr ⟨?_, hphase⟩
      have hk : key ≠ k := fun hk => hq hk.symm
      change (View.of start key (m.attempt (m.set now k text ttl)).2).Shelters now key tag
      cases hset : m.set now k text ttl with
      | error f => exact h
      | ok m' =>
        obtain ⟨ends, -, hm⟩ := sequence_eq_ok.mp hset
        obtain rfl := pure_answers.mp hm
        exact h.of_same (Entries.get?_insert_of_ne _ hk _) rfl
    | delete keys =>
      have hentry : (View.of start key (m.delete keys)).entry =
          if key ∈ keys then none else m.values.get? key := Memory.get?_values_delete m keys key
      by_cases hmem : key ∈ keys
      · refine .inl fun e he => ?_
        change (View.of start key (m.delete keys)).entry = some e at he
        rw [hentry, if_pos hmem] at he
        cases he
      · rw [if_neg hmem] at hentry
        have hset : start ++ tag ∉ keys := by
          rcases hallows with hkeys | ⟨u, rfl, hfree⟩
          · exact fun hset => hapart.ne hstart (hkeys _ hset) tag rfl
          · exact fun hset => hphase (hfree (List.mem_singleton.mp hset).symm)
        refine .inr ⟨h.of_same hentry ?_, ?_⟩
        · change (m.delete keys).sets.get? (start ++ tag) = _
          rw [Memory.get?_sets_delete, if_neg hset]
          rfl
        · unfold Phase.next
          dsimp only
          rw [if_neg hset, if_neg fun hmem' => hmem hmem'.1]
          exact hphase
    | addToSet s keys ttl =>
      obtain ⟨u, k, t, rfl, rfl, hk, rfl, hfinite⟩ := hallows
      refine .inr ⟨?_, hphase⟩
      rcases view_addToSet hfinite hnow k u hsound with hlooked | ⟨ends, hends, hview⟩
      · rw [hlooked]
        exact shelters_members h (start ++ u)
      · rw [hview]
        exact h.enter hsound hends k u
    | members name =>
      have hshelters := shelters_members h name
      rcases h.gone_or_mem with hgone | hmember
      · exact .inl (gone_call hq hgone)
      · refine .inr ⟨hshelters, ?_⟩
        change (if name = start ++ tag then
          if key ∈ (m.members now name).1 then Phase.owing else .free else phase) ≠ .free
        by_cases hname : name = start ++ tag
        · have hmem : key ∈ membersAt now (m.sets.get? (start ++ tag)) := hmember
          rw [if_pos hname, members_eq, hname, if_pos hmem]
          nofun
        · rw [if_neg hname]
          exact hphase

/-- The end of what is under a key stays the same as long as nothing is put there. -/
theorem ends_events {ends : Number} (hanswered : Answered now m now' m' events)
    (hspares : ∀ x ∈ events, ¬x.said.1.Puts key)
    (h : ∀ e, m.values.get? key = some e → e.ends = some ends) :
    ∀ e, m'.values.get? key = some e → e.ends = some ends := by
  induction events generalizing now m with
  | nil =>
    obtain ⟨-, rfl⟩ := hanswered
    exact h
  | cons x events ih =>
    obtain ⟨i, t, q, answer⟩ := x
    obtain ⟨-, -, hrest⟩ := hanswered
    obtain ⟨hspare, hspares⟩ := List.forall_mem_cons.mp hspares
    apply ih hrest hspares
    intro e he
    rcases entry_call hspare m with hsame | hnone
    · exact h e (hsame.symm.trans he)
    · cases hnone.symm.trans he

variable [DecidableEq ι] {phases : ι → Phase} {x : Event ι}

/-- Questions stay in order while they are answered as promised. -/
theorem orderly_next (h : ∀ j, Orderly c start key tagSet (phases j) (own j (x :: events)))
    (hpromised : Promised c x.said) (j : ι) :
    Orderly c start key tagSet
      (Function.update phases x.caller ((phases x.caller).next key tagSet x.said) j)
      (own j events) := by
  have hj := h j
  by_cases hij : x.caller = j
  · subst hij
    rw [own_cons_self] at hj
    rw [Function.update_self]
    exact hj.2 hpromised
  · rw [own_cons_of_ne hij] at hj
    rw [Function.update_of_ne (Ne.symm hij)]
    exact hj

theorem allows_first (h : ∀ j, Orderly c start key tagSet (phases j) (own j (x :: events))) :
    (phases x.caller).Allows c start tagSet x.said.1 := by
  have hi := h x.caller
  rw [own_cons_self] at hi
  exact hi.1

/-- Events in order leave the sets of tags sound, and are answered as promised. -/
theorem sound_events (hnow : now.place?.isSome) (hanswered : Answered now m now' m' events)
    (hsound : (View.of start key m).IsSound c)
    (h : ∀ j, Orderly c start key tagSet (phases j) (own j events)) :
    (View.of start key m').IsSound c ∧ ∀ x ∈ events, Promised c x.said := by
  induction events generalizing now m phases with
  | nil =>
    obtain ⟨-, rfl⟩ := hanswered
    exact ⟨hsound, List.forall_mem_nil _⟩
  | cons x events ih =>
    obtain ⟨i, t, q, answer⟩ := x
    obtain ⟨hlater, hx, hrest⟩ := hanswered
    obtain rfl : answer = (overMemory t q m).1 := hx
    have ht := hlater.place hnow
    have hallows := allows_first h
    have hpromised : Promised c ⟨q, (overMemory t q m).1⟩ := promised_call hsound hallows
    obtain ⟨hend, hall⟩ := ih ht hrest (sound_call ht hsound hallows) (orderly_next h hpromised)
    exact ⟨hend, List.forall_mem_cons.mpr ⟨hpromised, hall⟩⟩

/-- Events in order keep a set that outlives the text under a key as it is, or remove the text. -/
theorem shelters_events (hapart : Apart c) (hstart : c.tagPrefix = .text start)
    (hnow : now.place?.isSome) (hanswered : Answered now m now' m' events)
    (hsound : (View.of start key m).IsSound c)
    (h : ∀ j, Orderly c start key (start ++ tag) (phases j) (own j events))
    (hspares : ∀ x ∈ events, ¬x.said.1.Puts key)
    (hshelters : (View.of start key m).Gone now ∨
      (View.of start key m).Shelters now key tag ∧ ∀ j, phases j ≠ .free) :
    (View.of start key m').Gone now' ∨ (View.of start key m').Shelters now' key tag := by
  induction events generalizing now m phases with
  | nil =>
    obtain ⟨rfl, rfl⟩ := hanswered
    exact hshelters.imp_right And.left
  | cons x events ih =>
    obtain ⟨i, t, q, answer⟩ := x
    obtain ⟨hlater, hx, hrest⟩ := hanswered
    obtain rfl : answer = (overMemory t q m).1 := hx
    obtain ⟨hspare, hspares⟩ := List.forall_mem_cons.mp hspares
    have ht := hlater.place hnow
    have hallows := allows_first h
    have hpromised : Promised c ⟨q, (overMemory t q m).1⟩ := promised_call hsound hallows
    apply ih ht hrest (sound_call ht hsound hallows) (orderly_next h hpromised) hspares
    rcases hshelters with hgone | ⟨hheld, hphases⟩
    · exact .inl (gone_call hspare (hgone.later hlater))
    · rcases shelters_call hapart hstart ht hsound hspare hallows (hphases i)
        (hheld.later hlater) with hgone | ⟨hheld, hphase⟩
      · exact .inl hgone
      · refine .inr ⟨hheld, fun j => ?_⟩
        by_cases hij : j = i
        · rw [hij, Function.update_self]
          exact hphase
        · rw [Function.update_of_ne hij]
          exact hphases j

/-- A key that is put into a set for as long as its text or longer is outlived by the set. -/
theorem shelters_added (hapart : Apart c) (hstart : c.tagPrefix = .text start) (hkey : IsKey c key)
    (hnow : now.place?.isSome) {length first : Number}
    (hx : x.said = ⟨.store (.addToSet (start ++ tag) [key] (some length)), .ok ()⟩)
    (hfirst : ∀ ends, x.time.add length = .ok ends → first.atMost ends = true)
    (hsound : (View.of start key m).IsSound c)
    (hentry : ∀ e, m.values.get? key = some e → e.ends = some first)
    (hanswered : Answered now m now' m' (x :: events))
    (h : ∀ j, Orderly c start key (start ++ tag) (phases j) (own j (x :: events)))
    (hphases : ∀ j, phases j ≠ .free) (hspares : ∀ x ∈ events, ¬x.said.1.Puts key) :
    (View.of start key m').Gone now' ∨ (View.of start key m').Shelters now' key tag := by
  obtain ⟨i, t, q, answer⟩ := x
  cases hx
  obtain ⟨hlater, hok, hrest⟩ := hanswered
  have ht := hlater.place hnow
  obtain ⟨_, _, _, _, _, _, hlength, hfinite⟩ := allows_first h
  obtain rfl := Option.some.inj hlength
  obtain ⟨ends, hends⟩ := added_ends hsound hok
  have hplace := Number.place_add ht hfinite hends
  obtain ⟨m₁, hadded, hview⟩ := addToSet_view start (Memory.endAfter_ok hends) key tag m
  have hstore :
      (overMemory t (.store (.addToSet (start ++ tag) [key] (some length))) m).2 = m₁ := by
    change (m.answer t (.addToSet (start ++ tag) [key] (some length))).2 = m₁
    rw [Memory.answer_addToSet_ok hadded]
  rw [hstore] at hrest
  have hshelters : (View.of start key m₁).Shelters t key tag := by
    rw [hview]
    exact View.shelters_enter hsound hplace fun e he => ⟨first, hentry e he, hfirst ends hends⟩
  have hsound₁ : (View.of start key m₁).IsSound c := by
    rw [hview]
    exact hsound.enter hkey hplace tag
  apply shelters_events hapart hstart ht hrest hsound₁ (orderly_next h trivial) hspares
  refine .inr ⟨hshelters, fun j => ?_⟩
  by_cases hj : j = i
  · rw [hj, Function.update_self]
    exact hphases i
  · rw [Function.update_of_ne hj]
    exact hphases j

theorem orderly_call (hapart : Apart c) (hstart : c.tagPrefix = .text start) {request : Request}
    (hproper : request.step.IsProper) {h : List (Exchange Question.Answer)} {r : Except Fault Bool}
    (htalk : Talks (request.call c) h r) : Orderly c start key (start ++ tag) .idle h := by
  cases request with
  | set target data ttl tags scope =>
    obtain ⟨hfinite, listed, hlisted⟩ := hproper
    exact orderly_of_files ((files_set hstart hfinite hlisted data).of_talks htalk)
  | invalidate tags =>
    rcases talks_bind.mp htalk with ⟨g, hinvalidate, -⟩ | ⟨h₁, h₂, _, rfl, hinvalidate, hdone⟩
    · exact orderly_invalidate hapart hstart rfl tags hinvalidate
    · obtain ⟨rfl, -⟩ := talks_pure.mp hdone
      rw [List.append_nil]
      exact orderly_invalidate hapart hstart rfl tags hinvalidate

/-- Questions stay in order through events that are answered as promised. -/
theorem orderly_after {before after : List (Event ι)}
    (h : ∀ j, Orderly c start key tagSet .idle (own j (before ++ after)))
    (hpromised : ∀ x ∈ before, Promised c x.said) (j : ι) :
    Orderly c start key tagSet (Phase.after key tagSet .idle (own j before)) (own j after) := by
  have hj := h j
  rw [own_append, orderly_append] at hj
  refine hj.2 fun e he => ?_
  obtain ⟨x, hx, -, rfl⟩ := mem_own.mp he
  exact hpromised x hx

/-- A text that is put under a key, and a key that is put into a set with nobody about to remove the
set: the set outlives the text. -/
theorem shelters_behind (hapart : Apart c) (hstart : c.tagPrefix = .text start)
    (hkey : IsKey c key) (hnow : now.place?.isSome) {first second last : List (Event ι)}
    {put add : Event ι} {text : String} {length : Number}
    (hanswered : Answered now m now' m' ((first ++ put :: second) ++ add :: last))
    (hsound : (View.of start key m).IsSound c)
    (horderly : ∀ j, Orderly c start key (start ++ tag) .idle
      (own j ((first ++ put :: second) ++ add :: last)))
    (hput : put.said = ⟨.store (.set key text (some length)), .ok ()⟩)
    (hadd : add.said = ⟨.store (.addToSet (start ++ tag) [key] (some length)), .ok ()⟩)
    (hlasts : ∀ a b, put.time.add length = .ok a → add.time.add length = .ok b →
      a.atMost b = true)
    (hphases : ∀ j, Phase.after key (start ++ tag) .idle (own j (first ++ put :: second)) ≠ .free)
    (hspares : ∀ x ∈ second ++ add :: last, ¬x.said.1.Puts key) :
    (View.of start key m').Gone now' ∨ (View.of start key m').Shelters now' key tag := by
  obtain ⟨hspares₁, hspares₂⟩ := List.forall_mem_append.mp hspares
  obtain ⟨-, hspares₃⟩ := List.forall_mem_cons.mp hspares₂
  obtain ⟨t₂, m₂, hbefore, hrest⟩ := answered_append hanswered
  obtain ⟨t₁, m₁, -, -, hok, hsecond⟩ := answered_append hbefore
  have hbegun (j : ι) :
      Orderly c start key (start ++ tag) .idle (own j (first ++ put :: second)) := by
    have hj := horderly j
    rw [own_append, orderly_append] at hj
    exact hj.1
  obtain ⟨hsound₂, hpromised⟩ := sound_events hnow hbefore hsound hbegun
  obtain ⟨i, t, q, answer⟩ := put
  cases hput
  obtain ⟨ends, hends, hentry⟩ := put_ends hok
  exact shelters_added hapart hstart hkey ((answered_later hbefore).place hnow) hadd
    (fun b hb => hlasts ends b hends hb) hsound₂ (ends_events hsecond hspares₁ hentry) hrest
    (orderly_after horderly hpromised) hphases hspares₃

theorem prefix_of_tagKey (h : tagKey c (.text tag) = .ok tagSet) :
    ∃ start, c.tagPrefix = .text start ∧ tagSet = start ++ tag := by
  by_cases htext : ∃ start, c.tagPrefix = .text start
  · obtain ⟨start, hstart⟩ := htext
    rw [tagKey_text hstart] at h
    exact ⟨start, hstart, (Except.ok.inj h).symm⟩
  · rw [tagKey_error htext] at h
    cases h

end

section

variable [DecidableEq ι] {c : Config} {s : State} {start key tag : String}

/-- What request `i` has done once the set of a tag has the key: the set outlives the text. -/
theorem Interleaving.shelters (hapart : Apart c) (hstart : c.tagPrefix = .text start)
    (run : Interleaving ι c s) (hsteady : run.Steady) (hnow : s.now.place?.isSome)
    (hsound : (View.of start key s.store).IsSound c)
    (hproper : ∀ i, (run.requests i).step.IsProper) {i : ι} {target : Target}
    {data ttl chosen : Value} {scope : String}
    (hset : run.requests i = .set target data ttl chosen scope) (hdone : run.results i = .ok true)
    (hkey : target.key c scope = .ok key) {listed : List String}
    (hlisted : tagsOf (chosenTags target chosen) = .ok (listed.map .text)) (htag : tag ∈ listed)
    (hovertaken : ¬run.Overtaken i key) (hcrossed : ¬run.Crossed i key (start ++ tag)) :
    (View.of start key run.last.store).Gone run.last.now ∨
      (View.of start key run.last.store).Shelters run.last.now key tag := by
  have horderly (j : ι) : Orderly c start key (start ++ tag) .idle (own j run.events) :=
    orderly_call hapart hstart (hproper j) (run.finished j)
  have htalk := run.finished i
  rw [hset, hdone] at htalk
  obtain ⟨text, length, h₁, h₂, hown, hentered⟩ := talks_set hkey hlisted htalk
  obtain ⟨tagSet, htagSet, hadded⟩ := hentered _ (List.mem_map_of_mem htag)
  obtain rfl : start ++ tag = tagSet := Except.ok.inj ((tagKey_text hstart tag).symm.trans htagSet)
  obtain ⟨first, put, rest, hevents, rfl, hput, -, rfl⟩ := split_own hown
  obtain ⟨add, hmem, hcaller, hadd⟩ := mem_own.mp hadded
  obtain ⟨second, last, rfl⟩ := List.append_of_mem hmem
  have hputs : put.said.1.Puts key := by
    rw [hput]
    rfl
  have hadds : add.said.1.Adds key (start ++ tag) := by
    rw [hadd]
    exact ⟨rfl, rfl⟩
  -- nothing else is put under the key behind the text, and nobody is about to remove the set
  have hspares : ∀ x ∈ second ++ add :: last, ¬x.said.1.Puts key :=
    fun x hx hputs' => hovertaken (Interleaving.overtaken_of_split hevents hputs hx hputs')
  obtain ⟨hspares₁, hspares₂⟩ := List.forall_mem_append.mp hspares
  obtain ⟨-, hspares₃⟩ := List.forall_mem_cons.mp hspares₂
  have hpairs : List.Pairwise _ (put :: (second ++ add :: last)) :=
    (List.pairwise_append.mp (Eq.subst hevents hsteady)).2.1
  have hadd' : add ∈ second ++ add :: last := List.mem_append_right second List.mem_cons_self
  have hlasts := (List.pairwise_cons.mp hpairs).1 add hadd' length
  rw [← List.cons_append, ← List.append_assoc] at hevents
  have hphases (j : ι) : Phase.after key (start ++ tag) .idle
      (own j (first ++ put :: second)) ≠ .free :=
    fun hphase => hcrossed (hcaller ▸ Interleaving.crossed_of_split hevents hadds hphase)
  have hanswered := run.answered
  rw [hevents] at hanswered horderly
  have hisKey : IsKey c key := ⟨target, scope, hkey⟩
  refine shelters_behind hapart hstart hisKey hnow hanswered hsound horderly hput hadd
    (fun a b => hlasts a b ?_ ?_) hphases hspares
  · rw [hput]
    rfl
  · rw [hadd]
    rfl

end

/-- Requests side by side, after any calls one after the other. What a request that succeeded put
under a key and a tag is, whenever it is found later, in the set of the tag, and is gone once the
tag is removed; unless another text was put under the key after it, or another request was about to
remove the set of the tag without the key when the key was put there. -/
theorem tagged_unless_crossed {ι : Type} [DecidableEq ι] {c : Config} (hapart : Apart c)
    {first : Number} (hfirst : first.place?.isSome) {steps : List Step}
    (hsteps : IsProperRun first steps)
    (run : Interleaving ι c (State.after c ⟨first, .empty⟩ steps)) (hsteady : run.Steady)
    (hproper : ∀ i, (run.requests i).step.IsProper) {i : ι} {target : Target}
    {data ttl chosen : Value} {scope : String}
    (hset : run.requests i = .set target data ttl chosen scope) (hdone : run.results i = .ok true)
    {key : String} (hkey : target.key c scope = .ok key) {listed : List String}
    (hlisted : tagsOf (chosenTags target chosen) = .ok (listed.map .text)) {tag : String}
    (htag : tag ∈ listed) {tagSet : String} (htagSet : tagKey c (.text tag) = .ok tagSet)
    {t : Number} (hlater : Later run.last.now t)
    (hfound : State.answer c ⟨t, run.last.store⟩ target scope ≠ .ok none) :
    run.Overtaken i key ∨ run.Crossed i key tagSet ∨
      key ∈ (run.last.store.members t tagSet).1 ∧
        (State.next c ⟨t, run.last.store⟩ (.invalidate [tag])).answer c target scope =
          .ok none := by
  by_cases hovertaken : run.Overtaken i key
  · exact .inl hovertaken
  by_cases hcrossed : run.Crossed i key tagSet
  · exact .inr (.inl hcrossed)
  refine .inr (.inr ?_)
  obtain ⟨start, hstart, rfl⟩ := prefix_of_tagKey htagSet
  have hisKey : IsKey c key := ⟨target, scope, hkey⟩
  have hnow := place_after (c := c) (s := ⟨first, .empty⟩) hfirst hsteps
  have hcovered := (covered_empty c start key first).after hapart hstart hisKey hfirst hsteps
  have hend := run.shelters hapart hstart hsteady hnow hcovered.sound hproper hset hdone hkey
    hlisted htag hovertaken hcrossed
  have horderly (j : ι) : Orderly c start key (start ++ tag) ((fun _ : ι => Phase.idle) j)
      (own j run.events) := orderly_call hapart hstart (hproper j) (run.finished j)
  obtain ⟨hsound, -⟩ := sound_events hnow run.answered hcovered.sound horderly
  rw [answer_view hkey] at hfound
  have hgone : ¬(View.of start key run.last.store).Gone t :=
    fun hgone => hfound (congrArg _ hgone.found)
  rcases hend with hearly | hshelters
  · exact (hgone (hearly.later hlater)).elim
  have hshelters := hshelters.later hlater
  constructor
  · rw [members_eq]
    exact hshelters.gone_or_mem.resolve_left hgone
  · have hview := does_invalidate hapart hstart hisKey [tag] t run.last.store hsound
    have hremoved := View.gone_dropping (List.mem_singleton_self tag) hshelters
    rw [answer_view hkey]
    exact congrArg _ (View.Gone.found (hview ▸ hremoved))

theorem answer_of_found {c : Config} {target : Target} {scope key : String} {s : State}
    (htarget : target.key c scope = .ok key) (h : (found? s.store s.now key).isSome) :
    s.answer c target scope ≠ .ok none := by
  rw [answer_view htarget]
  intro hnone
  rw [Except.ok.inj hnone] at h
  cases h

/-- An answer is cached under a tag while the tag is removed. -/
def cachedAndRemoved : Bool → Request
  | false => .set (.named "a") (.int 1) (.int 10) (.list [.text "t"]) ""
  | true => .invalidate ["t"]

/-- The set is removed between the text and the key. -/
def removedBetween : Interleaving Bool .default ⟨.int 0, .empty⟩ :=
  .ofTurns .default _ cachedAndRemoved
    [(true, .int 1), (false, .int 2), (false, .int 3), (true, .int 4), (false, .int 5)]
    (by decide +kernel)

theorem kept_if_removed_between :
    "query:a" ∈ (removedBetween.last.store.members (.int 8) "tag:t").1 ∧
      (State.next .default ⟨.int 8, removedBetween.last.store⟩ (.invalidate ["t"])).answer .default
        (.named "a") "" = .ok none := by
  have hproper (i : Bool) : (removedBetween.requests i).step.IsProper := by
    cases i with
    | false =>
      refine ⟨?_, ["t"], rfl⟩
      rintro t ⟨⟩
      exact ⟨_, rfl⟩
    | true => trivial
  have hsteady : removedBetween.Steady := Interleaving.steady_of_integers (by decide +kernel)
  have hkey : Target.key .default "" (.named "a") = .ok ("query:" ++ "a") := rfl
  have hfound : State.answer .default ⟨.int 8, removedBetween.last.store⟩ (.named "a") "" ≠
      .ok none :=
    answer_of_found hkey (by decide +kernel)
  have hdone : removedBetween.results false = .ok true := ok_of_toOption (by decide +kernel)
  have hsteps : IsProperRun (.int 0) [] := trivial
  have hlater : Later removedBetween.last.now (.int 8) := .inr (by decide +kernel)
  have hlisted : tagsOf (chosenTags (.named "a") (.list [.text "t"])) =
    .ok (["t"].map .text) := rfl
  have htagSet : tagKey .default (.text "t") = .ok "tag:t" := rfl
  have hfits := tagged_unless_crossed apart_default rfl hsteps removedBetween hsteady hproper rfl
    hdone hkey hlisted (List.mem_singleton_self "t") htagSet hlater hfound
  rcases hfits with ⟨n, n', x, y, hx, -, hputs, hbehind, hy, hputs'⟩ |
    ⟨n, x, j, hx, -, hadds, hphase⟩ | hkept
  · have honce : ∀ n < removedBetween.events.length, ∀ y ∈ removedBetween.events[n]?,
        y.said.1.Puts "query:a" → n = 2 := by
      decide +kernel
    have hn := honce n (List.getElem?_eq_some_iff.mp hx).1 _ hx hputs
    have hn' := honce n' (List.getElem?_eq_some_iff.mp hy).1 _ hy hputs'
    omega
  · have hfree : ∀ n < removedBetween.events.length, ∀ j, ∀ x ∈ removedBetween.events[n]?,
        x.said.1.Adds "query:a" "tag:t" → Phase.after "query:a" "tag:t" .idle
          (own j (removedBetween.events.take n)) ≠ .free := by
      decide +kernel
    have hn := (List.getElem?_eq_some_iff.mp hx).1
    exact (hfree n hn j _ hx hadds hphase).elim
  · exact hkept

/-- An answer is there but not in the set of its tag, and stays there when the tag is removed. -/
def Lost (s : State) : Prop :=
  s.answer .default (.named "a") "" ≠ .ok none ∧ "query:a" ∉ (s.store.members s.now "tag:t").1 ∧
    (s.next .default (.invalidate ["t"])).answer .default (.named "a") "" ≠ .ok none

/-- The set is removed behind the key, which was not in it when it was read. -/
def removedBehind : Interleaving Bool .default ⟨.int 0, .empty⟩ :=
  .ofTurns .default _ cachedAndRemoved
    [(true, .int 0), (false, .int 0), (false, .int 0), (false, .int 0), (true, .int 0)]
    (by decide +kernel)

/-- An answer is cached under a tag for a short time, and for a long one under none. -/
def cachedTwice : Bool → Request
  | false => .set (.named "a") (.int 1) (.int 1) (.list [.text "t"]) ""
  | true => .set (.named "a") (.int 2) (.int 100) (.list []) ""

/-- The text with the longer time is put behind the other one, which is over last. -/
def putBehind : Interleaving Bool .default ⟨.int 0, .empty⟩ :=
  .ofTurns .default _ cachedTwice
    [(false, .int 0), (false, .int 0), (true, .int 0), (true, .int 0), (false, .int 0)]
    (by decide +kernel)

/-- An answer is lost where the set is removed behind the key, and where the text that stays is not
that of the request that is over last. -/
theorem lost_if_crossed_or_overtaken :
    (removedBehind.requests = cachedAndRemoved ∧ (∀ i, removedBehind.results i = .ok true) ∧
      Lost removedBehind.last) ∧
    putBehind.requests = cachedTwice ∧ (∀ i, putBehind.results i = .ok true) ∧
      putBehind.events.getLast?.map (·.caller) = some false ∧
      Lost ⟨.int 50, putBehind.last.store⟩ := by
  have hkey : Target.key .default "" (.named "a") = .ok ("query:" ++ "a") := rfl
  constructor
  · refine ⟨rfl, fun i => ok_of_toOption ?_, answer_of_found hkey ?_, ?_, answer_of_found hkey ?_⟩
    · revert i
      decide +kernel
    · decide +kernel
    · decide +kernel
    · decide +kernel
  · refine ⟨rfl, fun i => ok_of_toOption ?_, ?_, answer_of_found hkey ?_, ?_,
      answer_of_found hkey ?_⟩
    · revert i
      decide +kernel
    · decide +kernel
    · decide +kernel
    · decide +kernel
    · decide +kernel

end RowGate.Cache
