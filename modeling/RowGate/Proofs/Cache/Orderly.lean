import RowGate.Proofs.Cache.Effects
import RowGate.Proofs.Script.Conversation
/-!
In which order calls of the cache ask a store for things. Main statements: caching puts the text
before it puts the key into sets; and what has one tag is removed before the set of the tag, unless
it was not in the set when that was read.
-/
namespace RowGate.Cache

open Asking

/-- What a call has done with a set and a key in it. -/
inductive Phase where
  /-- The set has not been read since it was last removed. -/
  | idle
  /-- The key was read in the set and has not been removed. -/
  | owing
  /-- The key was not in the set when that was read, or has been removed. -/
  | free
  deriving DecidableEq

/-- Questions about keys and sets of tags that may be asked in a phase: a set is removed only when
the key was not in it or is gone. -/
def Phase.Allows (c : Config) (start tagSet : String) (phase : Phase) : Question → Prop
  | .store (.get _) => False
  | .store (.members s) => ∃ tag, s = start ++ tag
  | .store (.addToSet s keys ttl) =>
    ∃ tag key t, s = start ++ tag ∧ keys = [key] ∧ IsKey c key ∧ ttl = some t ∧ t.IsFinite
  | .store (.delete keys) =>
    (∀ key ∈ keys, IsKey c key) ∨
      ∃ tag, keys = [start ++ tag] ∧ (start ++ tag = tagSet → phase = free)
  | _ => True

/-- The phase after a question and its answer. -/
def Phase.next (key tagSet : String) (phase : Phase) : Exchange Question.Answer → Phase
  | ⟨.store (.members s), .ok keys⟩ =>
    if s = tagSet then if key ∈ keys then owing else free else phase
  | ⟨.store (.delete keys), _⟩ =>
    if tagSet ∈ keys then idle else if key ∈ keys ∧ phase = owing then free else phase
  | _ => phase

/-- The phase after a conversation. -/
def Phase.after (key tagSet : String) (phase : Phase) (h : List (Exchange Question.Answer)) :
    Phase :=
  h.foldl (Phase.next key tagSet) phase

/-- Answers of a store that does not fail and whose sets hold keys. -/
def Promised (c : Config) : Exchange Question.Answer → Prop
  | ⟨.store (.members _), answer⟩ => ∃ keys, answer = .ok keys ∧ ∀ key ∈ keys, IsKey c key
  | ⟨.store (.delete _), answer⟩ => answer = .ok ()
  | _ => True

/-- Questions are asked in order as long as the answers are as promised. -/
def Orderly (c : Config) (start key tagSet : String) :
    Phase → List (Exchange Question.Answer) → Prop
  | _, [] => True
  | phase, x :: h =>
    phase.Allows c start tagSet x.1 ∧
      (Promised c x → Orderly c start key tagSet (phase.next key tagSet x) h)

section

variable {c : Config} {start key tagSet : String} {phase : Phase}
  {h : List (Exchange Question.Answer)}

theorem orderly_append {h' : List (Exchange Question.Answer)} :
    Orderly c start key tagSet phase (h ++ h') ↔ Orderly c start key tagSet phase h ∧
      ((∀ x ∈ h, Promised c x) → Orderly c start key tagSet (phase.after key tagSet h) h') := by
  induction h generalizing phase with
  | nil => simp [Orderly, Phase.after]
  | cons x h ih =>
    simp only [List.cons_append, Orderly, ih, List.forall_mem_cons]
    constructor
    · rintro ⟨hx, hrest⟩
      exact ⟨⟨hx, fun hpromised => (hrest hpromised).1⟩,
        fun hpromised => (hrest hpromised.1).2 hpromised.2⟩
    · rintro ⟨⟨hx, hfirst⟩, hsecond⟩
      exact ⟨hx, fun hpromised => ⟨hfirst hpromised, fun h => hsecond ⟨hpromised, h⟩⟩⟩

/-- Questions that put texts under keys, and keys into sets of tags. -/
def Question.Files (c : Config) (start : String) : Question → Prop
  | .store (.set ..) | .now | .log _ => True
  | .store (.addToSet s keys ttl) =>
    ∃ tag key t, s = start ++ tag ∧ keys = [key] ∧ IsKey c key ∧ ttl = some t ∧ t.IsFinite
  | _ => False

/-- Filing is in order in any phase. -/
theorem orderly_of_files (hfiles : ∀ x ∈ h, x.1.Files c start) :
    Orderly c start key tagSet phase h := by
  induction h generalizing phase with
  | nil => trivial
  | cons x h ih =>
    obtain ⟨hx, hrest⟩ := List.forall_mem_cons.mp hfiles
    refine ⟨?_, fun _ => ih hrest⟩
    obtain ⟨q, a⟩ := x
    cases q with
    | store call =>
      cases call with
      | set => trivial
      | addToSet => exact hx
      | _ => exact hx.elim
    | _ => trivial

theorem files_enterAll (hstart : c.tagPrefix = .text start) (hkey : IsKey c key) {ttl : Number}
    (hfinite : ttl.IsFinite) (tags : List String) :
    AsksOnly (Question.Files c start) (enterAll c key ttl (tags.map .text)) := by
  induction tags with
  | nil => exact asksOnly_pure ()
  | cons tag tags ih =>
    rw [List.map_cons, enterAll, tagKey_text hstart]
    refine asksOnly_bind_lift fun s hs => ?_
    cases hs
    have hadd : Question.Files c start (.store (.addToSet (start ++ tag) [key] (some ttl))) :=
      ⟨tag, key, ttl, rfl, rfl, hkey, rfl, hfinite⟩
    exact asksOnly_bind ⟨hadd, fun _ => trivial⟩ fun _ => ih

/-- Caching only files. -/
theorem files_set (hstart : c.tagPrefix = .text start) {target : Target} {ttl chosen : Value}
    {scope : String} (hfinite : ∀ t, lifetime (chosenTtl target ttl) = .ok (some t) → t.IsFinite)
    {tags : List String} (htags : tagsOf (chosenTags target chosen) = .ok (tags.map .text))
    (data : Value) :
    AsksOnly (Question.Files c start) (set c target data ttl chosen scope) := by
  rw [set_planned]
  refine asksOnly_bind_lift fun found hfound => ?_
  rcases found with - | ⟨k, t⟩
  · exact asksOnly_pure false
  · obtain ⟨hlifetime, hkey⟩ := planned_ok hfound
    have hwrite :
        AsksOnly (Question.Files c start) (write c k data t (chosenTags target chosen)) := by
      refine asksOnly_bind ⟨trivial, fun _ => trivial⟩ fun time => ?_
      refine asksOnly_bind (asksOnly_lift _) fun ends => ?_
      refine asksOnly_bind (asksOnly_lift _) fun text => ?_
      refine asksOnly_bind ⟨trivial, fun _ => trivial⟩ fun _ => asksOnly_bind_lift fun ts hts => ?_
      cases htags.symm.trans hts
      have henter := files_enterAll hstart ⟨target, scope, hkey⟩ (hfinite t hlifetime) tags
      exact asksOnly_bind henter fun _ => asksOnly_pure true
    refine asksOnly_bind (asksOnly_outcome hwrite) fun y => ?_
    cases y with
    | ok a => exact asksOnly_pure a
    | error g => exact asksOnly_bind ⟨trivial, fun _ => trivial⟩ fun _ => asksOnly_pure false

theorem talks_enterAll {ttl : Number} {tags : List Value}
    (htalk : Talks (enterAll c key ttl tags) h (.ok ())) {tag : Value} (htag : tag ∈ tags) :
    ∃ s, tagKey c tag = .ok s ∧ ⟨.store (.addToSet s [key] (some ttl)), .ok ()⟩ ∈ h := by
  induction tags generalizing h with
  | nil => cases htag
  | cons u tags ih =>
    obtain ⟨h₁, h₂, s, rfl, hlift, hrest⟩ := talks_bind_ok htalk
    obtain ⟨rfl, hs⟩ := talks_lift.mp hlift
    obtain ⟨h₃, h₄, _, rfl, henter, hlater⟩ := talks_bind_ok hrest
    obtain rfl := Script.talks_once.mp henter
    rcases List.mem_cons.mp htag with rfl | htag
    · exact ⟨s, hs, by simp⟩
    · obtain ⟨s', hs', hmem⟩ := ih hlater htag
      exact ⟨s', hs', by simp [hmem]⟩

/-- Successful caching puts a text under the key of the target, and then the key into the sets of
all tags, for the same time. -/
theorem talks_set {target : Target} {data ttl chosen : Value} {scope : String}
    (hkey : target.key c scope = .ok key) {tags : List Value}
    (htags : tagsOf (chosenTags target chosen) = .ok tags)
    (htalk : Talks (set c target data ttl chosen scope) h (.ok true)) :
    ∃ text t h₁ h₂, h = h₁ ++ ⟨.store (.set key text (some t)), .ok ()⟩ :: h₂ ∧
      ∀ tag ∈ tags, ∃ s, tagKey c tag = .ok s ∧
        ⟨.store (.addToSet s [key] (some t)), .ok ()⟩ ∈ h₂ := by
  rw [set_planned] at htalk
  obtain ⟨h₁, h₂, found, rfl, hlift, hplanned⟩ := talks_bind_ok htalk
  obtain ⟨rfl, hfound⟩ := talks_lift.mp hlift
  rcases found with - | ⟨k, t⟩
  · cases hplanned.2
  · obtain ⟨-, hk⟩ := planned_ok hfound
    obtain rfl := Except.ok.inj (hkey.symm.trans hk)
    obtain ⟨h₃, h₄, y, rfl, houtcome, hattempted⟩ := talks_bind_ok hplanned
    obtain ⟨z, hwrite, hz⟩ := talks_outcome.mp houtcome
    obtain rfl := Except.ok.inj hz
    cases y with
    | error g =>
      obtain ⟨_, _, _, -, -, hlogged⟩ := talks_bind_ok hattempted
      cases hlogged.2
    | ok done =>
      obtain ⟨rfl, hdone⟩ := talks_pure.mp hattempted
      cases hdone
      obtain ⟨h₅, h₆, time, rfl, -, hafter⟩ := talks_bind_ok hwrite
      obtain ⟨h₇, h₈, ends, rfl, -, hafter⟩ := talks_bind_ok hafter
      obtain ⟨h₉, h₁₀, text, rfl, -, hafter⟩ := talks_bind_ok hafter
      obtain ⟨h₁₁, h₁₂, _, rfl, hput, hafter⟩ := talks_bind_ok hafter
      obtain ⟨h₁₃, h₁₄, listed, rfl, hlisted, hafter⟩ := talks_bind_ok hafter
      obtain ⟨h₁₅, h₁₆, _, rfl, henter, -⟩ := talks_bind_ok hafter
      obtain rfl := Script.talks_once.mp hput
      obtain ⟨-, hlisted⟩ := talks_lift.mp hlisted
      cases htags.symm.trans hlisted
      refine ⟨text, t, h₅ ++ h₇ ++ h₉, h₁₃ ++ (h₁₅ ++ h₁₆), by simp, fun tag htag => ?_⟩
      obtain ⟨s, hs, hmem⟩ := talks_enterAll henter htag
      exact ⟨s, hs, by simp [hmem]⟩

/-- The phase in which a set is removed. -/
def Phase.last (tagSet s : String) : Phase := if s = tagSet then free else idle

theorem allows_last (start tagSet u : String) :
    (Phase.last tagSet (start ++ u)).Allows c start tagSet (.store (.delete [start ++ u])) :=
  .inr ⟨u, rfl, fun h => if_pos h⟩

theorem next_last (key tagSet s : String) (r : Except Fault Unit) :
    (Phase.last tagSet s).next key tagSet ⟨.store (.delete [s]), r⟩ = .idle := by
  unfold Phase.last Phase.next
  dsimp only
  by_cases hs : s = tagSet
  · rw [if_pos (List.mem_singleton.mpr hs.symm)]
  · rw [if_neg hs, if_neg fun h => hs (List.mem_singleton.mp h).symm, ite_eq_right_iff]
    rintro ⟨-, hidle⟩
    cases hidle

/-- A set is removed behind the keys that were in it. -/
theorem next_removed {keys : List String} (hkeys : tagSet ∉ keys) (s : String)
    (answer : Except Fault Unit) :
    (Phase.next key tagSet .idle ⟨.store (.members s), .ok keys⟩).next key tagSet
      ⟨.store (.delete (Text.sorted keys)), answer⟩ = Phase.last tagSet s := by
  have hmem {k : String} : k ∈ Text.sorted keys ↔ k ∈ keys := List.mem_mergeSort
  unfold Phase.last Phase.next
  dsimp only
  rw [if_neg (hmem.not.mpr hkeys)]
  by_cases hs : s = tagSet
  · by_cases hkey : key ∈ keys
    · simp [hs, hkey, hmem]
    · simp [hs, hkey]
  · simp [hs]

/-- Removing what is in a set, and then the set, is in order; behind it the set has to be read
again. -/
theorem orderly_clear (hapart : Apart c) (hstart : c.tagPrefix = .text start) {tag : String}
    (htag : tagSet = start ++ tag) (u : String) {r : Except Fault Unit}
    (htalk : Talks (clear (start ++ u)) h r) :
    Orderly c start key tagSet .idle h ∧
      ((∀ x ∈ h, Promised c x) → r = .ok () ∧ Phase.after key tagSet .idle h = .idle) := by
  unfold clear at htalk
  rcases talks_bind.mp htalk with ⟨g, hread, rfl⟩ | ⟨h₁, h₂, keys, rfl, hread, hrest⟩
  · obtain rfl := Script.talks_once.mp hread
    refine ⟨⟨⟨u, rfl⟩, fun _ => trivial⟩, fun hpromised => ?_⟩
    obtain ⟨keys, hkeys, -⟩ := hpromised _ (List.mem_singleton_self _)
    cases hkeys
  · obtain rfl := Script.talks_once.mp hread
    have hkeys (hpromised : Promised c ⟨.store (.members (start ++ u)), .ok keys⟩) :
        tagSet ∉ keys := by
      obtain ⟨_, ⟨⟩, hkeys⟩ := hpromised
      exact fun hmem => hapart.ne hstart (hkeys tagSet hmem) tag htag.symm
    by_cases hempty : keys = []
    · subst hempty
      obtain rfl := Script.talks_once.mp hrest
      have hlast := allows_last (c := c) start tagSet u
      refine ⟨⟨⟨u, rfl⟩, fun _ => ⟨hlast, fun _ => trivial⟩⟩, fun hpromised => ⟨?_, ?_⟩⟩
      · exact hpromised _ (List.mem_cons_of_mem _ (List.mem_singleton_self _))
      · exact next_last key tagSet (start ++ u) r
    · have hsome : (!keys.isEmpty) = true := by simp [hempty]
      rw [if_pos hsome] at hrest
      have hallowed (phase : Phase)
          (hpromised : Promised c ⟨.store (.members (start ++ u)), .ok keys⟩) :
          phase.Allows c start tagSet (.store (.delete (Text.sorted keys))) := by
        obtain ⟨_, ⟨⟩, hkeys⟩ := hpromised
        exact .inl fun k hk => hkeys k (List.mem_mergeSort.mp hk)
      rcases talks_bind.mp hrest with ⟨g, hremove, rfl⟩ | ⟨h₃, h₄, _, rfl, hremove, hlast⟩
      · obtain rfl := Script.talks_once.mp hremove
        refine ⟨⟨⟨u, rfl⟩, fun hpromised => ⟨hallowed _ hpromised, fun _ => trivial⟩⟩,
          fun hpromised => ?_⟩
        cases hpromised _ (List.mem_cons_of_mem _ (List.mem_singleton_self _))
      · obtain rfl := Script.talks_once.mp hremove
        obtain rfl := Script.talks_once.mp hlast
        have hphase (hpromised : Promised c ⟨.store (.members (start ++ u)), .ok keys⟩) :
            (Phase.next key tagSet .idle ⟨.store (.members (start ++ u)), .ok keys⟩).next key tagSet
              ⟨.store (.delete (Text.sorted keys)), .ok ()⟩ = Phase.last tagSet (start ++ u) :=
          next_removed (hkeys hpromised) (start ++ u) (.ok ())
        refine ⟨⟨⟨u, rfl⟩, fun hpromised => ⟨hallowed _ hpromised, fun _ => ?_⟩⟩,
          fun hpromised => ?_⟩
        · rw [hphase hpromised]
          exact ⟨allows_last start tagSet u, fun _ => trivial⟩
        · rw [List.singleton_append, List.singleton_append, List.forall_mem_cons,
            List.forall_mem_cons] at hpromised
          obtain ⟨hread, -, hremoved⟩ := hpromised
          refine ⟨hremoved _ (List.mem_singleton_self _), ?_⟩
          unfold Phase.after
          rw [List.singleton_append, List.singleton_append, List.foldl_cons, List.foldl_cons,
            List.foldl_cons, hphase hread, next_last]
          rfl

/-- So is a round of removing by tag. -/
theorem orderly_round (hapart : Apart c) (hstart : c.tagPrefix = .text start) {tag : String}
    (htag : tagSet = start ++ tag) (u : String) {message : String} {r : Except Fault Unit}
    (htalk : Talks (attempt (clear (start ++ u)) message ()) h r) :
    Orderly c start key tagSet .idle h ∧
      ((∀ x ∈ h, Promised c x) → Phase.after key tagSet .idle h = .idle) := by
  rcases talks_bind.mp htalk with ⟨g, houtcome, -⟩ | ⟨h₁, h₂, y, rfl, houtcome, hrest⟩
  · obtain ⟨_, -, hg⟩ := talks_outcome.mp houtcome
    cases hg
  · obtain ⟨z, hclear, hz⟩ := talks_outcome.mp houtcome
    obtain rfl := Except.ok.inj hz
    obtain ⟨horderly, hend⟩ : Orderly c start key tagSet .idle h₁ ∧ ((∀ x ∈ h₁, Promised c x) →
        y = .ok () ∧ Phase.after key tagSet .idle h₁ = .idle) :=
      orderly_clear hapart hstart htag u hclear
    rw [orderly_append]
    cases y with
    | ok a =>
      obtain ⟨rfl, -⟩ := talks_pure.mp hrest
      rw [List.append_nil]
      exact ⟨⟨horderly, fun _ => trivial⟩, fun hpromised => (hend hpromised).2⟩
    | error g =>
      -- a store that does not fail lets no round fail
      have hnone (hpromised : ∀ x ∈ h₁, Promised c x) : False := by
        cases (hend hpromised).1
      refine ⟨⟨horderly, fun hpromised => (hnone hpromised).elim⟩, fun hpromised => ?_⟩
      exact (hnone fun x hx => hpromised x (List.mem_append_left h₂ hx)).elim

/-- Removing by tag is in order. -/
theorem orderly_invalidate (hapart : Apart c) (hstart : c.tagPrefix = .text start) {tag : String}
    (htag : tagSet = start ++ tag) (tags : List String) {r : Except Fault Unit}
    (htalk : Talks (invalidate c (tags.map .text)) h r) :
    Orderly c start key tagSet .idle h := by
  induction tags generalizing h with
  | nil =>
    obtain ⟨rfl, -⟩ := talks_pure.mp htalk
    trivial
  | cons u tags ih =>
    rw [List.map_cons, invalidate, tagKey_text hstart] at htalk
    rcases talks_bind.mp htalk with ⟨g, hlift, -⟩ | ⟨h₁, h₂, s, rfl, hlift, hrest⟩
    · cases (talks_lift.mp hlift).2
    obtain ⟨rfl, hs⟩ := talks_lift.mp hlift
    obtain rfl := Except.ok.inj hs
    rcases talks_bind.mp hrest with ⟨g, hround, -⟩ | ⟨h₃, h₄, _, rfl, hround, hlater⟩
    · exact (orderly_round hapart hstart htag u hround).1
    · obtain ⟨hfirst, hend⟩ : Orderly c start key tagSet .idle h₃ ∧ ((∀ x ∈ h₃, Promised c x) →
          Phase.after key tagSet .idle h₃ = .idle) := orderly_round hapart hstart htag u hround
      rw [List.nil_append, orderly_append]
      refine ⟨hfirst, fun hpromised => ?_⟩
      rw [hend hpromised]
      exact ih hlater

end

end RowGate.Cache
