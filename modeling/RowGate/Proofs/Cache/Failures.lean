import RowGate.Proofs.Cache.History
/-!
Caching over a store that may fail at any call. Main statement: a call that answers success has put
the data and entered its key in the set of every tag, and one that does not may have put the data all
the same: what fails behind the put leaves it there, to be found until its end, and in no other sets
than those that were reached.
-/
namespace RowGate.Cache

open Asking
open KeyValue (Memory Expiring)
open KeyValue.Memory (unended extended)

/-- Surroundings with a store in memory that fails at some of its calls, which are counted. A call
that fails leaves the store as it was. -/
def overFailing (now : Number) (fails : Nat → Option Fault) :
    Surroundings Question Question.Answer (Nat × Memory)
  | .store call, (n, m) =>
    match fails n with
    | some f => (call.fail f, n + 1, m)
    | none => ((m.answer now call).1, n + 1, (m.answer now call).2)
  | .now, s => (now, s)
  | .log _, s => ((), s)

/-- How a store differs from an earlier one after data was put under a key, and the key into the
sets of some tags. -/
structure Filed (start key : String) (data : Value) (now ends : Number) (tags : List String)
    (m m' : Memory) : Prop where
  /-- The data is found until the end comes. An end that is a decimal cannot be read. -/
  found : ∀ t, found? m' t key = if ends.isDecimal || ends.atMost t then none else decoded? data
  others : ∀ other, other ≠ key → m'.values.get? other = m.values.get? other
  /-- The sets hold the key until the end comes. An end that is no number comes never, but the sets
  may end before. -/
  tagged : ∀ tag ∈ tags, ∀ t, ends.place?.isSome ∨ t = now → ends.atMost t = false →
    key ∈ (m'.members t (start ++ tag)).1
  untagged : ∀ tag ∉ tags, m'.sets.get? (start ++ tag) = m.sets.get? (start ++ tag)

/-- Entering the sets of tags stops behind some of them: the tags are no list, or the next one is no
text, or the store fails at it. The first of the calls for tags has the number 1. -/
def StopsBehind (fails : Nat → Option Fault) (listed : Except Fault (List Value))
    (entered : List String) : Prop :=
  (∃ f, listed = .error f) ∧ entered = [] ∨
    ∃ tag rest, listed = .ok (entered.map .text ++ tag :: rest) ∧
      ∀ s, tag = .text s → (fails (1 + entered.length)).isSome

/-- The key under which data for a target is to be put, and the end that it is to have. -/
structure IsDue (c : Config) (now : Number) (target : Target) (ttl : Value) (scope key : String)
    (ends : Number) : Prop where
  key : target.key c scope = .ok key
  ends : ∃ t, lifetime (chosenTtl target ttl) = .ok (some t) ∧ now.add t = .ok ends

section

variable {c : Config} {start key text : String} {now ends t : Number} {data : Value}
  {tags : List String} {fails : Nat → Option Fault} {m m' : Memory}

/-- A set with further members lasts at least until the end that comes with them. -/
theorem extended_lasts (names : List String) (s : Option (Expiring (List String)))
    (hplace : ends.place?.isSome ∨ t = now) (hends : ends.atMost t = false) :
    (extended now names (some ends) s).isOver t = false := by
  unfold extended
  cases hheld : unended now s with
  | none => exact hends
  | some e =>
    have hover : e.isOver now = false := (Memory.unended_eq_some.mp hheld).2
    obtain ⟨content, - | a⟩ := e
    · rfl
    · change (if a.less ends then ends else a).atMost t = false
      cases hless : a.less ends with
      | true => exact hends
      | false =>
        -- the end that the set has is kept: it has not come now, and comes no sooner than the other
        change a.atMost t = false
        by_contra hcome
        have hcome := Bool.not_eq_false _ |>.mp hcome
        rcases hplace with hplace | rfl
        · obtain ⟨p, -, hp, -⟩ := Number.atMost_iff.mp hcome
          have ha : a.place?.isSome := by rw [hp]; rfl
          have hfirst := Number.atMost_of_not_less ha hplace hless
          rw [Number.atMost_trans hfirst hcome] at hends
          cases hends
        · exact Bool.false_ne_true (hover.symm.trans hcome)

namespace View

theorem enterAll_untagged {tag : String} (h : tag ∉ tags) (v : View) :
    (tags.foldl (enter now key ends) v).tagged tag = v.tagged tag :=
  tagged_foldl (fun _ _ hu => if_neg hu) h v

theorem enterAll_tagged (now : Number) (key : String) (ends : Number) {tag : String}
    (h : tag ∈ tags) (v : View) :
    ∃ s, (tags.foldl (enter now key ends) v).tagged tag =
      some (extended now [key] (some ends) s) := by
  induction tags generalizing v with
  | nil => cases h
  | cons u tags ih =>
    by_cases hmem : tag ∈ tags
    · exact ih hmem _
    · obtain rfl := (List.mem_cons.mp h).resolve_right hmem
      exact ⟨v.tagged tag, (enterAll_untagged hmem _).trans (if_pos rfl)⟩

end View

theorem filed_of_view (hproper : data.isProper = true) (htext : enclose ends data = .ok text)
    (hview : ∀ other, View.of start other m' =
      (View.of start other m).after now other (.filing key text ends tags)) :
    Filed start key data now ends tags m m' where
  found t := by
    obtain ⟨i, -, hi, -, -⟩ := enclose_eq_ok.mp htext
    have hread := dataAt_enclose hproper htext t
    rw [isReadBack_of_form hi, ← decoded?_eq hproper] at hread
    rw [found?_eq start, hview, View.after, View.enterAll_entry, if_pos rfl]
    refine hread.trans ?_
    cases ends.isDecimal <;> cases ends.atMost t <;> rfl
  others other hother := by
    have hentry := congrArg View.entry (hview other)
    rwa [View.after, View.enterAll_entry, if_neg (Ne.symm hother)] at hentry
  tagged tag htag t hplace hends := by
    have hset := congrArg (View.tagged · tag) (hview key)
    obtain ⟨s, hs⟩ := View.enterAll_tagged now key ends htag
      { View.of start key m with entry := some ⟨text, some ends⟩ }
    rw [View.after, if_pos rfl, hs] at hset
    rw [members_eq]
    exact mem_membersAt.mpr ⟨_, hset, extended_lasts [key] s hplace hends,
      View.extended_content.mpr (.inr (List.mem_singleton_self key))⟩
  untagged tag htag := by
    have hset := congrArg (View.tagged · tag) (hview key)
    rw [View.after, if_pos rfl, View.enterAll_untagged htag] at hset
    exact hset

theorem overFailing_fails {n : Nat} {f : Fault} (h : fails n = some f) (call : KeyValue.Call)
    (m : Memory) : overFailing now fails (.store call) (n, m) = (call.fail f, n + 1, m) := by
  simp only [overFailing, h]

theorem overFailing_answers {n : Nat} (h : fails n = none) {call : KeyValue.Call}
    {answer : call.Answer} (hanswer : m.answer now call = (answer, m')) :
    overFailing now fails (.store call) (n, m) = (answer, n + 1, m') := by
  simp only [overFailing, h, hanswer]

/-- A key is entered for a tag, unless the store fails. -/
theorem runIn_enter_failing (fails : Nat → Option Fault) {ttl : Number}
    (hsum : now.add ttl = .ok ends) (start key tag : String) (n : Nat) (m : Memory) :
    (∃ f, fails n = some f ∧ (enter (start ++ tag) key ttl).runIn (overFailing now fails) (n, m) =
        (.error f, n + 1, m)) ∨
      ∃ m', (enter (start ++ tag) key ttl).runIn (overFailing now fails) (n, m) =
          (.ok (), n + 1, m') ∧
        ∀ other, View.of start other m' = (View.of start other m).enter now key ends tag := by
  cases hfails : fails n with
  | some f => exact .inl ⟨f, rfl, overFailing_fails hfails (.addToSet ..) m⟩
  | none =>
    obtain ⟨m', hadd, hview⟩ := addToSet_view start (endAfter_add hsum) key tag m
    exact .inr ⟨m', overFailing_answers hfails (Memory.answer_addToSet_ok hadd), hview⟩

/-- Entering stops at the first tag that is no text or at which the store fails; those before it have
the key in their sets, and no other set is changed. -/
theorem runIn_enterAll_failing (fails : Nat → Option Fault) (hstart : c.tagPrefix = .text start)
    {ttl : Number} (hsum : now.add ttl = .ok ends) (key : String) (listed : List Value) (n : Nat)
    (m : Memory) :
    ∃ (y : Except Fault Unit) (entered : List String) (n' : Nat) (m' : Memory),
      (enterAll c key ttl listed).runIn (overFailing now fails) (n, m) = (y, n', m') ∧
      (∀ other, View.of start other m' =
        entered.foldl (View.enter now key ends) (View.of start other m)) ∧
      (y = .ok () ∧ listed = entered.map .text ∨
        ∃ f tag rest, y = .error f ∧ listed = entered.map .text ++ tag :: rest ∧
          ∀ s, tag = .text s → (fails (n + entered.length)).isSome) := by
  induction listed generalizing n m with
  | nil => exact ⟨.ok (), [], n, m, rfl, fun _ => rfl, .inl ⟨rfl, rfl⟩⟩
  | cons tag listed ih =>
    by_cases htext : ∃ s, tag = .text s
    · obtain ⟨s, rfl⟩ := htext
      rw [enterAll, tagKey_text hstart, runIn_bind_lift]
      simp only [runThen]
      rcases runIn_enter_failing fails hsum start key s n m with
        ⟨f, hfails, henter⟩ | ⟨m₁, henter, hview⟩
      · refine ⟨.error f, [], n + 1, m, runIn_bind_error henter, fun _ => rfl,
          .inr ⟨f, .text s, listed, rfl, rfl, fun _ _ => ?_⟩⟩
        rw [List.length_nil, Nat.add_zero, hfails]
        rfl
      · obtain ⟨y, entered, n', m', hrun, hrest, hstops⟩ := ih (n + 1) m₁
        refine ⟨y, s :: entered, n', m', (runIn_bind_ok henter).trans hrun, fun other => ?_, ?_⟩
        · rw [hrest, hview]
          rfl
        · rcases hstops with ⟨hy, rfl⟩ | ⟨f, tag, rest, hy, rfl, hfails⟩
          · exact .inl ⟨hy, rfl⟩
          · refine .inr ⟨f, tag, rest, hy, rfl, fun u hu => ?_⟩
            rw [List.length_cons, Nat.add_comm entered.length, ← Nat.add_assoc]
            exact hfails u hu
    · have hkey : tagKey c tag = .error .wrongType := by
        cases tag with
        | text s => exact absurd ⟨s, rfl⟩ htext
        | _ => rfl
      refine ⟨.error .wrongType, [], n, m, ?_, fun _ => rfl,
        .inr ⟨.wrongType, tag, listed, rfl, rfl, fun s hs => absurd ⟨s, hs⟩ htext⟩⟩
      rw [enterAll, hkey, runIn_bind_lift]
      rfl

/-- Filing fails at the put, and leaves the store, or it puts the text and enters tags, all of them
or as far as it comes. -/
theorem runIn_file_failing (fails : Nat → Option Fault) (hstart : c.tagPrefix = .text start)
    {ttl : Number} (hsum : now.add ttl = .ok ends) (key text : String) (chosen : Value) (m : Memory) :
    (∃ f, fails 0 = some f ∧
        (file c key text ttl chosen).runIn (overFailing now fails) (0, m) = (.error f, 1, m)) ∨
      fails 0 = none ∧ ∃ (y : Except Fault Bool) (entered : List String) (n' : Nat) (m' : Memory),
        (file c key text ttl chosen).runIn (overFailing now fails) (0, m) = (y, n', m') ∧
        (∀ other, View.of start other m' =
          (View.of start other m).after now other (.filing key text ends entered)) ∧
        (y = .ok true ∧ tagsOf chosen = .ok (entered.map .text) ∨
          ∃ f, y = .error f ∧ StopsBehind fails (tagsOf chosen) entered) := by
  cases hfails : fails 0 with
  | some f =>
    have hput : (put key text ttl).runIn (overFailing now fails) (0, m) = (.error f, 1, m) :=
      overFailing_fails hfails (.set ..) m
    exact .inl ⟨f, rfl, runIn_bind_error hput⟩
  | none =>
    refine .inr ⟨rfl, ?_⟩
    have hanswer : m.answer now (.set key text (some ttl)) =
        (.ok (), { m with values := m.values.insert key ⟨text, some ends⟩ }) := by
      change m.attempt (m.set now key text (some ttl)) = _
      rw [put_text hsum]
      rfl
    have hput : (put key text ttl).runIn (overFailing now fails) (0, m) =
        (.ok (), 1, { m with values := m.values.insert key ⟨text, some ends⟩ }) :=
      overFailing_answers hfails hanswer
    unfold file
    rw [runIn_bind_ok hput, runIn_bind_lift]
    cases htags : tagsOf chosen with
    | error f =>
      exact ⟨.error f, [], _, _, rfl, fun other => (view_put start m key _ other).trans rfl,
        .inr ⟨f, rfl, .inl ⟨⟨f, rfl⟩, rfl⟩⟩⟩
    | ok listed =>
      obtain ⟨y, entered, n', m', hrun, hview, hstops⟩ :=
        runIn_enterAll_failing fails hstart hsum key listed 1
          { m with values := m.values.insert key ⟨text, some ends⟩ }
      have hviews (other : String) : View.of start other m' =
          (View.of start other m).after now other (.filing key text ends entered) := by
        rw [hview, view_put]
        rfl
      rcases hstops with ⟨rfl, rfl⟩ | ⟨f, tag, rest, rfl, hlisted, hfails⟩
      · exact ⟨.ok true, entered, n', m', runIn_bind_ok hrun, hviews, .inl ⟨rfl, rfl⟩⟩
      · exact ⟨.error f, entered, n', m', runIn_bind_error hrun, hviews,
          .inr ⟨f, rfl, .inr ⟨tag, rest, congrArg _ hlisted, hfails⟩⟩⟩

/-- Writing leaves the store, where there is nothing to put or the put fails, or it puts the data and
enters tags, all of them or as far as it comes. -/
theorem runIn_write_failing (now : Number) (fails : Nat → Option Fault)
    (hstart : c.tagPrefix = .text start) (hproper : data.isProper = true) (key : String)
    (ttl : Number) (chosen : Value) (m : Memory) :
    (∃ f n', (write c key data ttl chosen).runIn (overFailing now fails) (0, m) =
        (.error f, n', m) ∧ (n' = 0 ∨ n' = 1 ∧ (fails 0).isSome)) ∨
      fails 0 = none ∧ ∃ (ends : Number) (y : Except Fault Bool) (entered : List String) (n' : Nat)
        (m' : Memory), now.add ttl = .ok ends ∧
        (write c key data ttl chosen).runIn (overFailing now fails) (0, m) = (y, n', m') ∧
        Filed start key data now ends entered m m' ∧
        (y = .ok true ∧ tagsOf chosen = .ok (entered.map .text) ∨
          ∃ f, y = .error f ∧ StopsBehind fails (tagsOf chosen) entered) := by
  have hwrite := runIn_write_file (w := overFailing now fails) (s := (0, m)) rfl c key data ttl chosen
  cases hsum : now.add ttl with
  | error f =>
    rw [hsum] at hwrite
    exact .inl ⟨_, 0, hwrite, .inl rfl⟩
  | ok ends =>
    rw [hsum] at hwrite
    dsimp only at hwrite
    cases htext : enclose ends data with
    | error f =>
      rw [htext] at hwrite
      exact .inl ⟨f, 0, hwrite, .inl rfl⟩
    | ok text =>
      rw [htext] at hwrite
      dsimp only at hwrite
      rcases runIn_file_failing fails hstart hsum key text chosen m with
        ⟨f, hfails, hrun⟩ | ⟨hfails, y, entered, n', m', hrun, hview, hends⟩
      · exact .inl ⟨f, 1, hwrite.trans hrun, .inr ⟨rfl, Option.isSome_of_eq_some hfails⟩⟩
      · exact .inr ⟨hfails, ends, y, entered, n', m', rfl, hwrite.trans hrun,
          filed_of_view hproper htext hview, hends⟩

end

/-- Where the store may fail, success is told only of what is there in full: the data is found until
its end, and its key is in the set of every tag as long. But what is not told as a success is not
undone. The store is as it was only if nothing was put, because the data is not to be cached or
cannot be, or because the put itself failed. Where entering the tags stops behind the put, the data
is found until its end all the same, while only the tags before that one have its key. -/
theorem success_told_of_all_filed {c : Config} {start : String} (hstart : c.tagPrefix = .text start)
    {data : Value} (hproper : data.isProper = true) (now : Number) (fails : Nat → Option Fault)
    (target : Target) (ttl chosen : Value) (scope : String) (m : Memory) :
    let r := (set c target data ttl chosen scope).runIn (overFailing now fails) (0, m)
    (r.1 = .ok true → ∃ key ends tags, IsDue c now target ttl scope key ends ∧
      tagsOf (chosenTags target chosen) = .ok (tags.map .text) ∧
      Filed start key data now ends tags m r.2.2) ∧
    (r.1 ≠ .ok true →
      r.2.2 = m ∧ (r.2.1 = 0 ∨ r.2.1 = 1 ∧ (fails 0).isSome) ∨
      r.1 = .ok false ∧ fails 0 = none ∧ ∃ key ends entered,
        IsDue c now target ttl scope key ends ∧ Filed start key data now ends entered m r.2.2 ∧
        StopsBehind fails (tagsOf (chosenTags target chosen)) entered) := by
  dsimp only
  rw [set_planned, runIn_bind_lift]
  cases hplanned : planned c target ttl scope with
  | error f => exact ⟨by rintro ⟨⟩, fun _ => .inl ⟨rfl, .inl rfl⟩⟩
  | ok plan =>
    rcases plan with - | ⟨key, t⟩
    · exact ⟨by rintro ⟨⟩, fun _ => .inl ⟨rfl, .inl rfl⟩⟩
    obtain ⟨hlifetime, hkey⟩ := planned_ok hplanned
    simp only [runThen, writePlanned]
    rw [runIn_attempt_unlogged fun _ _ => rfl]
    rcases runIn_write_failing now fails hstart hproper key t
      (chosenTags target chosen) m with
      ⟨f, n', hrun, hcalls⟩ | ⟨hfails, ends, y, entered, n', m', hsum, hrun, hfiled, hends⟩
    · rw [hrun]
      exact ⟨by rintro ⟨⟩, fun _ => .inl ⟨rfl, hcalls⟩⟩
    · have hdue : IsDue c now target ttl scope key ends := ⟨hkey, t, hlifetime, hsum⟩
      rw [hrun]
      rcases hends with ⟨rfl, htags⟩ | ⟨f, rfl, hstops⟩
      · exact ⟨fun _ => ⟨key, ends, entered, hdue, htags, hfiled⟩, fun h => absurd rfl h⟩
      · exact ⟨by rintro ⟨⟩, fun _ => .inr ⟨rfl, hfails, key, ends, entered, hdue, hfiled, hstops⟩⟩

/-- Failures of a single call. -/
def failsAt (k : Nat) (n : Nat) : Option Fault := if n = k then some .outside else none

theorem tagged_entry_filed :
    let r := (set .default (.named "a") (.int 1) (.int 60) (.list [.text "t"]) "").runIn
      (overFailing (.int 0) (failsAt 2)) (0, .empty)
    r.1 = .ok true ∧ ∃ key ends tags, IsDue .default (.int 0) (.named "a") (.int 60) "" key ends ∧
      tagsOf (chosenTags (.named "a") (.list [.text "t"])) = .ok (tags.map .text) ∧
      Filed "tag:" key (.int 1) (.int 0) ends tags .empty r.2.2 := by
  intro r
  have htold : r.1 = .ok true := by cbv
  exact ⟨htold, (success_told_of_all_filed rfl rfl (.int 0) (failsAt 2) (.named "a") (.int 60)
    (.list [.text "t"]) "" .empty).1 htold⟩

/-- Where entering the tag fails, no success is told, but the data is found until its end, and the
removal of the tag does not find it. The same goes for a tag that is no text. -/
theorem untagged_entry_left :
    let r := (set .default (.named "a") (.int 1) (.int 60) (.list [.text "t"]) "").runIn
      (overFailing (.int 0) (failsAt 1)) (0, .empty)
    let r' := (set .default (.named "a") (.int 1) (.int 60) (.list [.text "t", .int 1]) "").runIn
      (overFailing (.int 0) fun _ => none) (0, .empty)
    let removed := ((invalidate .default [.text "t"]).runIn (overMemory (.int 0)) r.2.2).2
    r.1 = .ok false ∧ found? r.2.2 (.int 0) "query:a" = some (.int 1) ∧
      (r.2.2.members (.int 0) "tag:t").1 = [] ∧
      found? removed (.int 59) "query:a" = some (.int 1) ∧
      r'.1 = .ok false ∧ found? r'.2.2 (.int 0) "query:a" = some (.int 1) := by
  refine ⟨by cbv, by cbv, by cbv, by cbv, by cbv, by cbv⟩

end RowGate.Cache
