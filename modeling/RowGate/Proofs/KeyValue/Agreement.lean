import RowGate.KeyValue.Server
import RowGate.Proofs.KeyValue.Memory
import RowGate.Proofs.Number.Order
import RowGate.Proofs.Script.Run
/-!
The store in memory and the store over a server, on one clock. What is under a key of one is under
that key of the other, with the same end, until an addition mixes a set: it names a time to live for
a set without an end, or none for a set that has one. Main statements: texts are found alike after
every run; members are found alike at every moment of a run exactly if no addition mixes their set.
-/
namespace RowGate.KeyValue

open Asking

namespace Redis

/-! ## What is under a key of the server -/

namespace Server

variable {s : Server} {now : Int} {key other : String} {e : Timed Content}

theorem read_reply (s : Server) (text : String) : (s.reply text).read = .ok text := by
  unfold reply
  split
  · have hbytes : (⟨text.toUTF8.data.toList.toArray⟩ : ByteArray) = text.toUTF8 := rfl
    have hread : String.fromUTF8? text.toUTF8 = some text := by
      rw [String.toUTF8_eq_toByteArray, String.fromUTF8?, dif_pos text.isValidUTF8]
      rfl
    simp only [Reply.read, hbytes, hread]
  · rfl

theorem live_put_self (s : Server) : (s.put key e).live now key = (some e).filter (·.isLive now) := by
  simp [live, put]

theorem live_put_of_ne (s : Server) (h : other ≠ key) :
    (s.put key e).live now other = s.live now other := by
  simp [live, put, Entries.get?_insert_of_ne _ h]

theorem live_without (s : Server) (keys : List String) :
    (s.without keys).live now key = if key ∈ keys then none else s.live now key := by
  induction keys generalizing s with
  | nil => simp [without]
  | cons k keys ih =>
    change (({ s with entries := s.entries.erase k } : Server).without keys).live now key = _
    rw [ih]
    by_cases hk : key = k
    · subst hk
      simp [live]
    · simp [hk, live, Entries.get?_erase_of_ne _ hk]

/-! ## What the commands of a call do -/

theorem runIn_send (c : Command) (s : Server) :
    (send c).runIn (perform now) s = (.ok (perform now c s).1, (perform now c s).2) := rfl

theorem run_get (s : Server) (now : Int) (key : String) :
    (Redis.perform (.get key)).run (perform now) s =
      (.ok ((s.live now key).bind (·.content.text?)), s) := by
  change (Redis.get key).runIn (perform now) s = _
  rw [Redis.get, runIn_bind_ok (runIn_send _ s)]
  simp only [perform]
  cases (s.live now key).bind (·.content.text?) with
  | none => rfl
  | some text =>
    rw [Option.map_some]
    dsimp only
    rw [read_reply]
    rfl

theorem whole_int (n : Int) : (Number.int n).whole = .ok n := by
  simp [Number.whole, Number.truncate?, Number.place?]

theorem wholeAbove_int (n : Int) : (Number.int n).wholeAbove = .ok n := by
  simp [Number.wholeAbove, Number.ceiling?, Number.place?]

theorem run_set (s : Server) (now : Int) (key value : String) {d : Option Int}
    (hd : ∀ n ∈ d, 0 < n) :
    ((Redis.perform (.set key value (d.map .int))).run (perform now) s).2 =
      s.put key ⟨.text value, d.map (now + ·)⟩ := by
  cases d with
  | none => rfl
  | some n =>
    have hmax : max 1 n = n := max_eq_right (hd n rfl)
    change ((Redis.set key value (some (.int n))).runIn (perform now) s).2 = _
    rw [Redis.set, wholeSeconds, whole_int]
    change s.put key ⟨.text value, some (now + max 1 n)⟩ = _
    rw [hmax]
    rfl

theorem run_delete (s : Server) (now : Int) (keys : List String) :
    ((Redis.perform (.delete keys)).run (perform now) s).2 = s.without keys := by
  cases keys with
  | nil => rfl
  | cons k keys => rfl

theorem run_members (s : Server) (now : Int) (key : String) :
    (Redis.perform (.members key)).run (perform now) s =
      (.ok (Text.distinct (((s.live now key).map (·.content.members)).getD [])), s) := by
  have hread (texts : List String) :
      ((texts.map s.reply).mapM fun r => (liftM r.read : Sending String)).runIn (perform now) s =
        (.ok texts, s) := by
    induction texts with
    | nil => rfl
    | cons t texts ih =>
      rw [List.map_cons, List.mapM_cons, read_reply]
      exact runIn_bind_ok ih
  change (Redis.members key).runIn (perform now) s = _
  rw [Redis.members, runIn_bind_ok (runIn_send _ s)]
  exact runIn_bind_ok (hread _)

/-- What an addition leaves under its key. -/
def added (s : Server) (now : Int) (key : String) (members : List String) :
    Option Int → Timed Content
  | none => s.widened now key members
  | some d => ⟨(s.widened now key members).content,
      some ((s.widened now key members).ends.elim (now + d) (max · (now + d)))⟩

theorem isLive_widened (s : Server) (now : Int) (key : String) (members : List String) :
    (s.widened now key members).isLive now := by
  unfold widened
  cases hlive : s.live now key with
  | none => rfl
  | some e => exact (Option.filter_eq_some_iff.mp hlive).2

theorem put_put (s : Server) (key : String) (e e' : Timed Content) :
    (s.put key e).put key e' = s.put key e' := by
  simp [put, Entries.insert, Entries.erase, List.filter_filter]

theorem runIn_prolong (s : Server) (now : Int) (key : String) (d : Int) (hd : 0 < d)
    {e : Timed Content} (he : e.isLive now) :
    ((prolong key (.int d)).runIn (perform now) (s.put key e)).2 =
      s.put key ⟨e.content, some (e.ends.elim (now + d) (max · (now + d)))⟩ := by
  have hmax : max 1 d = d := max_eq_right hd
  have hlive : (s.put key e).live now key = some e := by
    rw [live_put_self, Option.filter_eq_some_iff]
    exact ⟨rfl, he⟩
  rw [prolong, secondsCovering, wholeAbove_int]
  change ((do
    let left ← send (.ttl key)
    if left < max 1 d then send (.expire key (max 1 d))).runIn (perform now) (s.put key e)).2 = _
  rw [hmax, runIn_bind_ok (runIn_send _ _)]
  simp only [perform, hlive]
  cases hends : e.ends with
  | none =>
    have hless : timeLeft now (some e) < d := by
      simp only [timeLeft, hends, Option.map_none, Option.getD_none]
      omega
    rw [if_pos hless, runIn_send]
    simp only [perform, hlive]
    rw [put_put]
    rfl
  | some t =>
    have hleft : timeLeft now (some e) = t - now := by simp [timeLeft, hends]
    rw [hleft]
    by_cases hless : t - now < d
    · rw [if_pos hless, runIn_send]
      simp only [perform, hlive]
      rw [put_put, Option.elim_some, max_eq_right (by omega)]
    · rw [if_neg hless, Option.elim_some, max_eq_left (by omega), ← hends]
      rfl

theorem run_add (s : Server) (now : Int) (key : String) {members : List String}
    (hmembers : members ≠ []) {d : Option Int} (hd : ∀ n ∈ d, 0 < n) :
    ((Redis.perform (.addToSet key members (d.map .int))).run (perform now) s).2 =
      s.put key (s.added now key members d) := by
  obtain ⟨m, ms, rfl⟩ := List.exists_cons_of_ne_nil hmembers
  cases d with
  | none => rfl
  | some n => exact runIn_prolong s now key n (hd n rfl) (isLive_widened s now key (m :: ms))

end Server
end Redis

namespace Twins

open Memory
open Redis (Timed Content)

variable {w : Twins} {key : String} {isSet : String → Prop}

/-! ## One clock for both -/

/-- Something as it is held in memory, on a clock of integers. -/
def onClock {α : Type} (e : Timed α) : Expiring α := ⟨e.content, e.ends.map .int⟩

theorem isOver_onClock {α : Type} (e : Timed α) (now : Int) :
    (onClock e).isOver (.int now) = !e.isLive now := by
  obtain ⟨content, ends⟩ := e
  cases ends with
  | none => rfl
  | some t =>
    change (Number.int t).atMost (.int now) = !decide (now < t)
    rw [Bool.eq_iff_iff, Number.atMost_int]
    simp

theorem unended_onClock {α : Type} (e : Option (Timed α)) (now : Int) :
    unended (.int now) (e.map onClock) = (e.filter (·.isLive now)).map onClock := by
  cases e with
  | none => rfl
  | some e =>
    rw [Option.map_some, unended_some, isOver_onClock, Option.filter_some]
    cases e.isLive now <;> rfl

/-- A time to live that is absent, or a positive number of whole seconds. -/
def Lasting (ttl : Option Number) : Prop :=
  ∃ d : Option Int, ttl = d.map .int ∧ ∀ n ∈ d, 0 < n

theorem endAfter_int (now : Int) (d : Option Int) :
    endAfter (.int now) (d.map .int) = .ok ((d.map (now + ·)).map .int) := by
  cases d <;> rfl

theorem laterEnd_int (s t : Int) :
    laterEnd (some (.int s)) (some (.int t)) = some (.int (max s t)) := by
  unfold laterEnd
  by_cases hst : s < t
  · simp only [if_pos (Number.less_int.mpr hst), max_eq_right hst.le]
  · have hless : ¬ (Number.int s).less (.int t) = true := fun h => hst (Number.less_int.mp h)
    simp only [if_neg hless, max_eq_left (not_lt.mp hst)]

/-! ## Calls that leave a key alone -/

/-- A call may change what is under a key. -/
def Touches (key : String) : Call → Prop
  | .set name _ _ | .addToSet name _ _ => key = name
  | .delete names => key ∈ names
  | .get _ | .members _ => False

theorem values_untouched {m : Memory} {now : Number} {c : Call} (h : ¬ Touches key c) :
    unended now ((m.answer now c).2.values.get? key) = unended now (m.values.get? key) := by
  cases c with
  | get name =>
    change unended now ((m.get now name).2.values.get? key) = _
    unfold Memory.get
    split
    · rfl
    · rename_i e hheld
      split
      · rename_i hover
        by_cases hname : key = name
        · subst hname
          rw [Entries.get?_erase_self, hheld, unended_some, if_pos hover]
          rfl
        · rw [Entries.get?_erase_of_ne _ hname]
      · rfl
  | set name value ttl =>
    change unended now ((m.attempt (m.set now name value ttl)).2.values.get? key) = _
    cases hset : m.set now name value ttl with
    | error f => rfl
    | ok m' =>
      obtain ⟨ends, -, hm⟩ := sequence_eq_ok.mp hset
      obtain rfl := pure_answers.mp hm
      exact congrArg _ (Entries.get?_insert_of_ne _ h _)
  | delete names =>
    change unended now ((m.delete names).values.get? key) = _
    have hnames : key ∉ names := h
    rw [get?_values_delete, if_neg hnames]
  | addToSet name members ttl =>
    exact congrArg (unended now <| Entries.get? · key) (values_answer_addToSet m now name members ttl)
  | members name => exact congrArg (unended now <| Entries.get? · key) (values_settle m now name)

theorem sets_untouched {m : Memory} {now : Number} {c : Call} (h : ¬ Touches key c) :
    unended now ((m.answer now c).2.sets.get? key) = unended now (m.sets.get? key) := by
  cases c with
  | get name =>
    change unended now ((m.get now name).2.sets.get? key) = _
    unfold Memory.get
    split
    · rfl
    · split <;> rfl
  | set name value ttl =>
    exact congrArg (unended now <| Entries.get? · key) (sets_answer_set m now name value ttl)
  | delete names =>
    change unended now ((m.delete names).sets.get? key) = _
    have hnames : key ∉ names := h
    rw [get?_sets_delete, if_neg hnames]
  | addToSet name members ttl =>
    have hname : ¬ key = name := h
    cases hadd : m.addToSet now name members ttl with
    | error f => rw [answer_addToSet_error hadd, get?_widened, if_neg hname]
    | ok m' =>
      rw [answer_addToSet_ok hadd, ← unended_settle m now name key, ← sets_addToSet_of_ne hadd h]
  | members name => exact unended_settle m now name key

/-- A step as the stores are used: times to live are absent or whole seconds, and sets are kept
apart from texts. -/
def Suits (isSet : String → Prop) : Step → Prop
  | .call (.get name) => ¬ isSet name
  | .call (.set name _ ttl) => ¬ isSet name ∧ Lasting ttl
  | .call (.addToSet name _ ttl) => isSet name ∧ Lasting ttl
  | .call (.members name) => isSet name
  | .call (.delete _) | .wait _ => True

theorem live_untouched {c : Call} (hc : Suits isSet (.call c)) (h : ¬ Touches key c) :
    (w.served c).2.live w.now key = w.server.live w.now key := by
  cases c with
  | get name =>
    rw [served, Redis.Server.run_get]
  | set name value ttl =>
    obtain ⟨d, rfl, hd⟩ := hc.2
    rw [served, Redis.Server.run_set _ _ _ _ hd]
    exact Redis.Server.live_put_of_ne _ h
  | delete names =>
    have hnames : key ∉ names := h
    rw [served, Redis.Server.run_delete, Redis.Server.live_without, if_neg hnames]
  | addToSet name members ttl =>
    obtain ⟨d, rfl, hd⟩ := hc.2
    by_cases hmembers : members = []
    · subst hmembers
      rfl
    · rw [served, Redis.Server.run_add _ _ _ hmembers hd]
      exact Redis.Server.live_put_of_ne _ h
  | members name =>
    rw [served, Redis.Server.run_members]

/-! ## The same under a key of both -/

section

variable {α : Type} {store : Memory → Entries (Expiring α)} {kept : α → Redis.Content}

/-- What is held in memory under a key is on the server under it, with the same end. -/
def Alike (w : Twins) (store : Memory → Entries (Expiring α)) (kept : α → Redis.Content)
    (key : String) : Prop :=
  ∃ e : Option (Timed α), unended (.int w.now) ((store w.memory).get? key) = e.map onClock ∧
    w.server.live w.now key = e.map fun e => ⟨kept e.content, e.ends⟩

theorem live_later {now later : Int} (h : now ≤ later) (s : Redis.Server) :
    (s.live now key).filter (·.isLive later) = s.live later key := by
  unfold Redis.Server.live
  rw [Option.filter_filter]
  congr 1
  funext e
  unfold Timed.isLive
  cases e.ends with
  | none => rfl
  | some t =>
    simp only [Option.all_some, ← Bool.decide_and, decide_eq_decide]
    omega

theorem Alike.wait (h : w.Alike store kept key) (seconds : Nat) :
    (w.step (.wait seconds)).Alike store kept key := by
  obtain ⟨e, hheld, hkept⟩ := h
  have hlater : w.now ≤ w.now + seconds := by omega
  refine ⟨e.filter (·.isLive (w.now + seconds)), ?_, ?_⟩
  · change unended (.int (w.now + seconds)) ((store w.memory).get? key) = _
    rw [← unended_later (.inr (Number.atMost_int.mpr hlater)), hheld, unended_onClock]
  · change w.server.live (w.now + seconds) key = _
    rw [← live_later hlater, hkept, Option.filter_map]
    rfl

/-- A call that leaves the key alone leaves it alike. -/
theorem Alike.call (h : w.Alike store kept key) {c : Call} (hc : Suits isSet (.call c))
    (hstore : unended (.int w.now) ((store (w.remembered c).2).get? key) =
      unended (.int w.now) ((store w.memory).get? key)) (htouches : ¬ Touches key c) :
    (w.step (.call c)).Alike store kept key := by
  obtain ⟨e, hheld, hkept⟩ := h
  exact ⟨e, hstore.trans hheld, (live_untouched hc htouches).trans hkept⟩

/-- Something new that is put in both, and is not over. -/
theorem alike_put {e : Timed α} (hlive : e.isLive w.now)
    (hheld : (store w.memory).get? key = some (onClock e))
    (hkept : w.server.entries.get? key = some ⟨kept e.content, e.ends⟩) :
    w.Alike store kept key := by
  refine ⟨some e, ?_, ?_⟩
  · rw [hheld, unended_some, isOver_onClock, hlive]
    rfl
  · rw [Redis.Server.live, hkept]
    exact Option.filter_eq_some_iff.mpr ⟨rfl, hlive⟩

end

/-- What is put for a time of whole seconds is not over. -/
theorem isLive_ends {α : Type} {a : α} {d : Option Int} (hd : ∀ n ∈ d, 0 < n) (now : Int) :
    (⟨a, d.map (now + ·)⟩ : Timed α).isLive now := by
  cases d with
  | none => rfl
  | some n =>
    have hn := hd n rfl
    change decide (now < now + n) = true
    exact decide_eq_true (by omega)

/-! ## Texts -/

/-- The text under a key is the same in both. -/
def SameText (w : Twins) (key : String) : Prop := w.Alike Memory.values .text key

theorem sameText_step (hkey : ¬ isSet key) {step : Step} (hstep : Suits isSet step)
    (h : w.SameText key) : (w.step step).SameText key := by
  cases step with
  | wait seconds => exact h.wait seconds
  | call c =>
    by_cases htouches : Touches key c
    · cases c with
      | get name => exact htouches.elim
      | members name => exact htouches.elim
      | set name value ttl =>
        obtain rfl : key = name := htouches
        obtain ⟨d, rfl, hd⟩ := hstep.2
        have hset : w.memory.set (.int w.now) key value (d.map .int) =
            .ok { w.memory with
              values := w.memory.values.insert key ⟨value, (d.map (w.now + ·)).map .int⟩ } := by
          rw [Memory.set, endAfter_int]
          rfl
        refine alike_put (e := ⟨value, d.map (w.now + ·)⟩) (isLive_ends hd w.now) ?_ ?_
        · change (w.memory.attempt (w.memory.set (.int w.now) key value _)).2.values.get? key = _
          rw [hset]
          exact Entries.get?_insert_self _ _ _
        · change (w.served (.set key value (d.map .int))).2.entries.get? key = _
          rw [served, Redis.Server.run_set _ _ _ _ hd]
          exact Entries.get?_insert_self _ _ _
      | delete names =>
        have hnames : key ∈ names := htouches
        refine ⟨none, ?_, ?_⟩
        · change unended _ ((w.memory.delete names).values.get? key) = _
          rw [get?_values_delete, if_pos hnames]
          rfl
        · change (w.served (.delete names)).2.live w.now key = _
          rw [served, Redis.Server.run_delete, Redis.Server.live_without, if_pos hnames]
          rfl
      | addToSet name members ttl =>
        obtain rfl : key = name := htouches
        exact (hkey hstep.1).elim
    · exact h.call hstep (values_untouched htouches) htouches

theorem SameText.agree (h : w.SameText key) : w.Agree (.get key) := by
  obtain ⟨e, hheld, hkept⟩ := h
  unfold Agree served
  rw [Redis.Server.run_get, hkept]
  change Except.ok (w.memory.get (.int w.now) key).1 = _
  rw [get_eq, hheld]
  cases e <;> rfl

/-! ## Sets -/

/-- The set under a key is the same in both, and what is there has members, without repetitions. -/
def SameSet (w : Twins) (key : String) : Prop :=
  w.Alike Memory.sets .set key ∧
    ∀ e, w.server.live w.now key = some e → e.content.members ≠ [] ∧ e.content.members.Nodup

/-- A step adds to the set under a key, with a time to live for a set that has no end, or without one
for a set that has an end. -/
def Mixes (w : Twins) (key : String) (step : Step) : Prop :=
  ∃ members ttl e, step = .call (.addToSet key members ttl) ∧
    unended (.int w.now) (w.memory.sets.get? key) = some e ∧ e.ends.isSome ≠ ttl.isSome

/-- A step names a member in what it adds to the set under a key. -/
def Names (key : String) (step : Step) : Prop :=
  ∀ members ttl, step = .call (.addToSet key members ttl) → members ≠ []

theorem SameSet.agree (h : w.SameSet key) : w.Agree (.members key) := by
  obtain ⟨⟨e, hheld, hkept⟩, htidy⟩ := h
  unfold Agree served
  rw [Redis.Server.run_members]
  change Except.ok (w.memory.members (.int w.now) key).1 = _
  rw [members_eq, hheld]
  cases e with
  | none =>
    rw [hkept]
    rfl
  | some e =>
    have hnodup := (htidy _ hkept).2
    rw [hkept]
    exact congrArg Except.ok (Text.distinct_of_nodup hnodup).symm

theorem SameSet.wait (h : w.SameSet key) (seconds : Nat) : (w.step (.wait seconds)).SameSet key := by
  refine ⟨h.1.wait seconds, fun e he => h.2 e ?_⟩
  have hlater : w.now ≤ w.now + seconds := by omega
  change w.server.live (w.now + seconds) key = some e at he
  rw [← live_later hlater] at he
  exact (Option.filter_eq_some_iff.mp he).1

theorem memory_added (w : Twins) (key : String) (members : List String) (d : Option Int) :
    (w.step (.call (.addToSet key members (d.map .int)))).memory.sets.get? key =
      some (extended (.int w.now) members ((d.map (w.now + ·)).map .int)
        (w.memory.sets.get? key)) := by
  obtain ⟨m', hadd, -, hsets⟩ := addToSet_ok w.memory key members (endAfter_int w.now d)
  change (w.memory.answer (.int w.now) (.addToSet key members (d.map .int))).2.sets.get? key = _
  rw [answer_addToSet_ok hadd]
  exact (hsets key).trans (if_pos rfl)

theorem server_added (w : Twins) (key : String) {members : List String} (hmembers : members ≠ [])
    {d : Option Int} (hd : ∀ n ∈ d, 0 < n) :
    (w.step (.call (.addToSet key members (d.map .int)))).server.entries.get? key =
      some (w.server.added w.now key members d) := by
  change (w.served (.addToSet key members (d.map .int))).2.entries.get? key = _
  rw [served, Redis.Server.run_add _ _ _ hmembers hd]
  exact Entries.get?_insert_self _ _ _

theorem distinct_append_ne_nil {members : List String} (hmembers : members ≠ [])
    (old : List String) : Text.distinct (old ++ members) ≠ [] := by
  obtain ⟨m, ms, rfl⟩ := List.exists_cons_of_ne_nil hmembers
  exact List.ne_nil_of_mem (Text.mem_distinct.mpr (by simp : m ∈ old ++ m :: ms))

/-- An addition that does not mix a set leaves it the same in both. -/
theorem SameSet.add (h : w.SameSet key) {members : List String} (hmembers : members ≠ [])
    {d : Option Int} (hd : ∀ n ∈ d, 0 < n)
    (hmixes : ¬ w.Mixes key (.call (.addToSet key members (d.map .int)))) :
    (w.step (.call (.addToSet key members (d.map .int)))).SameSet key := by
  obtain ⟨⟨e, hheld, hkept⟩, -⟩ := h
  have hmemory := memory_added w key members d
  have hserver := server_added w key hmembers hd
  -- the set that both hold afterwards
  have hboth {f : Timed (List String)} (hlive : f.isLive w.now)
      (hextended : extended (.int w.now) members ((d.map (w.now + ·)).map .int)
        (w.memory.sets.get? key) = onClock f)
      (hadded : w.server.added w.now key members d = ⟨.set f.content, f.ends⟩)
      (htidy : f.content ≠ [] ∧ f.content.Nodup) :
      (w.step (.call (.addToSet key members (d.map .int)))).SameSet key := by
    refine ⟨alike_put hlive (hmemory.trans (congrArg some hextended))
      (hserver.trans (congrArg some hadded)), fun e he => ?_⟩
    have he := (Option.filter_eq_some_iff.mp he).1
    rw [hserver, hadded] at he
    rw [← Option.some.inj he]
    exact htidy
  cases e with
  | none =>
    refine hboth (f := ⟨Text.distinct members, d.map (w.now + ·)⟩) (isLive_ends hd w.now) ?_ ?_
      ⟨distinct_append_ne_nil hmembers [], Text.nodup_distinct _⟩
    · rw [extended, hheld]
      rfl
    · unfold Redis.Server.added Redis.Server.widened
      rw [hkept]
      cases d <;> rfl
  | some e =>
    have hlive : e.isLive w.now := (Option.filter_eq_some_iff.mp hkept).2
    have htidy : Text.distinct (e.content ++ members) ≠ [] ∧
        (Text.distinct (e.content ++ members)).Nodup :=
      ⟨distinct_append_ne_nil hmembers _, Text.nodup_distinct _⟩
    have hends : e.ends.isSome = d.isSome := by
      by_contra hne
      refine hmixes ⟨members, d.map .int, onClock e, rfl, hheld, ?_⟩
      simpa [onClock] using hne
    cases hd' : d with
    | none =>
      have hnone : e.ends = none := by simpa [hd'] using hends
      refine hd' ▸ hboth (f := ⟨Text.distinct (e.content ++ members), none⟩) rfl ?_ ?_ htidy
      · rw [extended, hheld]
        simp only [Option.map_some, onClock, hnone, hd']
        rfl
      · rw [hd', Redis.Server.added, Redis.Server.widened, hkept, ← hnone]
        rfl
    | some n =>
      obtain ⟨t, ht⟩ : ∃ t, e.ends = some t := by
        rw [← Option.isSome_iff_exists, hends, hd']
        rfl
      have hn := hd n hd'
      have hlater : w.now < max t (w.now + n) := by omega
      refine hd' ▸ hboth (f := ⟨Text.distinct (e.content ++ members), some (max t (w.now + n))⟩)
        (decide_eq_true hlater) ?_ ?_ htidy
      · rw [extended, hheld]
        simp only [Option.map_some, onClock, ht, hd', laterEnd_int]
      · rw [hd', Redis.Server.added, Redis.Server.widened, hkept]
        simp only [Option.map_some, ht]
        rfl

/-- A set that has an end on the server only is found in memory only from then on. -/
theorem disagree_after_end {members : List String} {content : Redis.Content} {t : Int}
    (hheld : w.memory.sets.get? key = some ⟨members, none⟩) (hmembers : members ≠ [])
    (hkept : w.server.entries.get? key = some ⟨content, some t⟩) (ht : w.now < t) :
    ∃ seconds : Nat, ¬ (w.step (.wait seconds)).Agree (.members key) := by
  refine ⟨(t - w.now).toNat, fun hagree => ?_⟩
  have hend : w.now + ((t - w.now).toNat : Int) = t := by omega
  have hover : w.server.live t key = none := by
    rw [Redis.Server.live, hkept, Option.filter_some]
    exact if_neg (by simp [Timed.isLive])
  unfold Agree served remembered at hagree
  rw [Redis.Server.run_members] at hagree
  change Except.ok (w.memory.members (.int (w.now + ((t - w.now).toNat : Int))) key).1 =
    Except.ok (Text.distinct (((w.server.live (w.now + ((t - w.now).toNat : Int)) key).map
      (·.content.members)).getD [])) at hagree
  rw [hend, members_eq, hheld, hover] at hagree
  exact hmembers (Except.ok.inj hagree)

/-- An addition that mixes a set makes the stores disagree at some moment. -/
theorem SameSet.mix (h : w.SameSet key) {step : Step} (hstep : Suits isSet step)
    (hnames : Names key step) (hmixes : w.Mixes key step) :
    ∃ seconds : Nat, ¬ ((w.step step).step (.wait seconds)).Agree (.members key) := by
  obtain ⟨members, ttl, f, rfl, hf, hends⟩ := hmixes
  obtain ⟨d, rfl, hd⟩ := hstep.2
  have hmembers := hnames members _ rfl
  obtain ⟨⟨e, hheld, hkept⟩, -⟩ := h
  obtain ⟨e, rfl, rfl⟩ : ∃ e', e = some e' ∧ f = onClock e' := by
    rw [hheld] at hf
    obtain ⟨e', he', hf'⟩ := Option.map_eq_some_iff.mp hf
    exact ⟨e', he', hf'.symm⟩
  have hlive : e.isLive w.now := (Option.filter_eq_some_iff.mp hkept).2
  have hcontent := distinct_append_ne_nil hmembers e.content
  have hmemory := memory_added w key members d
  have hserver := server_added w key hmembers hd
  rw [extended, hheld] at hmemory
  rw [Redis.Server.added.eq_def, Redis.Server.widened, hkept] at hserver
  cases d with
  | none =>
    obtain ⟨t, ht⟩ : ∃ t, e.ends = some t := by
      rw [← Option.isSome_iff_exists, Option.isSome_iff_ne_none]
      simpa [onClock] using hends
    simp only [Option.map_some, Option.map_none, onClock, ht, laterEnd] at hmemory hserver
    refine disagree_after_end hmemory hcontent hserver ?_
    change w.now < t
    simpa [Timed.isLive, ht] using hlive
  | some n =>
    have hnone : e.ends = none := by simpa [onClock] using hends
    simp only [Option.map_some, Option.map_none, onClock, hnone, laterEnd, Option.elim_none]
      at hmemory hserver
    refine disagree_after_end hmemory hcontent hserver ?_
    have hn := hd n rfl
    change w.now < w.now + n
    omega

/-- A step that does not mix a set, and adds nothing to it but members, leaves it the same in both. -/
theorem sameSet_step (hkey : isSet key) {step : Step} (hstep : Suits isSet step)
    (hnames : Names key step) (hmixes : ¬ w.Mixes key step) (h : w.SameSet key) :
    (w.step step).SameSet key := by
  cases step with
  | wait seconds => exact h.wait seconds
  | call c =>
    by_cases htouches : Touches key c
    · cases c with
      | get name => exact htouches.elim
      | members name => exact htouches.elim
      | set name value ttl =>
        obtain rfl : key = name := htouches
        exact (hstep.1 hkey).elim
      | delete names =>
        have hin : key ∈ names := htouches
        have hgone : (w.step (.call (.delete names))).server.live w.now key = none := by
          change (w.served (.delete names)).2.live w.now key = _
          rw [served, Redis.Server.run_delete, Redis.Server.live_without, if_pos hin]
        refine ⟨⟨none, ?_, hgone⟩, fun e he => ?_⟩
        · change unended _ ((w.memory.delete names).sets.get? key) = _
          rw [get?_sets_delete, if_pos hin]
          rfl
        · change (w.step (.call (.delete names))).server.live w.now key = some e at he
          rw [hgone] at he
          cases he
      | addToSet name members ttl =>
        obtain rfl : key = name := htouches
        obtain ⟨d, rfl, hd⟩ := hstep.2
        exact h.add (hnames members _ rfl) hd hmixes
    · refine ⟨h.1.call hstep (sets_untouched htouches) htouches, fun e he => h.2 e ?_⟩
      rw [← live_untouched hstep htouches]
      exact he

/-! ## Runs -/

theorem sameText_after (hkey : ¬ isSet key) {steps : List Step}
    (hsteps : ∀ step ∈ steps, Suits isSet step) (h : w.SameText key) :
    (w.after steps).SameText key := by
  induction steps generalizing w with
  | nil => exact h
  | cons step steps ih =>
    refine ih (fun s hs => hsteps s (List.mem_cons_of_mem step hs)) ?_
    exact sameText_step hkey (hsteps step List.mem_cons_self) h

/-- No step of a run mixes the set under a key. -/
def Unmixed (key : String) (w : Twins) : List Step → Prop
  | [] => True
  | step :: steps => ¬ w.Mixes key step ∧ Unmixed key (w.step step) steps

/-- Both find the same members at every moment of a run: before it, and a while after each step. -/
def FoundAlike (key : String) (w : Twins) : List Step → Prop
  | [] => ∀ seconds : Nat, (w.step (.wait seconds)).Agree (.members key)
  | step :: steps =>
    (∀ seconds : Nat, (w.step (.wait seconds)).Agree (.members key)) ∧
      FoundAlike key (w.step step) steps

theorem FoundAlike.first {steps : List Step} (h : FoundAlike key w steps) (seconds : Nat) :
    (w.step (.wait seconds)).Agree (.members key) := by
  cases steps with
  | nil => exact h seconds
  | cons step steps => exact h.1 seconds

theorem foundAlike_iff (hkey : isSet key) {steps : List Step}
    (hsteps : ∀ step ∈ steps, Suits isSet step) (hnames : ∀ step ∈ steps, Names key step)
    (h : w.SameSet key) : FoundAlike key w steps ↔ Unmixed key w steps := by
  have hnow (seconds : Nat) : (w.step (.wait seconds)).Agree (.members key) := (h.wait seconds).agree
  induction steps generalizing w with
  | nil => exact iff_of_true hnow trivial
  | cons step steps ih =>
    have hstep := hsteps step List.mem_cons_self
    have hname := hnames step List.mem_cons_self
    by_cases hmixes : w.Mixes key step
    · obtain ⟨seconds, hdisagree⟩ := h.mix hstep hname hmixes
      exact iff_of_false (fun hfound => hdisagree (hfound.2.first seconds)) fun h => h.1 hmixes
    · have hnext := sameSet_step hkey hstep hname hmixes h
      have hrest := ih (fun s hs => hsteps s (List.mem_cons_of_mem step hs))
        (fun s hs => hnames s (List.mem_cons_of_mem step hs)) hnext
        fun seconds => (hnext.wait seconds).agree
      constructor
      · exact fun hfound => ⟨hmixes, hrest.mp hfound.2⟩
      · exact fun hunmixed => ⟨hnow, hrest.mpr hunmixed.2⟩

variable (isSet)

/-- After every run of calls and waits that begins with nothing, with texts and sets under different
keys and times to live of whole seconds, both stores find the same texts; and where each addition to a
set names a member, they find the same members of it at every moment of the run exactly if no
addition mixes it. -/
theorem stores_agree_iff_unmixed (now : Int) (inBytes : Bool) {steps : List Step}
    (hsteps : ∀ step ∈ steps, Suits isSet step) :
    (∀ key, ¬ isSet key → ((start now inBytes).after steps).Agree (.get key)) ∧
      ∀ key, isSet key → (∀ step ∈ steps, Names key step) →
        (FoundAlike key (start now inBytes) steps ↔ Unmixed key (start now inBytes) steps) := by
  constructor
  · intro key hkey
    exact (sameText_after hkey hsteps ⟨none, rfl, rfl⟩).agree
  · intro key hkey hnames
    refine foundAlike_iff hkey hsteps hnames ⟨⟨none, rfl, rfl⟩, fun e he => ?_⟩
    cases he

/-- A text, and a set that is filled with growing times to live. -/
def filling : List Step :=
  [.call (.set "k" "v" (some (.int 5))), .call (.addToSet "s" ["a"] (some (.int 10))), .wait 3,
    .call (.addToSet "s" ["b"] (some (.int 20)))]

theorem lasting_int {n : Int} (hn : 0 < n) : Lasting (some (.int n)) :=
  ⟨some n, rfl, fun _ hm => Option.some.inj hm ▸ hn⟩

theorem filling_found_alike :
    ((start 0 false).after filling).Agree (.get "k") ∧ FoundAlike "s" (start 0 false) filling := by
  have hsteps : ∀ step ∈ filling, Suits (· = "s") step := by
    simp [filling, Suits, lasting_int]
  have hnames : ∀ step ∈ filling, Names "s" step := by
    simp [filling, Names]
  have hunmixed : Unmixed "s" (start 0 false) filling := by
    refine ⟨?_, ?_, ?_, ?_, trivial⟩
    · rintro ⟨members, ttl, e, hstep, -⟩
      cases hstep
    · rintro ⟨members, ttl, e, -, hheld, -⟩
      have hnone : none = some e := hheld
      cases hnone
    · rintro ⟨members, ttl, e, hstep, -⟩
      cases hstep
    · rintro ⟨members, ttl, e, hstep, hheld, hends⟩
      have hset : some ⟨["a"], some (.int 10)⟩ = some e := hheld
      cases hstep
      cases hset
      exact hends rfl
  have hfound := stores_agree_iff_unmixed (· = "s") 0 false hsteps
  exact ⟨hfound.1 "k" (by decide), (hfound.2 "s" rfl hnames).mpr hunmixed⟩

/-- A set that was filled without an end, and then added to for ten seconds, is forgotten by the
server only. -/
theorem mixed_set_forgotten : ¬ ∀ (now : Int) (inBytes : Bool) (isSet : String → Prop)
    (steps : List Step), (∀ step ∈ steps, Suits isSet step) →
      ∀ key, isSet key → ((start now inBytes).after steps).Agree (.members key) := by
  intro h
  have hsuits : ∀ step ∈ ([.call (.addToSet "s" ["a"] none),
      .call (.addToSet "s" ["b"] (some (.int 10))), .wait 10] : List Step),
      Suits (· = "s") step := by
    have hnone : Lasting none := ⟨none, rfl, fun _ hn => by cases hn⟩
    simp [Suits, lasting_int, hnone]
  have hagree := h 0 false (· = "s") _ hsuits "s" rfl
  change (Except.ok ["a", "b"] : Except Fault (List String)) = .ok [] at hagree
  cases hagree

end Twins
end RowGate.KeyValue
