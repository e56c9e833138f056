import Mathlib
import RowGate.Access.Rule
import RowGate.Proofs.Cache.Recall
import RowGate.Proofs.Endpoint.Reads
/-!
Queries at a moment: rules, time and engine are given, and a query changes the cache's store, which
is in memory. Main statements: a query answers with the rows that are found in the cache, or else
with those that the engine has, both judged by the rules of the moment, and the store behind it does
not depend on the user.
-/
namespace RowGate.Endpoint

open Asking
open Number (Later)
open Cache (found? lives overMemory)

/-- What answers a query besides the cache and the rules: an engine, whose rows have no key twice, a
source of plans and a compiler of templates. -/
structure Outside where
  engine : (q : Engine.Question) → q.Answer
  plan : Sql.Select → Except Fault Value
  holds : String → Record → Record → Except Fault Bool
  proper : ∀ s rows, engine (.select s) = .ok rows → ∀ row ∈ rows, (Value.map row).isProper = true

/-- When a query is asked: under which rules, at what time, and with what outside. -/
structure Moment where
  permissions : PermissionStore
  now : Number
  outside : Outside

/-- What a query may change: the store of the cache, and the statements sent for rows so far. -/
structure Site where
  store : KeyValue.Memory
  sent : List Sql.Select

namespace Moment

variable (m : Moment)

/-- The answers that access control gets. -/
def judging : (q : Access.Question) → q.Answer
  | .holds template context row => m.outside.holds template context row
  | .permissions table => .ok (m.permissions.get? table)
  | .write _ => .error .outside
  | .log _ => ()

/-- The answers to the questions that change nothing. -/
def fixed : (q : Question) → q.Answer
  | .access q => m.judging q
  | .cache (.store call) => call.fail .outside
  | .cache .now => m.now
  | .cache (.log _) => ()
  | .engine q => m.outside.engine q
  | .plan s => m.outside.plan s
  | .log _ => ()

/-- Answers questions. -/
def answer : Surroundings Question Question.Answer Site
  | .cache (.store call), w =>
    ((w.store.answer m.now call).1, { w with store := (w.store.answer m.now call).2 })
  | .engine (.select s), w => (m.outside.engine (.select s), { w with sent := w.sent ++ [s] })
  | q, w => (m.fixed q, w)

/-- The rows that the engine has for a statement, if it can be reached. -/
def fetched (s : Sql.Select) : Except Fault (List Record) :=
  m.outside.engine .connect >>= fun _ => m.outside.engine (.select s)

/-- The statements that are sent for rows: the one for the query, if the engine can be reached. -/
def sends (s : Sql.Select) : List Sql.Select :=
  match m.outside.engine .connect with
  | .ok _ => [s]
  | .error _ => []

/-- The rows that a user may see under the rules of the moment. -/
def authorized (e : Endpoint) (table : String) (user : Option User) (rows : List Record) :
    Except Fault (List Record) :=
  match e.gateFor user with
  | some (c, u) => Asking.result m.judging (Access.authorizeRows c table "SELECT" rows u)
  | none => .ok rows

/-- What a query answers for rows: those that the user may see, transformed. -/
def judged (e : Endpoint) (table : String) (user : Option User) (q : Query) (rows : List Record) :
    Except Fault (List Record) :=
  m.authorized e table user rows >>= transformed q

/-- Asks a query, with the statements sent counted anew. -/
def ask (e : Endpoint) (table : String) (r : Request) (user : Option User)
    (store : KeyValue.Memory) : Except Fault (List Record) × Site :=
  (e.query table r user).runIn m.answer ⟨store, []⟩

end Moment

/-- Questions that leave everything as it is. -/
def Question.IsStill : Question → Prop
  | .cache (.store _) | .engine (.select _) => False
  | _ => True

theorem Question.Advises.isStill (q : Question) (h : q.Advises) : q.IsStill := by
  match q, h with
  | .engine (.scalar _), _ | .engine (.indexes _), _ | .plan _, _ | .log _, _ => trivial

section

variable {m : Moment} {e : Endpoint} {w : Site} {table : String} {q : Query} {s : Sql.Select}
  {rows : List Record} {user : Option User}

theorem still_answer : Script.Still m.answer Question.IsStill m.fixed := by
  intro q hq w
  match q, hq with
  | .access _, _ | .plan _, _ | .log _, _ | .cache .now, _ | .cache (.log _), _ => rfl
  | .engine .connect, _ | .engine .begin_, _ | .engine (.create _), _ | .engine (.fetch _), _
  | .engine (.change _), _ | .engine (.scalar _), _ | .engine (.indexes _), _ => rfl

theorem runIn_guarding {α : Type} (x : Access.Checking α) :
    (guarding x).runIn m.answer w = (Asking.result m.judging x, w) := by
  have hstill : AsksOnly Question.IsStill (guarding x) :=
    asksOnly_guarding (Script.asksOnly_any (fun _ => trivial) x.run)
  rw [runIn_still still_answer hstill]
  exact congrArg (·, w) (Script.result_within ..)

theorem runIn_visible :
    (e.visible table rows user).runIn m.answer w = (m.authorized e table user rows, w) := by
  unfold visible Moment.authorized
  cases e.gateFor user with
  | none => rfl
  | some found => exact runIn_guarding _

/-- A call of the cache runs in the cache's part of the surroundings. -/
theorem runIn_caching_part {σ τ α : Type} {o : Surroundings Question Question.Answer σ}
    {v : Surroundings Cache.Question Cache.Question.Answer τ}
    (part : Script.Part (fun q s => ((o (.cache q) s).1, (o (.cache q) s).2)) v)
    (x : Cache.Caching α) (s : σ) : (caching x).runIn o s =
      ((x.runIn v (part.get s)).1, part.put s (x.runIn v (part.get s)).2) := by
  change Script.run o (Script.within Question.cache _ x.run) s = _
  rw [Script.run_within]
  exact Script.run_part part x.run s

/-- The cache's part of the surroundings is the store. -/
def storePart : Script.Part
    (fun q w => ((m.answer (.cache q) w).1, (m.answer (.cache q) w).2)) (overMemory m.now) where
  get w := w.store
  put w store := { w with store }
  put_get _ := rfl
  get_put _ _ := rfl
  put_put _ _ _ := rfl
  answers q w := by
    match q with
    | .store _ | .now | .log _ => rfl

theorem runIn_caching {α : Type} (x : Cache.Caching α) :
    (caching x).runIn m.answer w = ((x.runIn (overMemory m.now) w.store).1,
      { w with store := (x.runIn (overMemory m.now) w.store).2 }) :=
  runIn_caching_part storePart x w

/-! Advice never fails, and leaves everything as it is. -/

theorem result_noting {α : Type} (o : (q : Question) → q.Answer) (x : Logged α) :
    Asking.result o (noting x) = x.run.1 :=
  talks_noting (talks_result o (noting x))

theorem result_logAll (o : (q : Question) → q.Answer) (es : List LogEntry) :
    Asking.result o (logAll es) = .ok () :=
  talks_logAll (talks_result o (logAll es))

theorem suggestions_answer (q : Query) (c : Config) (indexed : List String)
    (estimate plan : Value) : ∃ advice, (q.suggestions c indexed estimate plan).run.1 = .ok advice := by
  unfold Query.suggestions
  cases q.advice c indexed estimate plan with
  | ok advice => exact ⟨advice, rfl⟩
  | error f => exact ⟨[], rfl⟩

theorem result_advice (o : (q : Question) → q.Answer) (table : String) (q : Query)
    (s : Sql.Select) : ∃ advice, Asking.result o (e.advice table q s) = .ok advice := by
  unfold advice
  rw [Asking.result_bind, Asking.result_outcome, ok_sequence]
  match Asking.result o (e.survey table s) with
  | .error _ =>
    refine ⟨[], ?_⟩
    change Asking.result o (log .warning ("Could not analyse plan for " ++ Text.quoted table) >>=
      fun _ => pure []) = _
    rw [Asking.result_bind]
    exact congrArg (· >>= _) (result_logAll o _)
  | .ok none => exact ⟨[], rfl⟩
  | .ok (some (plan, indexed)) =>
    obtain ⟨advice, hadvice⟩ := suggestions_answer q e.config indexed .null plan
    refine ⟨advice.map (·.message), ?_⟩
    change Asking.result o (noting (q.suggestions e.config indexed .null plan) >>= fun advice =>
      pure (advice.map (·.message))) = _
    rw [Asking.result_bind, result_noting, hadvice]
    rfl

theorem result_advise (o : (q : Question) → q.Answer) (table : String) (q : Query)
    (s : Sql.Select) : Asking.result o (e.advise table q s) = .ok () := by
  unfold advise
  split
  · obtain ⟨advice, hadvice⟩ := result_advice (e := e) o table q s
    rw [Asking.result_bind, hadvice, ok_sequence]
    split
    · exact result_logAll o _
    · rfl
  · rfl

theorem runIn_statement : (e.statement table q).runIn m.answer w =
    ((Logged.run do Sql.build e.catalog table (← q.compile)).1, w) := by
  unfold statement
  rw [runIn_still still_answer (asksOnly_noting (fun _ => trivial) _), result_noting]

/-- Without a statement nothing is executed. -/
theorem runIn_execute_unbuilt (hbuilds : ∀ s, ¬ e.Builds table q s) :
    ∃ f, (e.execute table q).runIn m.answer w = (.error f, w) := by
  have hstatement : (e.statement table q).runIn m.answer w = _ := runIn_statement
  unfold Builds at hbuilds
  cases hbuilt : (Logged.run do Sql.build e.catalog table (← q.compile)).1 with
  | ok s => exact absurd hbuilt (hbuilds s)
  | error f =>
    rw [hbuilt] at hstatement
    exact ⟨f, runIn_bind_error hstatement⟩

/-- A query that is executed has the rows of the engine. -/
theorem runIn_execute (hbuilds : e.Builds table q s) :
    (e.execute table q).runIn m.answer w =
      (m.fetched s, { w with sent := w.sent ++ m.sends s }) := by
  have hstatement : (e.statement table q).runIn m.answer w = (.ok s, w) := by
    rw [runIn_statement]
    exact congrArg (·, w) hbuilds
  have hadvise : (e.advise table q s).runIn m.answer w = (.ok (), w) := by
    rw [runIn_still still_answer ((asksOnly_advise table q s).mono Question.Advises.isStill),
      result_advise]
  have hconnect : (engine .connect).runIn m.answer w = (m.outside.engine .connect, w) := rfl
  unfold execute Moment.fetched Moment.sends
  rw [runIn_bind_ok hstatement]
  cases houtside : m.outside.engine .connect with
  | error f =>
    rw [houtside] at hconnect
    rw [runIn_bind_error hconnect, List.append_nil]
    rfl
  | ok _ =>
    rw [houtside] at hconnect
    rw [runIn_bind_ok hconnect, runIn_bind_ok hadvise]
    rfl

end

/-! Rows in the cache -/

/-- Rows as they are put into the cache. -/
def dataOf (rows : List Record) : Value := .list (rows.map .map)

/-- Rows as they come back from the cache, if it can keep them: what their forms in the interchange
format stand for. -/
def recalledRows? (rows : List Record) : Option (List Record) :=
  rows.mapM fun row => (recordToJson? Cache.fallback row).map Json.toRecord

/-- The rows that are found in a store under a key at a time. -/
def rowsFound? (store : KeyValue.Memory) (now : Number) (key : String) : Option (List Record) :=
  (found? store now key).map rowsIn

theorem recalled?_dataOf (rows : List Record) :
    (Cache.recalled? (dataOf rows)).map rowsIn = recalledRows? rows := by
  have hlist : Cache.recalled? (dataOf rows) =
      (listToJson? Cache.fallback (rows.map .map)).map fun js => .list (Json.toValues js) := by
    unfold Cache.recalled? dataOf
    rw [Value.toJson?]
    cases listToJson? Cache.fallback (rows.map .map) <;> rfl
  rw [hlist, Option.map_map]
  clear hlist
  unfold recalledRows?
  induction rows with
  | nil => rfl
  | cons row rows ih =>
    rw [List.map_cons, listToJson?, List.mapM_cons, ← ih, Value.toJson?]
    cases recordToJson? Cache.fallback row with
    | none => rfl
    | some fs =>
      cases listToJson? Cache.fallback (rows.map .map) with
      | none => rfl
      | some js => rfl

theorem isProper_dataOf {rows : List Record}
    (h : ∀ row ∈ rows, (Value.map row).isProper = true) : (dataOf rows).isProper = true := by
  refine allProper_iff.mpr fun v hv => ?_
  obtain ⟨row, hrow, rfl⟩ := List.mem_map.mp hv
  exact h row hrow

section

variable {m : Moment} {e : Endpoint} {w : Site} {table key : String} {q : Query} {s : Sql.Select}
  {c : Config} {settings : CacheSettings} {user : Option User}

/-- Without the cache, rows are those of the engine. -/
theorem rows_uncached (hcache : e.cacheFor q = none) : e.rows table q = e.execute table q := by
  unfold Endpoint.rows
  rw [hcache]

/-- Rows are not to be had where they have no key in the cache. -/
theorem rows_keyless (hcache : e.cacheFor q = some c) {f : Fault}
    (hkey : Cache.Target.key c table (.query q) = .error f) : e.rows table q = throw f := by
  unfold Endpoint.rows
  rw [hcache]
  change caching (Cache.get c (.query q) table) >>= _ = _
  rw [Cache.get_keyless hkey]
  rfl

theorem runIn_rows_keyless (hcache : e.cacheFor q = some c) {f : Fault}
    (hkey : Cache.Target.key c table (.query q) = .error f) :
    (e.rows table q).runIn m.answer w = (.error f, w) := by
  rw [rows_keyless hcache hkey]
  rfl

/-- Rows that are found in the cache are returned, and nothing changes. -/
theorem runIn_rows_found (hcache : e.cacheFor q = some c)
    (hkey : Cache.Target.key c table (.query q) = .ok key) {rows : List Record}
    (hfound : rowsFound? w.store m.now key = some rows) :
    (e.rows table q).runIn m.answer w = (.ok rows, w) := by
  obtain ⟨v, hv, rfl⟩ := Option.map_eq_some_iff.mp hfound
  obtain ⟨store, hget, hstays, -⟩ := Cache.runIn_get hkey w.store m.now
  rw [hv] at hget hstays
  obtain rfl := hstays (by simp)
  have hcached : (caching (Cache.get c (.query q) table)).runIn m.answer w = (.ok (some v), w) := by
    rw [runIn_caching, hget]
  unfold Endpoint.rows
  rw [hcache]
  change (caching (Cache.get c (.query q) table) >>= _).runIn m.answer w = _
  rw [runIn_bind_ok hcached]
  rfl

/-- Without a statement, looking for rows in the cache changes nothing that could be found. -/
theorem runIn_rows_unbuilt (hcache : e.cacheFor q = some c)
    (hkey : Cache.Target.key c table (.query q) = .ok key)
    (hbuilds : ∀ s, ¬ e.Builds table q s) (hnone : rowsFound? w.store m.now key = none) :
    ∃ f store, (e.rows table q).runIn m.answer w = (.error f, ⟨store, w.sent⟩) ∧
      ∀ t, Later m.now t → ∀ other, rowsFound? store t other = rowsFound? w.store t other := by
  have hnone : found? w.store m.now key = none := Option.map_eq_none_iff.mp hnone
  obtain ⟨store, hget, -, hsame⟩ := Cache.runIn_get hkey w.store m.now
  rw [hnone] at hget
  have hcached : (caching (Cache.get c (.query q) table)).runIn m.answer w =
      (.ok none, { w with store }) := by
    rw [runIn_caching, hget]
  obtain ⟨f, hexecute⟩ := runIn_execute_unbuilt (m := m) (w := { w with store }) hbuilds
  refine ⟨f, store, ?_, fun t hlater other => congrArg (Option.map rowsIn) (hsame t hlater other)⟩
  unfold Endpoint.rows
  rw [hcache]
  change (caching (Cache.get c (.query q) table) >>= _).runIn m.answer w = _
  rw [runIn_bind_ok hcached]
  exact runIn_bind_error hexecute

/-- Rows that are not found in the cache are those of the engine. They go into the cache for the
time that the query wants; under other keys nothing changes. -/
theorem runIn_rows_missed (hcache : e.cacheFor q = some c)
    (hkey : Cache.Target.key c table (.query q) = .ok key) (hsettings : q.cache = some settings)
    (hwanted : Cache.isWanted (.query q) = .ok true) (httl : settings.ttl.isDecimal = false)
    (hbuilds : e.Builds table q s) (hnone : rowsFound? w.store m.now key = none) :
    ∃ store, (e.rows table q).runIn m.answer w = (m.fetched s, ⟨store, w.sent ++ m.sends s⟩) ∧
      ∀ t, Later m.now t → ∀ other, rowsFound? store t other =
        if other = key then
          m.fetched s |>.toOption.bind fun rows =>
            if lives m.now settings.ttl t then recalledRows? rows else none
        else rowsFound? w.store t other := by
  have hnone : found? w.store m.now key = none := Option.map_eq_none_iff.mp hnone
  obtain ⟨store, hget, -, hsame⟩ := Cache.runIn_get hkey w.store m.now
  rw [hnone] at hget
  have hcached : (caching (Cache.get c (.query q) table)).runIn m.answer w =
      (.ok none, { w with store }) := by
    rw [runIn_caching, hget]
  have hexecute : (e.execute table q).runIn m.answer { w with store } =
      (m.fetched s, ⟨store, w.sent ++ m.sends s⟩) := runIn_execute hbuilds
  unfold Endpoint.rows
  rw [hcache]
  change ∃ _, (caching (Cache.get c (.query q) table) >>= _).runIn m.answer w = _ ∧ _
  rw [runIn_bind_ok hcached]
  cases hfetched : m.fetched s with
  | error f =>
    rw [hfetched] at hexecute
    refine ⟨store, runIn_bind_error hexecute, fun t hlater other => ?_⟩
    unfold rowsFound?
    rw [hsame t hlater other]
    split
    · rename_i hother
      rw [hother, Cache.found?_none_later hlater hnone]
      rfl
    · rfl
  | ok rows =>
    rw [hfetched] at hexecute
    change ∃ _, (e.execute table q >>= _).runIn m.answer { w with store } = _ ∧ _
    rw [runIn_bind_ok hexecute]
    obtain ⟨isWritten, store', hset, hvalues⟩ :=
      Cache.runIn_set hsettings hwanted httl hkey (dataOf rows) m.now store
    have hstored : (caching (Cache.set c (.query q) (dataOf rows) .null .null table)).runIn m.answer
        ⟨store, w.sent ++ m.sends s⟩ = (.ok isWritten, ⟨store', w.sent ++ m.sends s⟩) := by
      rw [runIn_caching, hset]
    refine ⟨store', runIn_bind_ok hstored, fun t hlater other => ?_⟩
    obtain ⟨_, -, hselected⟩ := sequence_eq_ok.mp hfetched
    have hproper := isProper_dataOf (m.outside.proper s rows hselected)
    have hempty : found? store m.now key = none :=
      (hsame m.now (Number.later_refl m.now) key).trans hnone
    unfold rowsFound?
    rw [Cache.found?_written hproper hempty hlater hvalues other, hsame t hlater other]
    split
    · rw [Except.toOption, Option.bind_some, ← recalled?_dataOf]
      split <;> rfl
    · rfl

/-- A query that passes its checks: its table may be queried, it is read, and it respects its
limits. -/
structure Passes (e : Endpoint) (table : String) (r : Request) (q : Query) : Prop where
  allowed : e.checkTable table "SELECT" = .ok ()
  read : r.query e.config = .ok q
  checked : q.check none = .ok ()

variable {r : Request} {store : KeyValue.Memory}

/-- The query of a request, if it passes its checks. -/
def passed (e : Endpoint) (table : String) (r : Request) : Except Fault Query := do
  e.checkTable table "SELECT"
  let q ← r.query e.config
  q.check none
  return q

theorem passed_eq_ok : e.passed table r = .ok q ↔ Passes e table r q := by
  unfold passed
  constructor
  · intro h
    obtain ⟨_, hallowed, h⟩ := sequence_eq_ok.mp h
    obtain ⟨q', hread, h⟩ := sequence_eq_ok.mp h
    obtain ⟨_, hchecked, h⟩ := sequence_eq_ok.mp h
    cases h
    exact ⟨hallowed, hread, hchecked⟩
  · intro h
    rw [h.allowed, ok_sequence, h.read, ok_sequence, h.checked]
    rfl

/-- What is answered for rows. -/
def served (e : Endpoint) (table : String) (user : Option User) (q : Query) (rows : List Record) :
    Serving (List Record) := do
  transformed q (← e.visible table rows user)

/-- A query is checked, and answered for its rows. -/
theorem query_eq (e : Endpoint) (table : String) (r : Request) (user : Option User) :
    e.query table r user =
      (liftM (e.passed table r) : Serving Query) >>= fun q =>
        e.rows table q >>= e.served table user q := by
  unfold query passed
  cases e.checkTable table "SELECT" with
  | error f => rfl
  | ok _ =>
    cases r.query e.config with
    | error f => rfl
    | ok q =>
      change ((liftM (q.check none) : Serving Unit) >>= fun _ => _) =
        (liftM (q.check none >>= fun _ => .ok q) : Serving Query) >>= _
      cases q.check none <;> rfl

/-- A query that passes its checks is answered for its rows. -/
theorem query_of_passes (hpasses : Passes e table r q) (user : Option User) :
    e.query table r user = e.rows table q >>= e.served table user q := by
  rw [query_eq, passed_eq_ok.mpr hpasses]
  rfl

/-- The same for an answer at a moment. -/
theorem ask_of_rows (hpasses : Passes e table r q) {found : Except Fault (List Record)}
    (hrows : (e.rows table q).runIn m.answer ⟨store, []⟩ = (found, w)) (user : Option User) :
    m.ask e table r user store = (found >>= m.judged e table user q, w) := by
  unfold Moment.ask
  rw [query_of_passes hpasses]
  cases found with
  | error f =>
    rw [runIn_bind_error hrows]
    rfl
  | ok rows =>
    rw [runIn_bind_ok hrows, ok_sequence, Moment.judged]
    unfold served
    have hvisible : (e.visible table rows user).runIn m.answer w =
        (m.authorized e table user rows, w) := runIn_visible
    cases hauthorized : m.authorized e table user rows with
    | error f =>
      rw [hauthorized] at hvisible
      rw [runIn_bind_error hvisible]
      rfl
    | ok kept =>
      rw [hauthorized] at hvisible
      rw [runIn_bind_ok hvisible, runIn_lift, ok_sequence]

/-- A query whose rows are found answers for them and sends nothing. -/
theorem ask_found (hpasses : Passes e table r q) (hcache : e.cacheFor q = some c)
    (hkey : Cache.Target.key c table (.query q) = .ok key) {rows : List Record}
    (hfound : rowsFound? store m.now key = some rows) (user : Option User) :
    m.ask e table r user store = (m.judged e table user q rows, ⟨store, []⟩) :=
  ask_of_rows hpasses (runIn_rows_found hcache hkey hfound) user

/-- A query that does not pass its checks changes nothing. -/
theorem ask_refused (hpasses : ∀ q, ¬ Passes e table r q) (m : Moment) (user : Option User)
    (store : KeyValue.Memory) :
    ∃ f, m.ask e table r user store = (.error f, ⟨store, []⟩) := by
  unfold Moment.ask
  rw [query_eq, runIn_bind_lift]
  cases hpassed : e.passed table r with
  | error f => exact ⟨f, rfl⟩
  | ok q => exact absurd (passed_eq_ok.mp hpassed) (hpasses q)

/-- What a query changes does not depend on who asks. -/
theorem site_ask (e : Endpoint) (m : Moment) (table : String) (r : Request)
    (user user' : Option User) (store : KeyValue.Memory) :
    (m.ask e table r user store).2 = (m.ask e table r user' store).2 := by
  by_cases hpasses : ∃ q, Passes e table r q
  · obtain ⟨q, hq⟩ := hpasses
    rw [ask_of_rows hq rfl, ask_of_rows hq rfl]
  · rw [not_exists] at hpasses
    obtain ⟨f, hf⟩ := ask_refused hpasses m user store
    obtain ⟨f', hf'⟩ := ask_refused hpasses m user' store
    rw [hf, hf']

end
end RowGate.Endpoint
