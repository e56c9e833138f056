import RowGate.Proofs.Cache.Effects
import RowGate.Proofs.Endpoint.Afresh
/-!
Queries that the cache has nothing for, beside the same queries without a cache, whatever the store
of the cache does. Main statement: both answer the same and leave the same outside of the cache,
unless the query has no key, or it cannot be told whether it is to be cached; these two fail.
-/
namespace RowGate.Cache

open Asking

variable {κ α : Type} (v : Surroundings Question Question.Answer κ) (k : κ)

/-- Something that is attempted does not fail, whatever the surroundings do. -/
theorem attempt_answers (x : Caching α) (message : String) (otherwise : α) :
    ∃ a k', (attempt x message otherwise).runIn v k = (.ok a, k') := by
  unfold attempt
  rw [runIn_bind_ok (runIn_outcome x k)]
  cases (x.runIn v k).1 with
  | ok a => exact ⟨a, _, rfl⟩
  | error f => exact ⟨otherwise, _, rfl⟩

variable {c : Config} {target : Target} {scope : String}

theorem get_answers {key : String} (hkey : target.key c scope = .ok key) :
    ∃ found k', (get c target scope).runIn v k = (.ok found, k') := by
  unfold get
  rw [runIn_bind_lift, hkey]
  exact attempt_answers v k _ _ _

theorem set_answers {ttl : Value} {plan : Option (String × Number)}
    (hplan : planned c target ttl scope = .ok plan) (data tags : Value) :
    ∃ done k', (set c target data ttl tags scope).runIn v k = (.ok done, k') := by
  rw [set_planned, runIn_bind_lift, hplan]
  rcases plan with - | ⟨key, t⟩
  · exact ⟨false, k, rfl⟩
  · exact attempt_answers v k _ _ _

theorem set_unplanned {ttl : Value} {f : Fault} (hplan : planned c target ttl scope = .error f)
    (data tags : Value) : set c target data ttl tags scope = throw f := by
  rw [set_planned, hplan]
  rfl

end RowGate.Cache

namespace RowGate.Endpoint

open Asking

/-- Questions that are not for the cache. -/
def Question.IsOutside : Question → Prop
  | .cache _ => False
  | _ => True

theorem Question.Advises.isOutside (q : Question) (h : q.Advises) : q.IsOutside := by
  match q, h with
  | .engine (.scalar _), _ | .engine (.indexes _), _ | .plan _, _ | .log _, _ => trivial

theorem Question.Judges.isOutside {table : String} (q : Question) (h : q.Judges table) :
    q.IsOutside := by
  match q, h with
  | .access _, _ => trivial

/-- A cache with a state of its own beside other surroundings. -/
def beside {κ τ : Type} (v : Surroundings Cache.Question Cache.Question.Answer κ)
    (w : Surroundings Question Question.Answer τ) : Surroundings Question Question.Answer (κ × τ)
  | .cache q, s => ((v q s.1).1, ((v q s.1).2, s.2))
  | q, s => ((w q s.2).1, (s.1, (w q s.2).2))

/-- The same endpoint without a cache. -/
def without (e : Endpoint) : Endpoint := { e with cache := none }

/-- The cache has something for a request. -/
def Hits {κ : Type} (e : Endpoint) (table : String) (r : Request)
    (v : Surroundings Cache.Question Cache.Question.Answer κ) (k : κ) : Prop :=
  ∃ q c found, Passes e table r q ∧ e.cacheFor q = some c ∧
    ((Cache.get c (.query q) table).runIn v k).1 = .ok (some found)

section

variable {κ τ α : Type} {v : Surroundings Cache.Question Cache.Question.Answer κ}
  {w : Surroundings Question Question.Answer τ}

/-- What asks the cache nothing runs as it does without it. -/
theorem run_outside {x : Script Question Question.Answer α} (hx : x.AsksOnly Question.IsOutside)
    (s : κ × τ) : x.run (beside v w) s = ((x.run w s.2).1, (s.1, (x.run w s.2).2)) := by
  induction x generalizing s with
  | done a => rfl
  | ask q next ih =>
    have hanswer : beside v w q s = ((w q s.2).1, (s.1, (w q s.2).2)) := by
      match q, hx.1 with
      | .access _, _ | .engine _, _ | .plan _, _ | .log _, _ => rfl
    rw [Script.run, hanswer, ih _ (hx.2 _)]
    rfl

theorem runIn_outside {x : Serving α} (hx : AsksOnly Question.IsOutside x) (s : κ × τ) :
    x.runIn (beside v w) s = ((x.runIn w s.2).1, (s.1, (x.runIn w s.2).2)) :=
  run_outside hx s

/-- The cache's part of the surroundings. -/
def cachePart : Script.Part (fun q s => ((beside v w (.cache q) s).1, (beside v w (.cache q) s).2))
    v where
  get s := s.1
  put s k := (k, s.2)
  put_get _ := rfl
  get_put _ _ := rfl
  put_put _ _ _ := rfl
  answers _ _ := rfl

theorem runIn_caching_beside (x : Cache.Caching α) (s : κ × τ) :
    (caching x).runIn (beside v w) s = ((x.runIn v s.1).1, ((x.runIn v s.1).2, s.2)) :=
  runIn_caching_part cachePart x s

variable {e : Endpoint} {table : String} {r : Request} {user : Option User} {q : Query} {c : Config}

theorem asksOnly_execute (table : String) (q : Query) :
    AsksOnly Question.IsOutside (e.execute table q) := by
  refine asksOnly_bind (asksOnly_noting (fun _ => trivial) _) fun s => ?_
  refine asksOnly_bind ⟨trivial, fun _ => trivial⟩ fun _ => ?_
  refine asksOnly_bind ((asksOnly_advise table q s).mono Question.Advises.isOutside) fun _ => ?_
  exact ⟨trivial, fun _ => trivial⟩

theorem asksOnly_served (rows : List Record) :
    AsksOnly Question.IsOutside (e.served table user q rows) :=
  asksOnly_bind (asksOnly_visible.mono Question.Judges.isOutside) fun _ => asksOnly_lift _

theorem passed_without : e.without.passed table r = e.passed table r := rfl

theorem passes_without (hpasses : Passes e table r q) : Passes e.without table r q := by
  rw [← passed_eq_ok, passed_without, passed_eq_ok]
  exact hpasses

theorem rows_without : e.without.rows table q = e.execute table q :=
  rows_uncached (ite_self none)

/-- Rows that the cache does not have are those of the engine, if it can be planned to cache them. -/
theorem runIn_rows_beside (hcache : e.cacheFor q = some c) {key : String}
    (hkey : Cache.Target.key c table (.query q) = .ok key) {s : κ × τ}
    (hmiss : ∀ found, ((Cache.get c (.query q) table).runIn v s.1).1 ≠ .ok (some found)) :
    ∃ k, (e.rows table q).runIn (beside v w) s =
      (((e.execute table q).runIn w s.2).1 >>= fun rows =>
        Cache.planned c (.query q) .null table >>= fun _ => .ok rows,
        (k, ((e.execute table q).runIn w s.2).2)) := by
  obtain ⟨found, k, hget⟩ := Cache.get_answers v s.1 hkey
  cases found with
  | some found => exact absurd (congrArg Prod.fst hget) (hmiss found)
  | none =>
    have hlooked : (caching (Cache.get c (.query q) table)).runIn (beside v w) s =
        (.ok none, (k, s.2)) := by
      rw [runIn_caching_beside, hget]
    have hexecute : (e.execute table q).runIn (beside v w) (k, s.2) =
        (((e.execute table q).runIn w s.2).1, (k, ((e.execute table q).runIn w s.2).2)) :=
      runIn_outside (asksOnly_execute table q) (k, s.2)
    unfold rows
    rw [hcache]
    change ∃ _, (caching (Cache.get c (.query q) table) >>= _).runIn (beside v w) s = _
    rw [runIn_bind_ok hlooked]
    change ∃ _, (e.execute table q >>= _).runIn (beside v w) (k, s.2) = _
    -- reading and writing cannot fail, so that only the engine and the plan can
    rcases hrun : (e.execute table q).runIn w s.2 with ⟨f | rows, t⟩ <;> rw [hrun] at hexecute
    · exact ⟨k, runIn_bind_error hexecute⟩
    · rw [runIn_bind_ok hexecute, ok_sequence]
      cases hplan : Cache.planned c (.query q) .null table with
      | error f =>
        refine ⟨k, runIn_bind_error ?_⟩
        rw [runIn_caching_beside, Cache.set_unplanned hplan]
        rfl
      | ok plan =>
        obtain ⟨done, k', hset⟩ := Cache.set_answers v k hplan (.list (rows.map .map)) .null
        refine ⟨k', runIn_bind_ok (a := done) ?_⟩
        rw [runIn_caching_beside, hset]

theorem not_found_of_not_hits {k : κ} (hmiss : ¬ e.Hits table r v k) (hpasses : Passes e table r q)
    (hcache : e.cacheFor q = some c) (found : Value) :
    ((Cache.get c (.query q) table).runIn v k).1 ≠ .ok (some found) :=
  fun hfound => hmiss ⟨q, c, found, hpasses, hcache, hfound⟩

theorem query_keyless (hpasses : Passes e table r q) (hcache : e.cacheFor q = some c) {f : Fault}
    (hkey : Cache.Target.key c table (.query q) = .error f) : e.query table r user = throw f := by
  rw [query_of_passes hpasses, rows_keyless hcache hkey]
  rfl

section

variable {key : String} {s : κ × τ}

theorem query_planned (hmiss : ¬ e.Hits table r v s.1) (hpasses : Passes e table r q)
    (hcache : e.cacheFor q = some c) (hkey : Cache.Target.key c table (.query q) = .ok key)
    {plan : Option (String × Number)} (hplan : Cache.planned c (.query q) .null table = .ok plan) :
    let cached := (e.query table r user).runIn (beside v w) s
    let uncached := (e.without.query table r user).runIn (beside v w) s
    cached.1 = uncached.1 ∧ cached.2.2 = uncached.2.2 := by
  intro cached uncached
  obtain ⟨k, hrows⟩ := runIn_rows_beside (w := w) hcache hkey
    (not_found_of_not_hits hmiss hpasses hcache)
  unfold cached uncached
  rw [query_of_passes hpasses, query_of_passes (passes_without hpasses), rows_without, runIn_bind,
    runIn_bind, hrows, runIn_outside (asksOnly_execute table q), hplan]
  rcases (e.execute table q).runIn w s.2 with ⟨f | rows, t⟩
  · exact ⟨rfl, rfl⟩
  · -- serving only judges, so that it makes no difference what the cache was left with
    have hserved : AsksOnly Question.IsOutside (e.served table user q rows) := asksOnly_served rows
    have hbare : AsksOnly Question.IsOutside (e.without.served table user q rows) :=
      asksOnly_served rows
    simp only [ok_sequence, runThen]
    rw [runIn_outside hserved, runIn_outside hbare]
    exact ⟨rfl, rfl⟩

theorem query_unplanned (hmiss : ¬ e.Hits table r v s.1) (hpasses : Passes e table r q)
    (hcache : e.cacheFor q = some c) (hkey : Cache.Target.key c table (.query q) = .ok key)
    {f : Fault} (hplan : Cache.planned c (.query q) .null table = .error f) :
    let cached := (e.query table r user).runIn (beside v w) s
    let executed := (e.execute table q).runIn (beside v w) s
    cached.1 = (executed.1 >>= fun _ => .error f) ∧ cached.2.2 = executed.2.2 := by
  intro cached executed
  obtain ⟨k, hrows⟩ := runIn_rows_beside (w := w) hcache hkey
    (not_found_of_not_hits hmiss hpasses hcache)
  unfold cached executed
  rw [query_of_passes hpasses, runIn_bind, hrows, runIn_outside (asksOnly_execute table q), hplan]
  rcases (e.execute table q).runIn w s.2 with ⟨f' | rows, t⟩ <;> exact ⟨rfl, rfl⟩

end

/-- A query that the cache has nothing for answers, fails and acts as it does without a cache,
whatever its store does. There are two exceptions: without a key it fails before anything is asked,
and where it cannot be told whether or how long it is to be cached it fails behind the engine's
rows. -/
theorem misses_answer_uncached (e : Endpoint) (table : String) (r : Request) (user : Option User)
    (v : Surroundings Cache.Question Cache.Question.Answer κ)
    (w : Surroundings Question Question.Answer τ) (s : κ × τ) (hmiss : ¬ e.Hits table r v s.1) :
    let cached := (e.query table r user).runIn (beside v w) s
    let uncached := (e.without.query table r user).runIn (beside v w) s
    ((∀ q c, Passes e table r q → e.cacheFor q = some c →
        (∃ key, Cache.Target.key c table (.query q) = .ok key) ∧
          ∃ plan, Cache.planned c (.query q) .null table = .ok plan) →
      cached.1 = uncached.1 ∧ cached.2.2 = uncached.2.2) ∧
    ∀ q c f, Passes e table r q → e.cacheFor q = some c →
      (Cache.Target.key c table (.query q) = .error f → cached = (.error f, s)) ∧
      ((∃ key, Cache.Target.key c table (.query q) = .ok key) →
        Cache.planned c (.query q) .null table = .error f →
          let executed := (e.execute table q).runIn (beside v w) s
          cached.1 = (executed.1 >>= fun _ => .error f) ∧ cached.2.2 = executed.2.2) := by
  intro cached uncached
  refine ⟨fun hplans => ?_, fun q c f hpasses hcache => ⟨fun hkey => ?_, ?_⟩⟩
  · cases hpassed : e.passed table r with
    | error f =>
      unfold cached uncached
      rw [query_eq, query_eq, passed_without, hpassed]
      exact ⟨rfl, rfl⟩
    | ok q =>
      have hpasses : Passes e table r q := passed_eq_ok.mp hpassed
      cases hcache : e.cacheFor q with
      | none =>
        unfold cached uncached
        rw [query_of_passes hpasses, query_of_passes (passes_without hpasses), rows_without,
          rows_uncached hcache]
        exact ⟨rfl, rfl⟩
      | some c =>
        obtain ⟨⟨key, hkey⟩, plan, hplan⟩ := hplans q c hpasses hcache
        exact query_planned hmiss hpasses hcache hkey hplan
  · unfold cached
    rw [query_keyless hpasses hcache hkey]
    rfl
  · rintro ⟨key, hkey⟩ hplan
    exact query_unplanned hmiss hpasses hcache hkey hplan

end

/-- A query with a key of its own. -/
def selfKeyed (condition : Option Formula) : Query :=
  { forMinute [] with cache := some ⟨.int 60, some "k", [], condition⟩ }

/-- A store that fails every call. -/
def broken : Surroundings Cache.Question Cache.Question.Answer Unit
  | .store call, s => (call.fail .outside, s)
  | .now, s => (.int 1000, s)
  | .log _, s => ((), s)

/-- Surroundings that are always the same. -/
def steady : Surroundings Question Question.Answer Unit :=
  fun q s => ((untouched.moment onePost).fixed q, s)

theorem not_hits_selfKeyed {κ : Type} {v : Surroundings Cache.Question Cache.Question.Answer κ} {k : κ}
    {condition : Option Formula}
    (hget : ((Cache.get .default (.query (selfKeyed condition)) "posts").runIn v k).1 = .ok none) :
    ¬ guarded.Hits "posts" (.read (selfKeyed condition)) v k := by
  rintro ⟨q, c, found, hpasses, hcache, hfound⟩
  obtain rfl := Except.ok.inj hpasses.read
  obtain rfl := Option.some.inj hcache
  rw [hget] at hfound
  cases hfound

theorem broken_store_unnoticed :
    ¬ guarded.Hits "posts" (.read (selfKeyed none)) broken () ∧
      ((guarded.query "posts" (.read (selfKeyed none)) none).runIn (beside broken steady) ((), ())).1 =
        .ok [[("id", .int 1)]] := by
  have hmiss : ¬ guarded.Hits "posts" (.read (selfKeyed none)) broken () := not_hits_selfKeyed (by cbv)
  have huncached : ((guarded.without.query "posts" (.read (selfKeyed none)) none).runIn
      (beside broken steady) ((), ())).1 = .ok [[("id", .int 1)]] := by cbv
  refine ⟨hmiss, ?_⟩
  rw [← huncached]
  refine ((misses_answer_uncached guarded "posts" (.read (selfKeyed none)) none broken steady ((), ())
    hmiss).1 fun q c hpasses hcache => ?_).1
  obtain rfl := Except.ok.inj hpasses.read
  obtain rfl := Option.some.inj hcache
  exact ⟨⟨_, rfl⟩, _, rfl⟩

/-- With a store in memory that works, a query fails whose condition does, and so does one without a
key; without a cache both are answered. -/
theorem undecided_query_fails :
    let surroundings := beside (Cache.overMemory (.int 1000)) steady
    let start : KeyValue.Memory × Unit := (.empty, ())
    ¬ guarded.Hits "posts" (.read (selfKeyed (some .failing))) (Cache.overMemory (.int 1000)) .empty ∧
      ((guarded.query "posts" (.read (selfKeyed (some .failing))) none).runIn surroundings start).1 =
        .error .outside ∧
      ((guarded.without.query "posts" (.read (selfKeyed (some .failing))) none).runIn
        surroundings start).1 = .ok [[("id", .int 1)]] ∧
      ((guarded.query "posts" (.read unformed) none).runIn surroundings start).1 =
        .error .wrongType ∧
      ((guarded.without.query "posts" (.read unformed) none).runIn surroundings start).1 =
        .ok [[("id", .int 1)]] := by
  have hcache : guarded.cacheFor unformed = some .default := rfl
  have hkey : Cache.Target.key .default "posts" (.query unformed) = .error .wrongType := by
    change Cache.queryText unformed >>= _ = _
    unfold unformed
    rw [queryText_foreign]
    rfl
  have hpasses : Passes guarded "posts" (.read unformed) unformed := passes_forMinute _
  refine ⟨not_hits_selfKeyed (by cbv), by cbv, by cbv, ?_, by cbv⟩
  rw [query_keyless hpasses hcache hkey]
  rfl

end RowGate.Endpoint
