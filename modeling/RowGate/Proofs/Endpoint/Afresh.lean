import Mathlib
import RowGate.Proofs.Access.Answered
import RowGate.Proofs.Endpoint.Moment
/-!
Runs of queries at one endpoint over a cache, among changes of the rules and the passing of time.
Main statement: in every run, a query answers with the rows of the latest miss that had its key, as
the cache gives them back while they live, and else with the rows that the engine has now, judged by
the rules that hold now for the user who asks now. A query whose text has no form in the interchange
format has no key, and fails.
-/
namespace RowGate.Endpoint

open Number (Later)
open Cache (lives)

/-- A query that was not answered from the cache: the rows that the engine had for it, the key and
the time to live that they were cached with, and when. -/
structure Miss where
  key : String
  ttl : Number
  time : Number
  rows : List Record

/-- The rows of a miss as the cache gives them back at a time. -/
def Miss.recalled? (x : Miss) (t : Number) : Option (List Record) :=
  if lives x.time x.ttl t then recalledRows? x.rows else none

/-- Where a run is: the rules, the time and the cache's store, and the misses so far, latest first. -/
structure Course where
  permissions : PermissionStore
  now : Number
  store : KeyValue.Memory
  misses : List Miss

namespace Course

/-- The moment in which a query meets an outside. -/
def moment (x : Course) (o : Outside) : Moment := ⟨x.permissions, x.now, o⟩

/-- The rows that the latest miss with a key gives back at a time. -/
def recalled? (x : Course) (t : Number) (key : String) : Option (List Record) :=
  (x.misses.find? (·.key == key)).bind (·.recalled? t)

/-- The miss that a query was, if a statement was sent for it and the engine had rows. -/
def miss? (x : Course) (e : Endpoint) (o : Outside) (table : String) (r : Request)
    (sent : List Sql.Select) : Option Miss := do
  let rows ← (o.engine (.select (← sent.head?))).toOption
  let q ← (r.query e.config).toOption
  let c ← e.cacheFor q
  let settings ← q.cache
  let key ← (Cache.Target.key c table (.query q)).toOption
  return ⟨key, settings.ttl, x.now, rows⟩

/-- What a query answers, and what it sends. -/
def ask (x : Course) (e : Endpoint) (o : Outside) (table : String) (r : Request)
    (user : Option User) : Except Fault (List Record) × Site :=
  (x.moment o).ask e table r user x.store

/-- The rows for a query that are found in the cache: those of the latest miss with its key. A query
that is not to be cached finds none, and one without a key fails. -/
def found? (x : Course) (e : Endpoint) (table : String) (q : Query) :
    Except Fault (Option (List Record)) :=
  match e.cacheFor q with
  | none => .ok none
  | some c => do return x.recalled? x.now (← Cache.Target.key c table (.query q))

/-- The run behind a query. -/
def behind (x : Course) (e : Endpoint) (o : Outside) (table : String) (r : Request)
    (user : Option User) : Course :=
  let site := (x.ask e o table r user).2
  { x with store := site.store, misses := (x.miss? e o table r site.sent).toList ++ x.misses }

end Course

/-- A query that does not say when it is to be cached, and whose time to live is an integer or a
float. -/
def IsPlain (q : Query) : Prop :=
  ∀ settings, q.cache = some settings → settings.condition = none ∧ settings.ttl.isDecimal = false

/-- The courses of runs: they start with nothing in the cache; queries are plain, and time does not
go back. -/
inductive Reached (e : Endpoint) : Course → Prop where
  | start (permissions : PermissionStore) (now : Number) : Reached e ⟨permissions, now, .empty, []⟩
  | query {x : Course} (h : Reached e x) (o : Outside) (table : String) (r : Request)
      (user : Option User) (hplain : ∀ q, r.query e.config = .ok q → IsPlain q) :
      Reached e (x.behind e o table r user)
  | grant {x : Course} (h : Reached e x) (table : String) (p : Permissions) :
      Reached e { x with permissions := x.permissions.insert table p }
  | revoke {x : Course} (h : Reached e x) (table : String) :
      Reached e { x with permissions := x.permissions.erase table }
  | wait {x : Course} (h : Reached e x) (now : Number) (hnow : x.now.atMost now = true) :
      Reached e { x with now }

/-- The store gives back, now and later, what the latest misses do. -/
def Course.Faithful (x : Course) : Prop :=
  ∀ t, Later x.now t → ∀ key, rowsFound? x.store t key = x.recalled? t key

section

variable {e : Endpoint} {c : Config} {x : Course} {o : Outside} {table : String} {r : Request}
  {user : Option User} {q : Query} {key : String} {settings : CacheSettings} {s : Sql.Select}

theorem cacheFor_eq (h : e.cacheFor q = some c) :
    e.cache = some c ∧ ∃ settings, q.cache = some settings := by
  unfold cacheFor at h
  split at h
  · rename_i hwanted
    exact ⟨h, Option.isSome_iff_exists.mp hwanted⟩
  · cases h

theorem IsPlain.isWanted (h : IsPlain q) (hsettings : q.cache = some settings) :
    Cache.isWanted (.query q) = .ok true := by
  simp only [Cache.isWanted, hsettings, (h settings hsettings).1]

theorem rowsFound?_none_later {store : KeyValue.Memory} {now t : Number} (hlater : Later now t)
    (h : rowsFound? store now key = none) : rowsFound? store t key = none :=
  Option.map_eq_none_iff.mpr (Cache.found?_none_later hlater (Option.map_eq_none_iff.mp h))

/-- A query that was not answered from the cache is a miss if the engine had rows. -/
theorem miss?_sends (hpasses : Passes e table r q) (hcache : e.cacheFor q = some c)
    (hsettings : q.cache = some settings)
    (hkey : Cache.Target.key c table (.query q) = .ok key) :
    x.miss? e o table r ((x.moment o).sends s) =
      ((x.moment o).fetched s).toOption.map fun rows => ⟨key, settings.ttl, x.now, rows⟩ := by
  unfold Course.miss? Moment.sends Moment.fetched Course.moment
  cases o.engine .connect with
  | error f => rfl
  | ok _ =>
    rw [hpasses.read]
    simp only [List.head?_cons, ok_sequence, Except.toOption, Option.bind_eq_bind, Option.bind_some,
      hcache, hsettings, hkey]
    cases o.engine (.select s) <;> rfl

/-- A query that the cache has nothing to do with is no miss. -/
theorem miss?_uncached (hpasses : Passes e table r q) (hcache : e.cacheFor q = none)
    (sent : List Sql.Select) : x.miss? e o table r sent = none := by
  unfold Course.miss?
  rw [hpasses.read]
  simp only [Except.toOption, Option.bind_eq_bind, Option.bind_some, hcache, Option.bind_none,
    Option.bind_fun_none]

/-- The course behind a query by what the query changed. -/
theorem behind_eq {store : KeyValue.Memory} {sent : List Sql.Select}
    (hsite : (x.ask e o table r user).2 = ⟨store, sent⟩) :
    x.behind e o table r user =
      { x with store, misses := (x.miss? e o table r sent).toList ++ x.misses } := by
  unfold Course.behind
  rw [hsite]

/-- A query that is no miss leaves the store faithful if what is found there stays. -/
theorem Course.Faithful.unmissed (h : x.Faithful) {store : KeyValue.Memory}
    {sent : List Sql.Select} (hsite : (x.ask e o table r user).2 = ⟨store, sent⟩)
    (hmiss : x.miss? e o table r sent = none)
    (hsame : ∀ t, Later x.now t → ∀ key, rowsFound? store t key = rowsFound? x.store t key) :
    (x.behind e o table r user).Faithful := by
  rw [behind_eq hsite, hmiss]
  exact fun t hlater key => (hsame t hlater key).trans (h t hlater key)

/-- The course behind a query whose rows are not found: what the engine had is the latest miss. -/
theorem behind_missed (hpasses : Passes e table r q) (hcache : e.cacheFor q = some c)
    (hkey : Cache.Target.key c table (.query q) = .ok key) (hsettings : q.cache = some settings)
    (hplain : IsPlain q) (hbuilds : e.Builds table q s)
    (hnone : rowsFound? x.store x.now key = none) (o : Outside) (user : Option User) :
    ∃ store, x.behind e o table r user = { x with
        store
        misses := (((x.moment o).fetched s).toOption.map fun rows =>
          (⟨key, settings.ttl, x.now, rows⟩ : Miss)).toList ++ x.misses } ∧
      ∀ t, Later x.now t → ∀ other, rowsFound? store t other =
        if other = key then
          (((x.moment o).fetched s).toOption.bind fun rows =>
            if lives x.now settings.ttl t then recalledRows? rows else none)
        else rowsFound? x.store t other := by
  have httl := (hplain settings hsettings).2
  obtain ⟨store, hrun, hfound⟩ := runIn_rows_missed (m := x.moment o) (w := ⟨x.store, []⟩)
    hcache hkey hsettings (hplain.isWanted hsettings) httl hbuilds hnone
  have hsite : (x.ask e o table r user).2 = ⟨store, (x.moment o).sends s⟩ :=
    congrArg Prod.snd (ask_of_rows hpasses hrun user)
  refine ⟨store, ?_, hfound⟩
  rw [behind_eq hsite, miss?_sends hpasses hcache hsettings hkey]

/-- A miss that was cached leaves the store faithful, and so does one that failed. -/
theorem Course.Faithful.missed (h : x.Faithful) (hpasses : Passes e table r q)
    (hcache : e.cacheFor q = some c) (hkey : Cache.Target.key c table (.query q) = .ok key)
    (hplain : IsPlain q) (hbuilds : e.Builds table q s)
    (hnone : rowsFound? x.store x.now key = none) : (x.behind e o table r user).Faithful := by
  obtain ⟨-, settings, hsettings⟩ := cacheFor_eq hcache
  obtain ⟨store, hbehind, hfound⟩ :=
    behind_missed hpasses hcache hkey hsettings hplain hbuilds hnone o user
  rw [hbehind]
  intro t hlater other
  change rowsFound? store t other = _
  rw [hfound t hlater other]
  unfold Course.recalled?
  cases (x.moment o).fetched s with
  | error f =>
    split
    · rename_i hother
      have hlost := rowsFound?_none_later hlater hnone
      rw [h t hlater key] at hlost
      rw [hother]
      exact hlost.symm
    · exact h t hlater other
  | ok rows =>
    simp only [Except.toOption, Option.bind_some, Option.map_some, Option.toList_some,
      List.singleton_append]
    split
    · rename_i hother
      rw [List.find?_cons_of_pos (by simp [hother])]
      rfl
    · rename_i hother
      rw [List.find?_cons_of_neg (by simpa using Ne.symm hother)]
      exact h t hlater other

/-- Every query leaves the store faithful. -/
theorem Course.Faithful.behind (h : x.Faithful)
    (hplain : ∀ q, r.query e.config = .ok q → IsPlain q) :
    (x.behind e o table r user).Faithful := by
  have hsite {found : Except Fault (List Record)} {w' : Site} {q : Query}
      (hpasses : Passes e table r q)
      (hrows : (e.rows table q).runIn (x.moment o).answer ⟨x.store, []⟩ = (found, w')) :
      (x.ask e o table r user).2 = w' :=
    congrArg Prod.snd (ask_of_rows hpasses hrows user)
  by_cases hpasses : ∃ q, Passes e table r q
  · obtain ⟨q, hq⟩ := hpasses
    cases hcache : e.cacheFor q with
    | none =>
      have hmiss := miss?_uncached (x := x) (o := o) hq hcache
      by_cases hbuilds : ∃ s, e.Builds table q s
      · obtain ⟨s, hs⟩ := hbuilds
        exact h.unmissed (hsite hq ((rows_uncached hcache) ▸ runIn_execute hs)) (hmiss _)
          fun _ _ _ => rfl
      · obtain ⟨f, hf⟩ := runIn_execute_unbuilt (m := x.moment o) (w := ⟨x.store, []⟩)
          (not_exists.mp hbuilds)
        exact h.unmissed (hsite hq ((rows_uncached hcache) ▸ hf)) (hmiss _) fun _ _ _ => rfl
    | some c =>
      cases hkey : Cache.Target.key c table (.query q) with
      | error f => exact h.unmissed (hsite hq (runIn_rows_keyless hcache hkey)) rfl fun _ _ _ => rfl
      | ok key =>
        cases hfound : rowsFound? x.store x.now key with
        | some rows =>
          exact h.unmissed (hsite hq (runIn_rows_found hcache hkey hfound)) rfl fun _ _ _ => rfl
        | none =>
          by_cases hbuilds : ∃ s, e.Builds table q s
          · obtain ⟨s, hs⟩ := hbuilds
            exact h.missed hq hcache hkey (hplain q hq.read) hs hfound
          · obtain ⟨f, store, hrun, hsame⟩ := runIn_rows_unbuilt (m := x.moment o)
              (w := ⟨x.store, []⟩) hcache hkey (not_exists.mp hbuilds) hfound
            exact h.unmissed (hsite hq hrun) rfl hsame
  · obtain ⟨f, hf⟩ := ask_refused (not_exists.mp hpasses) (x.moment o) user x.store
    exact h.unmissed (congrArg Prod.snd hf) rfl fun _ _ _ => rfl

/-- In every run the store is faithful. -/
theorem Reached.faithful (h : Reached e x) : x.Faithful := by
  induction h with
  | start permissions now => exact fun _ _ _ => rfl
  | query h o table r user hplain ih => exact ih.behind hplain
  | grant h table p ih => exact ih
  | revoke h table ih => exact ih
  | wait h now hnow ih => exact fun t hlater key => ih t (Later.trans (.inr hnow) hlater) key

/-- In every run, a query that passes its checks and has a statement is judged and transformed by
the rules that hold when it is asked, for the user who asks: the rows of the latest miss with its
key, as the cache gives them back while they live, without a statement being sent, and else those
that the engine has for the one statement that is sent. Only a query without a key fails before.
What comes behind does not depend on who asks, denied or not. -/
theorem cached_reads_judged_afresh {x : Course} (hreached : Reached e x) (o : Outside)
    (user : Option User) (hpasses : Passes e table r q) (hplain : IsPlain q)
    (hbuilds : e.Builds table q s) :
    (∀ f, x.found? e table q = .error f → x.ask e o table r user = (.error f, ⟨x.store, []⟩)) ∧
      (∀ rows, x.found? e table q = .ok (some rows) →
        x.ask e o table r user = ((x.moment o).judged e table user q rows, ⟨x.store, []⟩)) ∧
      (x.found? e table q = .ok none →
        (x.ask e o table r user).1 = (x.moment o).fetched s >>= (x.moment o).judged e table user q ∧
          (x.ask e o table r user).2.sent = (x.moment o).sends s) ∧
      ∀ other, x.behind e o table r other = x.behind e o table r user := by
  have hfaithful (key : String) : rowsFound? x.store x.now key = x.recalled? x.now key :=
    hreached.faithful x.now (Number.later_refl x.now) key
  have hask {found : Except Fault (List Record)} {w : Site}
      (hrows : (e.rows table q).runIn (x.moment o).answer ⟨x.store, []⟩ = (found, w)) :
      x.ask e o table r user = (found >>= (x.moment o).judged e table user q, w) :=
    ask_of_rows hpasses hrows user
  have hsame (other : Option User) : x.behind e o table r other = x.behind e o table r user := by
    have hsite : (x.ask e o table r other).2 = (x.ask e o table r user).2 := site_ask ..
    unfold Course.behind
    rw [hsite]
  cases hcache : e.cacheFor q with
  | none =>
    have hnever : x.found? e table q = .ok none := by
      unfold Course.found?
      rw [hcache]
    rw [hnever]
    refine ⟨nofun, nofun, fun _ => ?_, hsame⟩
    rw [hask ((rows_uncached hcache) ▸ runIn_execute hbuilds)]
    exact ⟨rfl, rfl⟩
  | some c =>
    have hlooked : x.found? e table q =
        Cache.Target.key c table (.query q) >>= fun key => .ok (x.recalled? x.now key) := by
      unfold Course.found?
      rw [hcache]
      rfl
    rw [hlooked]
    cases hkey : Cache.Target.key c table (.query q) with
    | error f =>
      refine ⟨fun g hg => ?_, nofun, nofun, hsame⟩
      cases hg
      exact hask (runIn_rows_keyless hcache hkey)
    | ok key =>
      refine ⟨nofun, fun rows hrows => ?_, fun hnone => ?_, hsame⟩
      · have hfound := (hfaithful key).trans (Except.ok.inj hrows)
        exact hask (runIn_rows_found hcache hkey hfound)
      · obtain ⟨-, settings, hsettings⟩ := cacheFor_eq hcache
        have httl := (hplain settings hsettings).2
        have hfound := (hfaithful key).trans (Except.ok.inj hnone)
        obtain ⟨store, hrun, -⟩ := runIn_rows_missed (m := x.moment o) (w := ⟨x.store, []⟩)
          hcache hkey hsettings (hplain.isWanted hsettings) httl hbuilds hfound
        rw [hask hrun]
        exact ⟨rfl, rfl⟩

end
/-- An endpoint with a gate and a cache. -/
def guarded : Endpoint where
  config := .default
  gate := some .default
  cache := some .default
  catalog := []
  planner := .absent
  keyColumn := "id"

/-- An outside where every table has the same post. -/
def onePost : Outside where
  engine
    | .connect => .ok ()
    | .select _ => .ok [[("id", .int 1)]]
    | _ => .error .outside
  plan _ := .error .outside
  holds _ _ _ := .ok false
  proper s rows h row hrow := by
    obtain rfl := Except.ok.inj h
    rw [List.mem_singleton.mp hrow]
    decide

/-- A query whose answer is kept for a minute. -/
def forMinute (filter : Record) : Query :=
  { Query.empty (some (.int 10)) with filter := filter, cache := some ⟨.int 60, none, [], none⟩ }

theorem isPlain_forMinute (filter : Record) : IsPlain (forMinute filter) := by
  intro settings h
  obtain rfl := Option.some.inj h
  exact ⟨rfl, rfl⟩

theorem exists_builds {e : Endpoint} {table : String} {q : Query}
    (h : (Logged.run do Sql.build e.catalog table (← q.compile)).1.isOk = true) :
    ∃ s, e.Builds table q s := by
  unfold Builds
  cases hbuilt : (Logged.run do Sql.build e.catalog table (← q.compile)).1 with
  | ok s => exact ⟨s, rfl⟩
  | error f =>
    rw [hbuilt] at h
    cases h

theorem toValue_eq (q : Query) : q.toValue =
    .map (q.fieldsWith (tablesToValues q.tables) (recursiveTablesToValues q.recursiveTables)) := by
  cases q
  rw [Query.toValue]

theorem toValue_forMinute (filter : Record) :
    (forMinute filter).toValue = .map ((forMinute filter).fieldsWith [] []) := by
  have htables : (forMinute filter).tables = [] := rfl
  have hrecursive : (forMinute filter).recursiveTables = [] := rfl
  rw [toValue_eq, htables, hrecursive, tablesToValues, recursiveTablesToValues]

theorem queryText_foreign : Cache.queryText (forMinute [("a", .foreign)]) = .error .wrongType := by
  unfold Cache.queryText
  rw [toValue_forMinute]
  unfold Query.fieldsWith
  cbv

/-- The key of that query on posts, if nothing is filtered. -/
def minuteKey : String :=
  "query:posts:\x7b\"cache\": \x7b\"ttl\": 60\x7d, \"limit\": 10, \"offset\": 0\x7d"

theorem key_forMinute :
    Cache.Target.key .default "posts" (.query (forMinute [])) = .ok minuteKey := by
  have htext : Cache.queryText (forMinute []) =
      .ok "\x7b\"cache\": \x7b\"ttl\": 60\x7d, \"limit\": 10, \"offset\": 0\x7d" := by
    unfold Cache.queryText
    rw [toValue_forMinute]
    unfold Query.fieldsWith
    cbv
  change (Cache.queryText (forMinute []) >>= Cache.behind (.text "query:posts:")) = _
  rw [htext]
  with_unfolding_all rfl

theorem builds_forMinute : ∃ s, guarded.Builds "posts" (forMinute []) s :=
  exists_builds (by with_unfolding_all rfl)

/-- A run before anything is asked, where everybody may read posts. -/
def untouched : Course := ⟨Entries.empty.insert "posts" .default, .int 1000, .empty, []⟩

/-- A run behind a query by a visitor, and then rules that let nobody read posts. -/
def closed : Course :=
  let x := untouched.behind guarded onePost "posts" (.read (forMinute [])) (some Access.visitor)
  { x with permissions := x.permissions.insert "posts" ⟨[(.select, [.nobody])]⟩ }

theorem reached_closed : Reached guarded closed := by
  refine .grant (.query (.start _ _) onePost "posts" _ _ ?_) "posts" _
  intro q h
  obtain rfl := Except.ok.inj h
  exact isPlain_forMinute []

theorem passes_forMinute (filter : Record) :
    Passes guarded "posts" (.read (forMinute filter)) (forMinute filter) :=
  ⟨by cbv, rfl, rfl⟩

theorem found?_forMinute (x : Course) : x.found? guarded "posts" (forMinute []) =
    .ok (x.recalled? x.now minuteKey) := by
  change Cache.Target.key .default "posts" (.query (forMinute [])) >>= _ = _
  rw [key_forMinute]
  rfl

theorem misses_closed :
    closed.misses = [⟨minuteKey, .int 60, .int 1000, [[("id", .int 1)]]⟩] := by
  obtain ⟨s, hs⟩ := builds_forMinute
  obtain ⟨store, hbehind, -⟩ := behind_missed (x := untouched) (passes_forMinute []) rfl
    key_forMinute rfl (isPlain_forMinute []) hs rfl onePost (some Access.visitor)
  unfold closed
  rw [hbehind]
  rfl

theorem post_denied_from_cache :
    closed.ask guarded onePost "posts" (.read (forMinute [])) (some Access.visitor) =
      (.error (.denied "posts" "SELECT" Access.visitor.shown none), ⟨closed.store, []⟩) := by
  obtain ⟨s, hs⟩ := builds_forMinute
  have hfound : closed.found? guarded "posts" (forMinute []) = .ok (some [[("id", .int 1)]]) := by
    have hnow : closed.now = .int 1000 := rfl
    rw [found?_forMinute, hnow, Course.recalled?, misses_closed]
    cbv
  have hdenied : (closed.moment onePost).authorized guarded "posts" (some Access.visitor)
      [[("id", .int 1)]] = .error (.denied "posts" "SELECT" Access.visitor.shown none) := by
    have hstored : Access.stored? (closed.moment onePost).judging "posts" .select =
        some [.nobody] := rfl
    change Asking.result _ (Access.authorizeRows .default "posts" Action.select.name _ _) = _
    rw [Access.result_authorizeRows hstored, Access.result_checkRules_eq]
    rfl
  rw [(cached_reads_judged_afresh reached_closed onePost (some Access.visitor)
    (passes_forMinute []) (isPlain_forMinute []) hs).2.1 _ hfound, Moment.judged, hdenied]
  rfl

/-- A query with a value that has no form in the interchange format. -/
def unformed : Query := forMinute [("a", .foreign)]

theorem unformed_query_fails :
    Passes guarded "posts" (.read unformed) unformed ∧ (∃ s, guarded.Builds "posts" unformed s) ∧
      Cache.ownKey? unformed = none ∧ IsPlain unformed ∧ Reached guarded untouched ∧
      untouched.ask guarded onePost "posts" (.read unformed) none =
        (.error .wrongType, ⟨untouched.store, []⟩) ∧
      ∀ s, (untouched.moment onePost).fetched s >>=
        (untouched.moment onePost).judged guarded "posts" none unformed =
          .ok [[("id", .int 1)]] := by
  have hkey : Cache.Target.key .default "posts" (.query unformed) = .error .wrongType := by
    change Cache.queryText unformed >>= _ = _
    unfold unformed
    rw [queryText_foreign]
    rfl
  refine ⟨passes_forMinute _, exists_builds (by cbv), rfl, isPlain_forMinute _, .start _ _, ?_,
    fun s => rfl⟩
  have hcache : guarded.cacheFor unformed = some .default := rfl
  have hpasses : Passes guarded "posts" (.read unformed) unformed := passes_forMinute _
  have hrows := runIn_rows_keyless (m := untouched.moment onePost) (w := ⟨untouched.store, []⟩)
    hcache hkey
  unfold Course.ask
  rw [ask_of_rows hpasses hrows, error_sequence]

end RowGate.Endpoint
