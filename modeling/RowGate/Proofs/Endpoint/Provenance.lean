import Mathlib
import RowGate.Proofs.Cache.Scope
import RowGate.Proofs.Endpoint.Reads
import RowGate.Proofs.Endpoint.Stores
/-!
Where the rows of many calls over one cache stem from. Main statements: every text that is put into
the store holds what the engine answered to the statement of a call, and every answer of a call
stems from such a statement, for its own table unless a query names its key. Calls interleave.
-/
namespace RowGate.Endpoint

open Asking

/-- A query that somebody puts to an endpoint. -/
structure Visit where
  endpoint : Endpoint
  table : String
  request : Request
  user : Option User

/-- The call of a visit. -/
def Visit.call (v : Visit) : Serving (List Record) := v.endpoint.query v.table v.request v.user

variable {ι : Type}

/-- A list split at something that is not in its first part. -/
theorem append_of_notMem {α : Type} {xs ys front rest : List α} {y : α}
    (h : xs ++ ys = front ++ y :: rest) (hy : y ∉ xs) : ∃ more, front = xs ++ more := by
  rcases List.append_eq_append_iff.mp h with ⟨zs, rfl, -⟩ | ⟨zs, rfl, hrest⟩
  · exact ⟨zs, rfl⟩
  · cases zs with
    | nil => exact ⟨[], by simp⟩
    | cons z zs =>
      rw [(List.cons.inj hrest).1] at hy
      exact absurd (List.mem_append_right _ List.mem_cons_self) hy

/-- A list split at something that is not in its second part. -/
theorem split_of_notMem {α : Type} {xs ys front rest : List α} {y : α}
    (h : xs ++ ys = front ++ y :: rest) (hy : y ∉ ys) : ∃ more, xs = front ++ y :: more := by
  rcases List.append_eq_append_iff.mp h with ⟨zs, -, hrest⟩ | ⟨zs, rfl, hrest⟩
  · rw [hrest] at hy
    exact absurd (List.mem_append_right _ List.mem_cons_self) hy
  · cases zs with
    | nil =>
      rw [List.nil_append] at hrest
      rw [← hrest] at hy
      exact absurd List.mem_cons_self hy
    | cons z zs =>
      rw [(List.cons.inj hrest).1]
      exact ⟨zs, rfl⟩

section

variable {e : Endpoint} {table : String} {q : Query}
  {h before after : List (Exchange Question.Answer)} {r : Except Fault (List Record)}
  {key text : String} {ttl : Option Number} {answer : Except Fault Unit}

/-- On the way to rows, a text is put into the store only behind the statement for the query, and
holds the rows that the engine answered. -/
theorem RowsRun.select_before_put (hrun : RowsRun e table q h r)
    (hput : h = before ++ ⟨.cache (.store (.set key text ttl)), answer⟩ :: after) :
    ∃ s rows, e.Builds table q s ∧ ⟨.engine (.select s), .ok rows⟩ ∈ before ∧
      e.Stores table q (.ok rows) key text := by
  have hmem : ⟨.cache (.store (.set key text ttl)), answer⟩ ∈ h := by
    rw [hput]
    exact List.mem_append_right _ List.mem_cons_self
  cases hrun with
  | failed haside => exact (haside _ hmem).elim
  | cached _ _ _ _ haside => exact (haside _ hmem).elim
  | executed hbuilds hbefore hafter hsame =>
    rename_i first later s found
    rw [List.append_cons] at hput hmem
    have hput_first : ⟨.cache (.store (.set key text ttl)), answer⟩ ∉
        first ++ [⟨.engine (.select s), found⟩] := by
      rw [List.mem_append, List.mem_singleton]
      rintro (hfirst | heq)
      · exact hbefore _ hfirst
      · cases heq
    obtain ⟨more, rfl⟩ := append_of_notMem hput hput_first
    have hlater := (List.mem_append.mp hmem).resolve_left hput_first
    have hstores : e.Stores table q found key text := hafter _ hlater
    obtain ⟨c, rows, ends, hcache, hkey, rfl, htext⟩ := hstores
    exact ⟨s, rows, hbuilds, by simp, c, rows, ends, hcache, hkey, rfl, htext⟩

/-- In a whole call nothing else is put into the store. -/
theorem QueryRun.select_before_put {request : Request} {user : Option User}
    (hrun : QueryRun e table request user h r)
    (hput : h = before ++ ⟨.cache (.store (.set key text ttl)), answer⟩ :: after) :
    ∃ q s rows, request.query e.config = .ok q ∧ e.Builds table q s ∧
      ⟨.engine (.select s), .ok rows⟩ ∈ before ∧ e.Stores table q (.ok rows) key text := by
  cases hrun with
  | refused => simp at hput
  | failed _ hquery hrows =>
    obtain ⟨s, rows, hbuilds, hselect, hstores⟩ := hrows.select_before_put hput
    exact ⟨_, s, rows, hquery, hbuilds, hselect, hstores⟩
  | judged htable hquery hrows hjudged hkept =>
    obtain ⟨more, rfl⟩ := split_of_notMem hput fun hmem => (hjudged _ hmem).elim
    obtain ⟨s, rows, hbuilds, hselect, hstores⟩ := hrows.select_before_put rfl
    exact ⟨_, s, rows, hquery, hbuilds, hselect, hstores⟩

end

section

variable [DecidableEq ι]

/-- What belongs to one of many calls. -/
def own (i : ι) (events : List (Event ι)) : List (Exchange Question.Answer) :=
  (events.filter (·.1 = i)).map (·.2)

theorem own_append (i : ι) (xs ys : List (Event ι)) : own i (xs ++ ys) = own i xs ++ own i ys := by
  simp [own]

theorem own_cons_self (i : ι) (x : Exchange Question.Answer) (events : List (Event ι)) :
    own i ((i, x) :: events) = x :: own i events := by
  simp [own]

theorem mem_own {i : ι} {x : Exchange Question.Answer} {events : List (Event ι)} :
    x ∈ own i events ↔ (i, x) ∈ events := by
  simp [own]

variable (ι) in
/-- Visits at endpoints that share one cache. Each of their events is one of a visit, the events of
a visit begin a conversation of its call, and the cache's store finds only what was put there. -/
structure Run where
  visits : ι → Visit
  cache : Config
  events : List (Event ι)
  shared : ∀ i, (visits i).endpoint.cache = some cache
  underWay : ∀ i, ∃ rest r, Talks (visits i).call (own i events ++ rest) r
  handsBack : HandsBack events

/-- A visit's query is `q`, and the engine answered the statement for it on the visit's table. -/
def Run.Reads (run : Run ι) (i : ι) (q : Query) (rows : List Record) : Prop :=
  (run.visits i).request.query (run.visits i).endpoint.config = .ok q ∧
    ∃ s, (run.visits i).endpoint.Builds (run.visits i).table q s ∧
      (i, ⟨.engine (.select s), .ok rows⟩) ∈ run.events

/-- Rows that the cache gives back for other rows. -/
def Recalled (rows found : List Record) : Prop :=
  ∃ ends text t v, Cache.enclose ends (.list (rows.map .map)) = .ok text ∧
    Cache.contentOf t text = .ok (.data v) ∧ found = rowsIn v

variable {run : Run ι}

theorem Run.cacheFor_eq (run : Run ι) {i : ι} {q : Query} {c : Config}
    (h : (run.visits i).endpoint.cacheFor q = some c) : run.cache = c := by
  unfold cacheFor at h
  split at h
  · exact Option.some.inj ((run.shared i).symm.trans h)
  · cases h

/-- What is put into the store are the rows of a statement for the visit that puts it, under the key
of its query. -/
theorem Run.reads_of_puts {i : ι} {key text : String} (hput : Puts run.events i key text) :
    ∃ q rows ends, run.Reads i q rows ∧
      Cache.Target.key run.cache (run.visits i).table (.query q) = .ok key ∧
      Cache.enclose ends (.list (rows.map .map)) = .ok text := by
  obtain ⟨ttl, answer, hmem⟩ := hput
  obtain ⟨before, after, hevents⟩ := List.append_of_mem hmem
  obtain ⟨rest, r, htalk⟩ := run.underWay i
  rw [hevents, own_append, own_cons_self, List.append_assoc, List.cons_append] at htalk
  obtain ⟨q, s, rows, hquery, hbuilds, hselect, c, rows', ends, hcache, hkey, hrows, htext⟩ :=
    (talks_query htalk).select_before_put rfl
  cases hrows
  refine ⟨q, rows, ends, ⟨hquery, s, hbuilds, ?_⟩, ?_, htext⟩
  · rw [hevents]
    exact List.mem_append_left _ (mem_own.mp hselect)
  · rw [run.cacheFor_eq hcache]
    exact hkey

/-- Two visits with one key are for one table, unless a query names its key. -/
theorem Run.table_eq_of_key {i j : ι} {q q' : Query} {key : String} (hown : Cache.ownKey? q = none)
    (hown' : Cache.ownKey? q' = none)
    (hkey : Cache.Target.key run.cache (run.visits i).table (.query q) = .ok key)
    (hkey' : Cache.Target.key run.cache (run.visits j).table (.query q') = .ok key) :
    (run.visits j).table = (run.visits i).table :=
  (Cache.keyOf_inj hown' hown hkey' hkey).1

/-- Where a visit has its rows from: from a statement of its own, or from the one of a visit whose
query has the same key. -/
theorem Run.reads_of_rows {i : ι} {q : Query} {h : List (Exchange Question.Answer)}
    {found : List Record}
    (hquery : (run.visits i).request.query (run.visits i).endpoint.config = .ok q)
    (hsub : ∀ x ∈ h, x ∈ own i run.events)
    (hrows : RowsRun (run.visits i).endpoint (run.visits i).table q h (.ok found)) :
    run.Reads i q found ∨ ∃ j q' read, run.Reads j q' read ∧ Recalled read found ∧
      ∃ key, Cache.Target.key run.cache (run.visits i).table (.query q) = .ok key ∧
        Cache.Target.key run.cache (run.visits j).table (.query q') = .ok key := by
  cases hrows with
  | cached hcache hkey hget hdata haside =>
    rename_i c key text t v
    obtain ⟨before, after, hevents⟩ := List.append_of_mem (mem_own.mp (hsub _ hget))
    obtain ⟨j, hput⟩ := run.handsBack before i key text after hevents
    have hput : Puts run.events j key text := by
      rw [hevents]
      exact hput.append _
    obtain ⟨q', read, ends, hreads, hkey', htext⟩ := run.reads_of_puts hput
    rw [← run.cacheFor_eq hcache] at hkey
    exact .inr ⟨j, q', read, hreads, ⟨ends, text, t, v, htext, hdata, rfl⟩, key, hkey, hkey'⟩
  | executed hbuilds hbefore hafter hsame =>
    rename_i before after s answer
    obtain rfl := hsame found rfl
    have hselect := hsub _ (List.mem_append_right _ List.mem_cons_self)
    exact .inl ⟨hquery, s, hbuilds, mem_own.mp hselect⟩

/-- What a finished visit returns are, before its transforms, rows that the engine answered to a
statement of a visit on the same table, or of one with the same key where a query names its key. -/
theorem answers_stem_from_table {i : ι} {rows : List Record}
    (hdone : Talks (run.visits i).call (own i run.events) (.ok rows)) :
    ∃ q kept found, (run.visits i).request.query (run.visits i).endpoint.config = .ok q ∧
      transformed q kept = .ok rows ∧ kept.Sublist found ∧
      ∃ j q' read, run.Reads j q' read ∧ (j = i ∧ found = read ∨ Recalled read found) ∧
        ((run.visits j).table = (run.visits i).table ∨
          (Cache.ownKey? q ≠ none ∨ Cache.ownKey? q' ≠ none) ∧
            Cache.Target.key run.cache (run.visits j).table (.query q') =
              Cache.Target.key run.cache (run.visits i).table (.query q)) := by
  generalize hown : own i run.events = h at hdone
  cases talks_query hdone with
  | judged htable hquery hrows hjudged hkept =>
    rename_i q h₁ h₂ found
    obtain ⟨kept, hvisible, htransformed⟩ := hkept rows rfl
    refine ⟨q, kept, found, hquery, htransformed, yields_visible h₂ kept hvisible, ?_⟩
    have hsub : ∀ x ∈ h₁, x ∈ own i run.events := by
      intro x hx
      rw [hown]
      exact List.mem_append_left h₂ hx
    rcases run.reads_of_rows hquery hsub hrows with
      hreads | ⟨j, q', read, hreads, hrecalled, key, hkey, hkey'⟩
    · exact ⟨i, q, found, hreads, .inl ⟨rfl, rfl⟩, .inl rfl⟩
    refine ⟨j, q', read, hreads, .inr hrecalled, ?_⟩
    by_cases hnamed : Cache.ownKey? q = none ∧ Cache.ownKey? q' = none
    · exact .inl (run.table_eq_of_key hnamed.1 hnamed.2 hkey hkey')
    · exact .inr ⟨Classical.not_and_iff_not_or_not.mp hnamed, hkey'.trans hkey.symm⟩

end

/-- Answers where every selection finds a post, and the store one text or none under every key. -/
def keeping (held : Option String) : (q : Question) → q.Answer
  | .cache (.store (.get _)) => .ok held
  | .cache (.store (.set ..)) => .ok ()
  | .engine .connect => .ok ()
  | .engine (.select _) => .ok [[("from", .text "posts")]]
  | q => q.refusal

/-- Events of one visit. -/
def ofVisit (i : ι) (h : List (Exchange Question.Answer)) : List (Event ι) := h.map fun x => (i, x)

theorem own_ofVisit [DecidableEq ι] (i : ι) (h : List (Exchange Question.Answer)) :
    own i (ofVisit i h) = h := by
  induction h with
  | nil => rfl
  | cons x h ih => exact (own_cons_self i x _).trans (congrArg (x :: ·) ih)

theorem own_ofVisit_of_ne [DecidableEq ι] {i j : ι} (hne : j ≠ i)
    (h : List (Exchange Question.Answer)) : own i (ofVisit j h) = [] := by
  have hnone : (ofVisit j h).filter (·.1 = i) = [] := by
    rw [List.filter_eq_nil_iff]
    intro x hx
    obtain ⟨y, -, rfl⟩ := List.mem_map.mp hx
    simpa using hne
  rw [own, hnone, List.map_nil]

theorem mem_ofVisit {i : ι} {o : (q : Question) → q.Answer} {qs : List Question} {x : Event ι} :
    x ∈ ofVisit i (qs.map fun q => ⟨q, o q⟩) ↔ ∃ q ∈ qs, x = (i, ⟨q, o q⟩) := by
  simp [ofVisit, eq_comm]

/-- A visit with an empty store, and then one with a text in it. -/
def inTurn (v w : Visit) (text : String) : List (Event Bool) :=
  ofVisit false ((asked (keeping none) v.call).map fun q => ⟨q, keeping none q⟩) ++
    ofVisit true ((asked (keeping (some text)) w.call).map fun q => ⟨q, keeping (some text) q⟩)

theorem own_inTurn_first (v w : Visit) (text : String) :
    own false (inTurn v w text) =
      (asked (keeping none) v.call).map fun q => ⟨q, keeping none q⟩ := by
  rw [inTurn, own_append, own_ofVisit, own_ofVisit_of_ne (by decide), List.append_nil]

theorem own_inTurn_second (v w : Visit) (text : String) :
    own true (inTurn v w text) =
      (asked (keeping (some text)) w.call).map fun q => ⟨q, keeping (some text) q⟩ := by
  rw [inTurn, own_append, own_ofVisit, own_ofVisit_of_ne (by decide), List.nil_append]

/-- The keys under which texts are sought in the store. -/
def keysSought (qs : List Question) : List String :=
  qs.filterMap fun
    | .cache (.store (.get key)) => some key
    | _ => none

/-- The texts that are put into the store, with their keys. -/
def textsPut (qs : List Question) : List (String × String) :=
  qs.filterMap fun
    | .cache (.store (.set key text _)) => some (key, text)
    | _ => none

theorem mem_textsPut {qs : List Question} {key text : String} (h : (key, text) ∈ textsPut qs) :
    ∃ ttl, .cache (.store (.set key text ttl)) ∈ qs := by
  obtain ⟨q, hq, hput⟩ := List.mem_filterMap.mp h
  split at hput
  · cases hput
    exact ⟨_, hq⟩
  · cases hput

/-- The second visit finds what the first one put into the store. -/
theorem handsBack_inTurn {v w : Visit} {text : String}
    (h : ∀ key ∈ keysSought (asked (keeping (some text)) w.call),
      (key, text) ∈ textsPut (asked (keeping none) v.call)) : HandsBack (inTurn v w text) := by
  intro before i key found after hsplit
  have hfirst : (i, ⟨.cache (.store (.get key)), .ok (some found)⟩) ∉
      ofVisit false ((asked (keeping none) v.call).map fun q => ⟨q, keeping none q⟩) := by
    intro hmem
    obtain ⟨q, -, heq⟩ := mem_ofVisit.mp hmem
    obtain ⟨rfl, hanswer⟩ := Sigma.mk.inj (Prod.mk.inj heq).2
    cases Except.ok.inj (eq_of_heq hanswer)
  obtain ⟨more, rfl⟩ := append_of_notMem hsplit hfirst
  have hsecond : (i, ⟨.cache (.store (.get key)), .ok (some found)⟩) ∈
      ofVisit true
        ((asked (keeping (some text)) w.call).map fun q => ⟨q, keeping (some text) q⟩) := by
    rw [List.append_cancel_left (hsplit.trans (List.append_assoc _ _ _))]
    exact List.mem_append_right _ List.mem_cons_self
  obtain ⟨q, hq, heq⟩ := mem_ofVisit.mp hsecond
  obtain ⟨rfl, hanswer⟩ := Sigma.mk.inj (Prod.mk.inj heq).2
  obtain rfl : found = text := Option.some.inj (Except.ok.inj (eq_of_heq hanswer))
  obtain ⟨ttl, hset⟩ := mem_textsPut (h key (List.mem_filterMap.mpr ⟨_, hq, rfl⟩))
  exact ⟨false, ttl, _, List.mem_append_left _ (mem_ofVisit.mpr ⟨_, hset, rfl⟩)⟩

/-- A query on a table whose answer is kept under a key that it names. -/
def keyed (table : String) : Visit where
  endpoint :=
    { config := .default, gate := none, cache := some .default, catalog := [], planner := .absent,
      keyColumn := "id" }
  table := table
  request := .wire (.map [("cache", .map [("ttl", .int 60), ("key", .text "k")])])
  user := none

/-- The text in the store after a post has been read. -/
def keptPost : String := "\x7b\"expires_at\": 60, \"data\": [\x7b\"from\": \"posts\"\x7d]\x7d"

theorem second_finds_first {table : String} (h : table = "posts" ∨ table = "secrets") :
    ∀ key ∈ keysSought (asked (keeping (some keptPost)) (keyed table).call),
      (key, keptPost) ∈ textsPut (asked (keeping none) (keyed "posts").call) := by
  have hput : textsPut (asked (keeping none) (keyed "posts").call) = [("query:k", keptPost)] := by
    decide +kernel
  have hsought : keysSought (asked (keeping (some keptPost)) (keyed table).call) = ["query:k"] := by
    rcases h with rfl | rfl <;> decide +kernel
  rw [hput, hsought]
  simp

/-- A query on posts, and then one on posts or secrets. -/
def postsThen (table : String) (h : table = "posts" ∨ table = "secrets") : Run Bool where
  visits second := keyed (if second then table else "posts")
  cache := .default
  events := inTurn (keyed "posts") (keyed table) keptPost
  shared _ := rfl
  underWay second := by
    cases second with
    | false =>
      refine ⟨[], result (keeping none) (keyed "posts").call, ?_⟩
      rw [own_inTurn_first, List.append_nil]
      exact talks_result _ _
    | true =>
      refine ⟨[], result (keeping (some keptPost)) (keyed table).call, ?_⟩
      rw [own_inTurn_second, List.append_nil]
      exact talks_result _ _
  handsBack := handsBack_inTurn (second_finds_first h)

theorem second_returns_post {table : String} (h : table = "posts" ∨ table = "secrets") :
    Talks ((postsThen table h).visits true).call (own true (postsThen table h).events)
      (.ok [[("from", .text "posts")]]) := by
  have hresult : result (keeping (some keptPost)) (keyed table).call =
      .ok [[("from", .text "posts")]] := by
    rcases h with rfl | rfl <;> cbv
  rw [← hresult]
  change Talks (keyed table).call (own true (inTurn (keyed "posts") (keyed table) keptPost)) _
  rw [own_inTurn_second]
  exact talks_result _ _

theorem post_kept_and_found :
    Talks ((postsThen "posts" (.inl rfl)).visits true).call
        (own true (postsThen "posts" (.inl rfl)).events) (.ok [[("from", .text "posts")]]) ∧
      ∃ (kept found : List Record) (j : Bool) (q : Query) (read : List Record), kept.Sublist found ∧
        (postsThen "posts" (.inl rfl)).Reads j q read ∧
        (j = true ∧ found = read ∨ Recalled read found) := by
  have hdone := second_returns_post (.inl (rfl : "posts" = "posts"))
  obtain ⟨_, kept, found, -, -, hkept, j, q, read, hreads, hsource, -⟩ :=
    answers_stem_from_table hdone
  exact ⟨hdone, kept, found, j, q, read, hkept, hreads, hsource⟩

theorem post_returned_for_secrets :
    Talks ((postsThen "secrets" (.inr rfl)).visits true).call
        (own true (postsThen "secrets" (.inr rfl)).events) (.ok [[("from", .text "posts")]]) ∧
      ∀ j q rows, (postsThen "secrets" (.inr rfl)).Reads j q rows →
        ((postsThen "secrets" (.inr rfl)).visits j).table ≠
          ((postsThen "secrets" (.inr rfl)).visits true).table := by
  refine ⟨second_returns_post (.inr rfl), fun j q rows hreads => ?_⟩
  cases j with
  | false => exact (by decide : "posts" ≠ "secrets")
  | true =>
    obtain ⟨-, s, -, hselect⟩ := hreads
    have hnone : basesRead (asked (keeping (some keptPost)) (keyed "secrets").call) = [] := by
      decide +kernel
    have hown := mem_own.mpr hselect
    change _ ∈ own true (inTurn (keyed "posts") (keyed "secrets") keptPost) at hown
    rw [own_inTurn_second] at hown
    obtain ⟨question, hasked, heq⟩ := List.mem_map.mp hown
    obtain rfl := (Sigma.mk.inj heq).1
    have hbases : s.bases ∈ basesRead (asked (keeping (some keptPost)) (keyed "secrets").call) :=
      List.mem_filterMap.mpr ⟨_, hasked, rfl⟩
    rw [hnone] at hbases
    cases hbases

end RowGate.Endpoint
