import Mathlib
import RowGate.Endpoint.Read
import RowGate.Proofs.Access.Reads
import RowGate.Proofs.Cache.Conversation
import RowGate.Proofs.Endpoint.Conversation
import RowGate.Proofs.Plan.Sources
import RowGate.Proofs.Script.Answered
/-!
Queries at an endpoint, whatever its surroundings answer. Main statements: the conversations of a
query taken apart, and the base tables that it makes the engine read. The queried table is checked
and judged; a table that the query names for a table expression is neither.
-/
namespace RowGate.Endpoint

open Asking

/-- Questions on the way to rows: none of them is about access or for rows, and nothing is put into
the cache's store but texts of a kind. -/
def Question.Fetches (put : String → String → Prop) : Question → Prop
  | .cache q => q.PutsOnly put
  | .engine .connect | .engine (.scalar _) | .engine (.indexes _) | .plan _ | .log _ => True
  | _ => False

/-- Questions that advice on a query takes. -/
def Question.Advises : Question → Prop
  | .engine (.scalar _) | .engine (.indexes _) | .plan _ | .log _ => True
  | _ => False

theorem Question.Advises.fetches {put : String → String → Prop} (q : Question) (h : q.Advises) :
    q.Fetches put := by
  match q, h with
  | .engine (.scalar _), _ | .engine (.indexes _), _ | .plan _, _ | .log _, _ => trivial

variable (e : Endpoint)

/-- A statement is the one for a query on a table. -/
def Builds (table : String) (q : Query) (s : Sql.Select) : Prop :=
  (Logged.run do Sql.build e.catalog table (← q.compile)).1 = .ok s

variable {e}

theorem asksOnly_plan? (s : Sql.Select) : AsksOnly Question.Advises (e.plan? s) := by
  unfold plan?
  cases e.planner with
  | absent => exact asksOnly_pure _
  | application => exact asksOnly_bind ⟨trivial, fun _ => by trivial⟩ fun _ => asksOnly_pure _
  | engine =>
    refine asksOnly_bind (asksOnly_lift _) fun w => ?_
    refine asksOnly_bind ⟨trivial, fun _ => trivial⟩ fun v => ?_
    exact asksOnly_bind (asksOnly_lift _) fun _ => asksOnly_pure _

theorem asksOnly_advice (table : String) (q : Query) (s : Sql.Select) :
    AsksOnly Question.Advises (e.advice table q s) := by
  have hsurvey : AsksOnly Question.Advises (e.survey table s) := by
    refine asksOnly_bind (asksOnly_plan? s) fun plan => ?_
    cases plan with
    | none => exact asksOnly_pure _
    | some plan => exact asksOnly_bind ⟨trivial, fun _ => trivial⟩ fun _ => asksOnly_pure _
  refine asksOnly_bind (asksOnly_outcome hsurvey) fun y => ?_
  match y with
  | .error _ => exact asksOnly_bind (asksOnly_logAll (fun _ => trivial) _) fun _ => asksOnly_pure _
  | .ok none => exact asksOnly_pure _
  | .ok (some (plan, indexed)) =>
    exact asksOnly_bind (asksOnly_noting (fun _ => trivial) _) fun _ => asksOnly_pure _

theorem asksOnly_advise (table : String) (q : Query) (s : Sql.Select) :
    AsksOnly Question.Advises (e.advise table q s) := by
  unfold advise
  split
  · refine asksOnly_bind (asksOnly_advice table q s) fun advice => ?_
    split
    · exact asksOnly_logAll (fun _ => trivial) _
    · exact asksOnly_pure _
  · exact asksOnly_pure _

variable {h : List (Exchange Question.Answer)} {r : Except Fault (List Record)} {table : String}
  {q : Query}

/-- A query that is executed fails on the way, or ends with the engine's answer to the statement for
it. -/
theorem talks_execute (put : String → String → Prop) (htalk : Talks (e.execute table q) h r) :
    ((∃ f, r = .error f) ∧ ∀ x ∈ h, x.1.Fetches put) ∨
      ∃ s before, h = before ++ [⟨.engine (.select s), r⟩] ∧ e.Builds table q s ∧
        ∀ x ∈ before, x.1.Fetches put := by
  have hconnect : AsksOnly (Question.Fetches put) (engine .connect) := ⟨trivial, fun _ => trivial⟩
  -- advice is given on the way
  have hadvise (s : Sql.Select) : AsksOnly (Question.Fetches put) (e.advise table q s) :=
    (asksOnly_advise table q s).mono Question.Advises.fetches
  rcases talks_bind.mp htalk with ⟨f, hfirst, rfl⟩ | ⟨h₁, h₂, s, rfl, hstatement, hrest⟩
  · exact .inl ⟨⟨f, rfl⟩, (asksOnly_noting (fun _ => trivial) _).of_talks hfirst⟩
  have hfirst : ∀ x ∈ h₁, x.1.Fetches put :=
    (asksOnly_noting (fun _ => trivial) _).of_talks hstatement
  have hbuilds : e.Builds table q s := (talks_noting hstatement).symm
  rcases talks_bind.mp hrest with ⟨f, hsecond, rfl⟩ | ⟨h₃, h₄, _, rfl, hsecond, hrest⟩
  · have hsecond := hconnect.of_talks hsecond
    exact .inl ⟨⟨f, rfl⟩, List.forall_mem_append.mpr ⟨hfirst, hsecond⟩⟩
  have hsecond := hconnect.of_talks hsecond
  rcases talks_bind.mp hrest with ⟨f, hthird, rfl⟩ | ⟨h₅, h₆, _, rfl, hthird, hrest⟩
  · have hthird : ∀ x ∈ h₄, x.1.Fetches put := (hadvise s).of_talks hthird
    simp only [List.forall_mem_append]
    exact .inl ⟨⟨f, rfl⟩, hfirst, hsecond, hthird⟩
  have hthird : ∀ x ∈ h₅, x.1.Fetches put := (hadvise s).of_talks hthird
  obtain rfl := Script.talks_once.mp hrest
  refine .inr ⟨s, h₁ ++ (h₃ ++ h₅), by simp, hbuilds, ?_⟩
  simp only [List.forall_mem_append]
  exact ⟨hfirst, hsecond, hthird⟩

/-- A text is put into the cache's store for a query: it holds the rows of an answer, under the key
of the query. -/
def Stores (e : Endpoint) (table : String) (q : Query) (answer : Except Fault (List Record))
    (key text : String) : Prop :=
  ∃ c rows ends, e.cacheFor q = some c ∧ Cache.Target.key c table (.query q) = .ok key ∧
    answer = .ok rows ∧ Cache.enclose ends (.list (rows.map .map)) = .ok text

/-- How a call comes to rows: it fails on the way, it finds them in the cache, or the engine answers
the statement for the query and the answer may be put into the cache. -/
inductive RowsRun (e : Endpoint) (table : String) (q : Query) :
    List (Exchange Question.Answer) → Except Fault (List Record) → Prop where
  | failed {h : List (Exchange Question.Answer)} {f : Fault}
      (haside : ∀ x ∈ h, x.1.Fetches fun _ _ => False) : RowsRun e table q h (.error f)
  | cached {h : List (Exchange Question.Answer)} {c : Config} {key text : String} {t : Number}
      {v : Value} (hcache : e.cacheFor q = some c)
      (hkey : Cache.Target.key c table (.query q) = .ok key)
      (hget : ⟨.cache (.store (.get key)), .ok (some text)⟩ ∈ h)
      (hdata : Cache.contentOf t text = .ok (.data v))
      (haside : ∀ x ∈ h, x.1.Fetches fun _ _ => False) : RowsRun e table q h (.ok (rowsIn v))
  | executed {before after : List (Exchange Question.Answer)} {s : Sql.Select}
      {answer r : Except Fault (List Record)} (hbuilds : e.Builds table q s)
      (hbefore : ∀ x ∈ before, x.1.Fetches fun _ _ => False)
      (hafter : ∀ x ∈ after, x.1.Fetches (e.Stores table q answer))
      (hsame : ∀ rows, r = .ok rows → answer = .ok rows) :
      RowsRun e table q (before ++ ⟨.engine (.select s), answer⟩ :: after) r

/-- Execution alone, without the cache. -/
theorem RowsRun.of_execute (htalk : Talks (e.execute table q) h r) : RowsRun e table q h r := by
  rcases talks_execute (fun _ _ => False) htalk with
    ⟨⟨f, rfl⟩, haside⟩ | ⟨s, before, rfl, hbuilds, hbefore⟩
  · exact .failed haside
  · exact .executed hbuilds hbefore (List.forall_mem_nil _) fun _ h => h

/-- Rows from the engine are put into the cache as they are, and are returned so. -/
theorem talks_stored {c : Config} (hcache : e.cacheFor q = some c) {rows : List Record}
    (htalk : Talks (do
      let _ ← caching (Cache.set c (.query q) (.list (rows.map .map)) .null .null table)
      return rows : Serving (List Record)) h r) :
    (∀ x ∈ h, x.1.Fetches (e.Stores table q (.ok rows))) ∧
      ∀ rows', r = .ok rows' → rows' = rows := by
  have hset : AsksOnly (Question.Fetches (e.Stores table q (.ok rows)))
      (caching (Cache.set c (.query q) (.list (rows.map .map)) .null .null table)) :=
    asksOnly_caching (Cache.asksOnly_set .null .null fun key ends text hkey htext =>
      ⟨c, rows, ends, hcache, hkey, rfl, htext⟩)
  rcases talks_bind.mp htalk with ⟨f, hfirst, rfl⟩ | ⟨h₁, h₂, _, rfl, hfirst, hdone⟩
  · exact ⟨hset.of_talks hfirst, nofun⟩
  · obtain ⟨rfl, rfl⟩ := talks_pure.mp hdone
    rw [List.append_nil]
    exact ⟨hset.of_talks hfirst, fun rows' h => (Except.ok.inj h).symm⟩

/-- Every conversation for rows is of one of the three kinds. -/
theorem talks_rows (htalk : Talks (e.rows table q) h r) : RowsRun e table q h r := by
  unfold rows at htalk
  cases hcache : e.cacheFor q with
  | none =>
    rw [hcache] at htalk
    exact RowsRun.of_execute htalk
  | some c =>
    rw [hcache] at htalk
    have hread : AsksOnly (Question.Fetches fun _ _ => False)
        (caching (Cache.get c (.query q) table)) :=
      asksOnly_caching (Cache.asksOnly_get c (.query q) table)
    rcases talks_bind.mp htalk with ⟨f, hget, rfl⟩ | ⟨h₁, h₂, found, rfl, hget, hrest⟩
    · exact .failed (hread.of_talks hget)
    have hfirst := hread.of_talks hget
    cases found with
    | some v =>
      obtain ⟨l, hl, rfl⟩ := talks_caching hget
      obtain ⟨key, text, t, hkey, hmem, hdata⟩ := Cache.talks_get hl
      rcases talks_bind.mp hrest with ⟨f, hlog, rfl⟩ | ⟨h₃, h₄, _, rfl, hlog, hdone⟩
      · cases talks_logAll hlog
      obtain ⟨rfl, rfl⟩ := talks_pure.mp hdone
      refine .cached hcache hkey ?_ hdata ?_
      · exact List.mem_append_left _ (List.mem_map.mpr ⟨_, hmem, rfl⟩)
      · rw [List.append_nil]
        have hsecond : ∀ x ∈ h₃, x.1.Fetches fun _ _ => False :=
          (asksOnly_logAll (fun _ => trivial) _).of_talks hlog
        exact List.forall_mem_append.mpr ⟨hfirst, hsecond⟩
    | none =>
      rcases talks_bind.mp hrest with ⟨f, hexecute, rfl⟩ | ⟨h₃, h₄, rows, rfl, hexecute, hstore⟩
      · -- the execution fails, on the way or at the engine
        rcases talks_execute (fun _ _ => False) hexecute with
          ⟨-, haside⟩ | ⟨s, before, rfl, hbuilds, hbefore⟩
        · exact .failed (List.forall_mem_append.mpr ⟨hfirst, haside⟩)
        · rw [← List.append_assoc]
          exact .executed hbuilds (List.forall_mem_append.mpr ⟨hfirst, hbefore⟩)
            (List.forall_mem_nil _) nofun
      · rcases talks_execute (fun _ _ => False) hexecute with
          ⟨⟨f, hf⟩, -⟩ | ⟨s, before, rfl, hbuilds, hbefore⟩
        · cases hf
        obtain ⟨hafter, hsame⟩ := talks_stored hcache hstore
        have happend : h₁ ++ (before ++ [⟨.engine (.select s), .ok rows⟩] ++ h₄) =
            (h₁ ++ before) ++ ⟨.engine (.select s), .ok rows⟩ :: h₄ := by simp
        rw [happend]
        refine .executed hbuilds (List.forall_mem_append.mpr ⟨hfirst, hbefore⟩) hafter ?_
        intro rows' hr
        rw [hsame rows' hr]

/-- Questions about access to a table. -/
def Question.Judges (table : String) : Question → Prop
  | .access q => q.OnlyOf table
  | _ => False

variable {user : Option User} {rows : List Record}

theorem asksOnly_visible : AsksOnly (Question.Judges table) (e.visible table rows user) := by
  unfold visible
  cases e.gateFor user with
  | none => exact asksOnly_pure _
  | some found =>
    obtain ⟨c, u⟩ := found
    exact asksOnly_guarding (Access.asksOnly_authorizeRows c "SELECT" rows u)

/-- A gate drops rows and leaves the others in order. -/
theorem yields_visible : Yields (e.visible table rows user) fun kept => kept.Sublist rows := by
  unfold visible
  cases e.gateFor user with
  | none => exact yields_pure (.refl rows)
  | some found =>
    obtain ⟨c, u⟩ := found
    exact yields_within _ _ (Access.yields_authorizeRows c "SELECT" rows u)

/-- How a query goes: it is refused, its rows are not to be had, or they are judged for the queried
table, and those that are kept are transformed. -/
inductive QueryRun (e : Endpoint) (table : String) (request : Request) (user : Option User) :
    List (Exchange Question.Answer) → Except Fault (List Record) → Prop where
  | refused {f : Fault} : QueryRun e table request user [] (.error f)
  | failed {q : Query} {h : List (Exchange Question.Answer)} {f : Fault}
      (htable : e.checkTable table "SELECT" = .ok ()) (hquery : request.query e.config = .ok q)
      (hrows : RowsRun e table q h (.error f)) : QueryRun e table request user h (.error f)
  | judged {q : Query} {h₁ h₂ : List (Exchange Question.Answer)} {rows : List Record}
      {r : Except Fault (List Record)} (htable : e.checkTable table "SELECT" = .ok ())
      (hquery : request.query e.config = .ok q) (hrows : RowsRun e table q h₁ (.ok rows))
      (hjudged : ∀ x ∈ h₂, x.1.Judges table)
      (hkept : ∀ out, r = .ok out → ∃ kept, Talks (e.visible table rows user) h₂ (.ok kept) ∧
        transformed q kept = .ok out) : QueryRun e table request user (h₁ ++ h₂) r

/-- Every conversation of a query is of one of the three kinds. -/
theorem talks_query {request : Request} (htalk : Talks (e.query table request user) h r) :
    QueryRun e table request user h r := by
  rcases talks_bind.mp htalk with ⟨f, hlift, rfl⟩ | ⟨_, h₁, _, rfl, hlift, hafterTable⟩
  · obtain ⟨rfl, -⟩ := talks_lift.mp hlift
    exact .refused
  obtain ⟨rfl, htable⟩ := talks_lift.mp hlift
  rcases talks_bind.mp hafterTable with ⟨f, hread, rfl⟩ | ⟨_, h₂, q, rfl, hread, hafterRead⟩
  · obtain ⟨rfl, -⟩ := talks_lift.mp hread
    exact .refused
  obtain ⟨rfl, hquery⟩ := talks_lift.mp hread
  rcases talks_bind.mp hafterRead with ⟨f, hcheck, rfl⟩ | ⟨_, h₃, _, rfl, hcheck, hafterCheck⟩
  · obtain ⟨rfl, -⟩ := talks_lift.mp hcheck
    exact .refused
  obtain ⟨rfl, -⟩ := talks_lift.mp hcheck
  rcases talks_bind.mp hafterCheck with ⟨f, hrows, rfl⟩ | ⟨h₄, h₅, rows, rfl, hrows, hafterRows⟩
  · exact .failed htable hquery (talks_rows hrows)
  have hrun : RowsRun e table q h₄ (.ok rows) := talks_rows hrows
  rcases talks_bind.mp hafterRows with ⟨f, hvisible, rfl⟩ | ⟨h₆, h₇, kept, rfl, hvisible, hdone⟩
  · change QueryRun e table request user (h₄ ++ h₅) (.error f)
    exact .judged htable hquery hrun (asksOnly_visible.of_talks hvisible) nofun
  obtain ⟨rfl, htransformed⟩ := talks_lift.mp hdone
  rw [List.append_nil]
  change QueryRun e table request user (h₄ ++ h₆) r
  refine .judged htable hquery hrun (asksOnly_visible.of_talks hvisible) fun out hout => ?_
  exact ⟨kept, hvisible, htransformed.trans hout⟩

/-- A question for rows is not one on the way to them. -/
theorem not_fetches_select {put : String → String → Prop} {l : List (Exchange Question.Answer)}
    (hl : ∀ x ∈ l, x.1.Fetches put) (s : Sql.Select) (answer : Except Fault (List Record)) :
    (⟨.engine (.select s), answer⟩ : Exchange Question.Answer) ∉ l :=
  fun hmem => hl _ hmem

/-- Rows come from the one statement that is sent for them. -/
theorem RowsRun.of_select (hrun : RowsRun e table q h r) {s : Sql.Select}
    {answer : Except Fault (List Record)} (hmem : ⟨.engine (.select s), answer⟩ ∈ h) :
    e.Builds table q s ∧ ∀ rows, r = .ok rows → answer = .ok rows := by
  cases hrun with
  | failed haside => exact absurd hmem (not_fetches_select haside s answer)
  | cached _ _ _ _ haside => exact absurd hmem (not_fetches_select haside s answer)
  | executed hbuilds hbefore hafter hsame =>
    rcases List.mem_append.mp hmem with hmem | hmem
    · exact absurd hmem (not_fetches_select hbefore s answer)
    rcases List.mem_cons.mp hmem with heq | hmem
    · cases heq
      exact ⟨hbuilds, hsame⟩
    · exact absurd hmem (not_fetches_select hafter s answer)

/-- An endpoint for one listed table, with a gate. -/
def postsOnly : Endpoint where
  config := { Config.default with checkTables := .bool true, validTables := [.text "posts"] }
  gate := some .default
  cache := none
  catalog := []
  planner := .absent
  keyColumn := "id"

/-- Answers where everything is allowed and every table has the same row. -/
def oneSecret : (q : Question) → q.Answer
  | .access (.permissions _) => .ok (some .default)
  | .engine .connect => .ok ()
  | .engine (.select _) => .ok [[("secret", .text "s")]]
  | q => q.refusal

/-- The base tables of the statements for rows among some questions. -/
def basesRead (qs : List Question) : List (List (Option String × String)) :=
  qs.filterMap fun
    | .engine (.select s) => some s.bases
    | _ => none

theorem mem_basesRead {qs : List Question} {bases : List (Option String × String)}
    (h : bases ∈ basesRead qs) : ∃ s : Sql.Select, .engine (.select s) ∈ qs ∧ s.bases = bases := by
  obtain ⟨q, hq, hbases⟩ := List.mem_filterMap.mp h
  split at hbases
  · exact ⟨_, hq, Option.some.inj hbases⟩
  · cases hbases

end RowGate.Endpoint
