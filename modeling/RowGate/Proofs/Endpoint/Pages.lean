import RowGate.Proofs.Endpoint.Reads
import RowGate.Proofs.Number.Order
import RowGate.Proofs.Query.Refusal
import RowGate.Proofs.Sql.Counts
/-!
How many rows queries ask for. Main statement: whatever a wire query says, the statement that is sent
for it has a positive limit, which respects the limits of the query; a query that breaks its limits
sends nothing.
-/
namespace RowGate

open Read

/-- How many rows the query with some map asks for: a positive number of its own, or else the usual
one. -/
def Record.pageSize (usual : Int) (r : Record) : Int := (positiveUnder r "limit").getD usual

/-- The most rows that the query with some map may ask for. -/
def Record.mostRows (r : Record) : Option Int :=
  r.limitFields.bind fun s => integer? (s.get "maxLimit")

theorem positiveUnder_pos {r : Record} {key : String} {n : Int} (h : positiveUnder r key = some n) :
    0 < n := by
  simpa using (Option.filter_eq_some_iff.mp h).2

theorem Record.pageSize_pos {usual : Int} (husual : 0 < usual) (r : Record) :
    0 < r.pageSize usual := by
  unfold Record.pageSize
  cases h : positiveUnder r "limit" with
  | none => exact husual
  | some n => exact positiveUnder_pos h

/-- Limits keep the most rows that their fields name. -/
theorem Limits.maxLimit_of_read {r : Record} {l : Limits}
    (h : Limits.read (r.get "validation") "validation" = .ok l) : l.maxLimit = r.mostRows := by
  rcases read_cases r with ⟨s, suggestions, hs, hread⟩ | ⟨-, v, hread⟩
  · rw [hread] at h
    obtain ⟨_, -, h⟩ := sequence_eq_ok.mp h
    obtain ⟨_, -, h⟩ := sequence_eq_ok.mp h
    rw [Record.mostRows, hs, Option.bind_some]
    dsimp only at h
    split at h
    all_goals
      obtain ⟨_, -, h⟩ := sequence_eq_ok.mp h
      cases h
      rfl
  · rw [hread] at h
    cases h

/-- The most rows of a query are those of its limits. -/
theorem mostRows_of_readFrom {limit : Option Value} {r : Record} {q : Query}
    (h : q.ReadFrom limit r) : q.limits.bind (·.maxLimit) = r.mostRows := by
  rcases limits_of_readFrom h with ⟨l, hl, hread⟩ | ⟨hl, hnone⟩
  · rw [hl]
    exact Limits.maxLimit_of_read hread
  · rw [hl, Record.mostRows]
    cases hs : r.limitFields with
    | none => rfl
    | some s =>
      obtain rfl := hnone s hs
      rfl

theorem limit_of_readFrom {usual : Int} {r : Record} {q : Query}
    (h : q.ReadFrom (some (.int usual)) r) : q.limit = some (.int (r.pageSize usual)) := by
  rw [h.limit, Record.pageSize]
  cases positiveUnder r "limit" <;> rfl

/-- A query breaks its limit on rows if it asks for more than the most of them. -/
theorem limitTooLarge_mem_violations {usual : Int} {r : Record} {q : Query}
    (h : q.ReadFrom (some (.int usual)) r) {m : Int} (hmost : r.mostRows = some m)
    (hmore : m < r.pageSize usual) : .limitTooLarge m ∈ q.violations none := by
  obtain ⟨l, hl, hm⟩ := Option.bind_eq_some_iff.mp ((mostRows_of_readFrom h).trans hmost)
  have hlimit : q.limit.bind (·.number?) = some (.int (r.pageSize usual)) := by
    rw [limit_of_readFrom h]
    rfl
  have hviolations : q.violations none = q.violationsOf l := by
    rw [Query.violations, hl]
    rfl
  change l.maxLimit = some m at hm
  rw [hviolations, Query.violationsOf, hm, hlimit]
  simp [Number.less_int.mpr hmore]

end RowGate

namespace RowGate.Endpoint

open Asking

variable {e : Endpoint} {table : String} {user : Option User}
  {h : List (Exchange Question.Answer)} {r : Except Fault (List Record)}

/-- A statement selects a page of a query: it has the limit and the offset that the map of the query
names, or the usual limit and no offset, and its text says so. -/
structure SelectsPage (usual : Int) (fields : Record) (s : Sql.Select) : Prop where
  limit : s.body.limit = some (fields.pageSize usual)
  positive : 1 ≤ fields.pageSize usual
  capped : ∀ m, fields.mostRows = some m → fields.pageSize usual ≤ m
  offset : s.body.offset = positiveUnder fields "offset"
  text : ∀ w, s.written .bound = .ok w →
    Sql.Paged w (fields.pageSize usual) (positiveUnder fields "offset")

/-- A query without violations selects a page. -/
theorem selectsPage_of_builds {usual : Int} (husual : 0 < usual) {fields : Record} {q : Query}
    {s : Sql.Select} (hread : q.ReadFrom (some (.int usual)) fields)
    (hviolations : q.violations none = []) (hbuilds : e.Builds table q s) :
    SelectsPage usual fields s := by
  obtain ⟨hlimit, hoffset⟩ := Sql.counts_of_query hbuilds (limit_of_readFrom hread)
  have hpositive : s.body.offset = positiveUnder fields "offset" := by
    rw [hoffset, hread.offset]
    cases hunder : positiveUnder fields "offset" with
    | none => rfl
    | some k =>
      have hk := positiveUnder_pos hunder
      rw [Option.getD_some, if_neg (by omega)]
  constructor
  · exact hlimit
  · exact fields.pageSize_pos husual
  · intro m hm
    by_contra hmore
    have hmem := limitTooLarge_mem_violations hread hm (by omega)
    rw [hviolations] at hmem
    cases hmem
  · exact hpositive
  · intro w hw
    exact hpositive ▸ Sql.paged_written hw hlimit

/-! ## What a query has to pass -/

/-- The query of a request that is admitted: its table passes, it can be read, and it breaks none of its
limits. -/
def admitted (e : Endpoint) (table : String) (request : Request) : Except Fault Query := do
  e.checkTable table "SELECT"
  let q ← request.query e.config
  q.check none
  return q

/-- A request that is not admitted fails, and nothing is asked for it. -/
theorem talks_of_not_admitted {request : Request} {f : Fault}
    (htalk : Talks (e.query table request user) h r) (hf : e.admitted table request = .error f) :
    h = [] ∧ r = .error f := by
  unfold admitted at hf
  unfold query at htalk
  rw [talks_lift_bind] at htalk
  cases htable : e.checkTable table "SELECT" with
  | error g =>
    rw [htable] at htalk hf
    obtain rfl := Except.error.inj hf
    exact ⟨htalk.1, htalk.2.symm⟩
  | ok _ =>
    rw [htable] at htalk hf
    rw [ok_sequence] at hf
    dsimp only at htalk
    rw [talks_lift_bind] at htalk
    cases hquery : request.query e.config with
    | error g =>
      rw [hquery] at htalk hf
      obtain rfl := Except.error.inj hf
      exact ⟨htalk.1, htalk.2.symm⟩
    | ok q =>
      rw [hquery] at htalk hf
      rw [ok_sequence] at hf
      dsimp only at htalk
      rw [talks_lift_bind] at htalk
      cases hcheck : q.check none with
      | error g =>
        rw [hcheck] at htalk hf
        obtain rfl := Except.error.inj hf
        exact ⟨htalk.1, htalk.2.symm⟩
      | ok _ =>
        rw [hcheck] at hf
        cases hf

theorem admitted_eq_ok {request : Request} {q : Query} : e.admitted table request = .ok q ↔
    e.checkTable table "SELECT" = .ok () ∧ request.query e.config = .ok q ∧ q.violations none = [] := by
  have hcheck (p : Query) : p.check none = .ok () ↔ p.violations none = [] := by
    unfold Query.check
    split <;> simp_all
  simp only [admitted, sequence_eq_ok, pure_answers]
  constructor
  · rintro ⟨_, htable, p, hquery, _, hp, rfl⟩
    exact ⟨htable, hquery, (hcheck p).mp hp⟩
  · rintro ⟨htable, hquery, hq⟩
    exact ⟨(), htable, q, hquery, (), (hcheck q).mpr hq, rfl⟩

/-- A statement for rows is sent only for a request that is admitted, and it is the one for its
query. -/
theorem admitted_of_select {request : Request} (htalk : Talks (e.query table request user) h r)
    {s : Sql.Select} {answer : Except Fault (List Record)}
    (hselect : ⟨.engine (.select s), answer⟩ ∈ h) :
    ∃ q, e.admitted table request = .ok q ∧ e.Builds table q s := by
  have hbuilds : ∃ q, request.query e.config = .ok q ∧ e.Builds table q s := by
    cases talks_query htalk with
    | refused => cases hselect
    | failed _ hquery hrows => exact ⟨_, hquery, (hrows.of_select hselect).1⟩
    | judged _ hquery hrows hjudged _ =>
      rcases List.mem_append.mp hselect with hmem | hmem
      · exact ⟨_, hquery, (hrows.of_select hmem).1⟩
      · exact (hjudged _ hmem).elim
  obtain ⟨q, hquery, hbuilds⟩ := hbuilds
  cases hadmitted : e.admitted table request with
  | error f =>
    obtain ⟨rfl, -⟩ := talks_of_not_admitted htalk hadmitted
    cases hselect
  | ok p =>
    obtain ⟨-, hp, -⟩ := admitted_eq_ok.mp hadmitted
    obtain rfl := Except.ok.inj (hp.symm.trans hquery)
    exact ⟨p, rfl, hbuilds⟩

/-- A wire query is read from its map with the usual limit. -/
theorem query_wire {usual : Int} (hdefault : e.config.defaultLimit = .int usual) (fields : Record) :
    (Request.wire (.map fields)).query e.config = Query.read (some (.int usual)) (.map fields) := by
  rw [Request.query, hdefault]
  split
  · rfl
  · rename_i hfalse
    obtain rfl : fields = [] := by simpa [Value.truthy] using hfalse
    rfl

/-- Whatever a wire query says: a statement that is sent for it selects a page of positive size that
respects the limits of the query. If the table passes its check, a query that cannot be read fails for
that reason, and one that asks for too many rows or breaks another limit is refused with all
violations; for either nothing is asked. -/
theorem pages_capped {usual : Int} (husual : 0 < usual) (hdefault : e.config.defaultLimit = .int usual)
    {fields : Record} (htalk : Talks (e.query table (.wire (.map fields)) user) h r) :
    (∀ s answer, ⟨.engine (.select s), answer⟩ ∈ h → SelectsPage usual fields s) ∧
    (e.checkTable table "SELECT" = .ok () →
      match Query.read (some (.int usual)) (.map fields) with
      | .error f => h = [] ∧ r = .error f
      | .ok q =>
        (∀ m, fields.mostRows = some m → m < fields.pageSize usual →
          .limitTooLarge m ∈ q.violations none) ∧
        (q.violations none ≠ [] → h = [] ∧ r = .error (.invalid (q.violations none) none))) := by
  have hfrom {q : Query} (hread : Query.read (some (.int usual)) (.map fields) = .ok q) :
      q.ReadFrom (some (.int usual)) fields := by
    rw [Query.read] at hread
    exact (Query.assemble_eq_ok.mp hread).2.2
  constructor
  · intro s answer hselect
    obtain ⟨q, hadmitted, hbuilds⟩ := admitted_of_select htalk hselect
    obtain ⟨-, hread, hviolations⟩ := admitted_eq_ok.mp hadmitted
    rw [query_wire hdefault] at hread
    exact selectsPage_of_builds husual (hfrom hread) hviolations hbuilds
  · intro htable
    cases hread : Query.read (some (.int usual)) (.map fields) with
    | error f =>
      refine talks_of_not_admitted htalk ?_
      rw [admitted, htable, query_wire hdefault, hread]
      rfl
    | ok q =>
      refine ⟨fun m => limitTooLarge_mem_violations (hfrom hread), fun hbroken => ?_⟩
      refine talks_of_not_admitted htalk ?_
      have hcheck : q.check none = .error (.invalid (q.violations none) none) := by
        unfold Query.check
        split
        · exact absurd ‹_› hbroken
        · rfl
      rw [admitted, htable, query_wire hdefault, hread, ok_sequence, ok_sequence, hcheck]
      rfl

/-- Five posts, of at most ten. -/
def fiveOfTen : Record :=
  [("limit", .text "5"), ("offset", .int (-1)), ("validation", .map [("maxLimit", .int 10)])]

theorem five_posts_asked_for : ∃ s : Sql.Select,
    .engine (.select s) ∈ Asking.asked oneSecret
      (postsOnly.query "posts" (.wire (.map fiveOfTen)) (some Access.visitor)) ∧
    SelectsPage 10 fiveOfTen s ∧ s.body.limit = some 5 ∧ s.body.offset = none := by
  have hread : basesRead (Asking.asked oneSecret
      (postsOnly.query "posts" (.wire (.map fiveOfTen)) (some Access.visitor))) =
        [[(none, "posts")]] := by
    decide +kernel
  obtain ⟨s, hs, -⟩ := mem_basesRead (hread ▸ List.mem_singleton_self _)
  obtain ⟨hpages, -⟩ := pages_capped (e := postsOnly) (by decide : (0 : Int) < 10) rfl
    (talks_result oneSecret (postsOnly.query "posts" (.wire (.map fiveOfTen)) (some Access.visitor)))
  have hpage := hpages s _ (List.mem_map.mpr ⟨_, hs, rfl⟩)
  exact ⟨s, hs, hpage, hpage.limit.trans (by decide), hpage.offset.trans (by decide)⟩

/-- More rows than the query itself allows. -/
def tooMany : Record := [("limit", .int 100), ("validation", .map [("maxLimit", .int 10)])]

/-- A table that may not be read is refused before the limits of the query are looked at. -/
theorem table_refused_before_limits :
    tooMany.mostRows = some 10 ∧ tooMany.pageSize 10 = 100 ∧
    Asking.result oneSecret (postsOnly.query "secrets" (.wire (.map tooMany)) none) =
      .error (.notAllowed "secrets" "SELECT" (some "Invalid table name \"secrets\"")) :=
  ⟨by decide, by decide, by cbv⟩

end RowGate.Endpoint
