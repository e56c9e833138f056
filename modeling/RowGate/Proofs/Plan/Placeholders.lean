import RowGate.Proofs.Plan.Bodies
import RowGate.Proofs.Plan.Building
/-!
Raw fragments of a query in its statement. Main statement: a statement in which a fragment has more
or fewer values than question marks is not built; in one that is written each fragment stands with
parameters of its own, which are its question marks and nothing else exactly if these stand apart,
and is the given text around them exactly if its colons are kept.
-/
namespace RowGate

open Sql Stateful

/-- The conditions of a body say what operations say. -/
def Conveys (os : List Operation) (b : Body) : Prop :=
  Expresses (os.flatMap Operation.clauses) b.criteria

theorem conveys_of_drafted {listed : List String} {os : List Operation} {b : Body}
    (h : Drafted listed os b) : Conveys os b := by
  obtain ⟨d, d', s, hblank, -, hrun, hs, rfl⟩ := h
  obtain ⟨js, hjs, hexpresses⟩ := gains_operations os [] d () d' hblank.criteria hrun
  rw [Conveys, Draft.statement_criteria hs, hjs]
  exact hexpresses

/-- A statement has a body for each query inside the query that it is built for, and for that query
itself: its conditions say what those of the query say. -/
theorem bodies_of_statement {catalog : Catalog} {table : String} {q : Query} {os : List Operation}
    {s : Select} (hcompile : q.compile.run.1 = .ok os) (hs : q.statement catalog table = .ok s) :
    List.Forall₂ (fun l b => Expresses l.clauses b.criteria) q.levels s.bodies := by
  apply (drafted_of_statement hcompile hs).imp
  rintro l b ⟨os, hlevel, listed, hdrafted⟩
  exact (conveys_of_drafted hdrafted).of_same hlevel.clauses

/-! ## Fragments -/

/-- The fragments of a query with what opens them in the text, in the order of the text. -/
def Query.openedFragments (q : Query) : List (String × Fragment) :=
  q.fragments.map ("(", ·) ++ q.exists_.map ("EXISTS (", ·)

/-- The fragments of a query and of the queries inside it. -/
def Query.everyFragment (q : Query) : List (String × Fragment) :=
  q.levels.flatMap Query.openedFragments

/-- The fragment of a raw text, with what opens it. -/
def Predicate.fragment? : Predicate → Option (String × Fragment)
  | .raw opening sql bindings => some (opening, ⟨sql, bindings⟩)
  | _ => none

/-- Groups hold no fragments. -/
theorem fragments_members : (ms : List GroupMember) →
    (memberPredicates ms).filterMap Predicate.fragment? = []
  | [] => rfl
  | .condition c :: ms => fragments_members ms
  | .group _ members _ :: ms => by
    rw [memberPredicates, List.filterMap_append, fragments_members ms]
    exact congrArg (· ++ []) (fragments_members members)

theorem fragments_map {α : Type} {g : α → Clause} {f : α → List (String × Fragment)}
    (h : ∀ a, (g a).predicates.filterMap Predicate.fragment? = f a) (as : List α) :
    ((as.map g).flatMap Clause.predicates).filterMap Predicate.fragment? = as.flatMap f := by
  rw [List.flatMap_map, List.filterMap_flatMap]
  exact congrArg as.flatMap (funext h)

/-- The raw texts among the conditions of a query are its fragments. -/
theorem fragments_clauses (q : Query) :
    (q.clauses.flatMap Clause.predicates).filterMap Predicate.fragment? = q.openedFragments := by
  have hnone {α : Type} {g : α → Clause}
      (h : ∀ a, (g a).predicates.filterMap Predicate.fragment? = []) (as : List α) :
      ((as.map g).flatMap Clause.predicates).filterMap Predicate.fragment? = [] := by
    rw [fragments_map h, List.flatMap_eq_nil_iff]
    exact fun _ _ => rfl
  have hopened (opening : String) (fs : List Fragment) :
      ((fs.map fun f => Clause.single (.raw opening f.sql f.bindings)).flatMap
        Clause.predicates).filterMap Predicate.fragment? = fs.map (opening, ·) := by
    rw [fragments_map (f := fun f => [(opening, f)]) fun _ => rfl]
    exact List.map_eq_flatMap.symm
  unfold Query.clauses Query.openedFragments
  have hgroup (g : Group) : (Clause.group g).predicates.filterMap Predicate.fragment? = [] :=
    fragments_members g.members
  have hgroups := hnone hgroup q.groups
  simp only [List.flatMap_append, List.filterMap_append, hopened, hgroups]
  rw [hnone fun _ => rfl, hnone fun _ => rfl, hnone fun _ => rfl, hnone fun _ => rfl,
    hnone fun _ => rfl, hnone fun _ => rfl, hnone fun _ => rfl]
  simp only [List.nil_append, List.append_nil]

theorem rawText?_ordered {v : Value} {t u : Test} (h : Test.ordered v t = .ok u) : u = t := by
  unfold Test.ordered at h
  split at h
  · cases h
  · cases h
  · exact (Except.ok.inj h).symm

/-- No comparison is tested by raw text. -/
theorem rawText?_of_operator {operator : String} {test : Column → Value → Except Fault Test}
    (h : Test.ofOperator? operator = some test) {c : Column} {v : Value} {t : Test}
    (ht : test c v = .ok t) : t.rawText? = none := by
  unfold Test.ofOperator? at h
  split at h
  case h_16 => cases h
  case h_1 | h_2 | h_3 =>
    cases h
    cases ht
    cases v <;> rfl
  case h_4 | h_5 | h_6 | h_7 | h_8 | h_9 | h_10 =>
    cases h
    rw [rawText?_ordered ht]
    rfl
  case h_11 | h_12 =>
    cases h
    obtain ⟨vs, -, hdone⟩ := sequence_eq_ok.mp ht
    cases hdone
    rfl
  case h_13 =>
    cases h
    obtain ⟨bounds, -, hdone⟩ := sequence_eq_ok.mp ht
    cases hdone
    rfl
  case h_14 | h_15 =>
    cases h
    cases ht
    rfl

/-- A raw text is the test for a fragment, and no other test is one. -/
theorem fragment_of_tests {p : Predicate} {t : Test} (h : p.Tests t) :
    Option.Rel (fun x r => ∃ first, RawText.of first x.1 x.2.sql x.2.bindings = .ok r)
      p.fragment? t.rawText? := by
  cases p with
  | raw opening sql bindings =>
    obtain ⟨first, r, hr, rfl⟩ := h
    exact .some ⟨first, hr⟩
  | equals field v =>
    obtain ⟨c, -, rfl⟩ := h
    cases v <;> exact .none
  | compare field operator v =>
    have hnone : t.rawText? = none := by
      simp only [Predicate.Tests, Test.of] at h
      cases htest : Test.ofOperator? operator with
      | none =>
        rw [htest] at h
        cases h
      | some test =>
        rw [htest] at h
        obtain ⟨c, -, h⟩ := sequence_eq_ok.mp h
        exact rawText?_of_operator htest h
    rw [hnone]
    exact .none
  | range | null | isIn =>
    obtain ⟨c, -, rfl⟩ := h
    exact .none

/-- The raw texts of a statement are those of the fragments of its query. -/
theorem rawTexts_of_statement {catalog : Catalog} {table : String} {q : Query}
    {os : List Operation} {s : Select} (hcompile : q.compile.run.1 = .ok os)
    (hs : q.statement catalog table = .ok s) :
    List.Forall₂ (fun x r => ∃ first, RawText.of first x.1 x.2.sql x.2.bindings = .ok r)
      q.everyFragment (rawTextsOf s.bodies) := by
  apply List.rel_flatMap (bodies_of_statement hcompile hs)
  intro l b hexpresses
  rw [← fragments_clauses]
  exact List.rel_filterMap (fun _ _ h => fragment_of_tests h) hexpresses.tests

/-- A fragment that is written. It has a value for each question mark; its parameters are its
question marks, and nothing else, exactly if these stand apart. If they do, the parameters hold the
values in order, and the text is the given one around them exactly if its colons are kept. -/
structure Fragment.IsWritten (opening : String) (f : Fragment) (w : Written) : Prop where
  values : f.sql.toList.count '?' = f.bindings.length
  parts : ∃ first r, RawText.of first opening f.sql f.bindings = .ok r ∧ r.IsWritten w ∧
    (r.parts = fragmentParts opening (rawNames first f.bindings.length) f.sql.toList ↔
      standsApart none f.sql.toList = true)
  text : standsApart none f.sql.toList = true →
    ∃ names : List String, names.length = f.bindings.length ∧
      w.parameters = boundValues names f.bindings ∧
      (w.sql.toList = opening.toList ++ filled (parameterTexts names f.bindings) f.sql.toList ↔
        keepsColons none f.sql.toList = true)

theorem Fragment.isWritten {opening : String} {f : Fragment} {first : Nat} {r : RawText}
    {w : Written} (hopening : IsOpening opening)
    (hcount : f.sql.toList.count '?' = f.bindings.length)
    (hr : RawText.of first opening f.sql f.bindings = .ok r) (hw : r.IsWritten w) :
    f.IsWritten opening w := by
  constructor
  · exact hcount
  · refine ⟨first, r, hr, hw, ?_⟩
    rw [RawText.parts, (of_eq_ok hcount hr).1]
    exact fragment_parts first hopening hcount
  · exact fun hapart => fragment_written hopening hcount hapart hr hw

theorem isOpening_of_fragment {q : Query} {x : String × Fragment} (h : x ∈ q.everyFragment) :
    IsOpening x.1 := by
  obtain ⟨l, -, hx⟩ := List.mem_flatMap.mp h
  rcases List.mem_append.mp hx with hfragment | hexists
  · obtain ⟨f, -, rfl⟩ := List.mem_map.mp hfragment
    exact isOpening_parenthesis
  · obtain ⟨f, -, rfl⟩ := List.mem_map.mp hexists
    exact isOpening_exists

/-- The fragments of a query are among its predicates. -/
theorem predicate_of_fragment {q : Query} {x : String × Fragment} (h : x ∈ q.everyFragment) :
    .raw x.1 x.2.sql x.2.bindings ∈ q.everyPredicate := by
  obtain ⟨l, hl, hx⟩ := List.mem_flatMap.mp h
  rw [← fragments_clauses] at hx
  obtain ⟨p, hp, hfragment⟩ := List.mem_filterMap.mp hx
  have hpredicate : p ∈ l.predicates := List.mem_append_right _ (List.mem_append_left _ hp)
  cases p with
  | raw opening sql bindings =>
    cases hfragment
    exact List.mem_flatMap.mpr ⟨l, hl, hpredicate⟩
  | _ => cases hfragment

/-- The fragments of a statement are written as its raw texts are. -/
theorem isWritten_fragments {xs : List (String × Fragment)} {rs : List RawText} {ws : List Written}
    (hopening : ∀ x ∈ xs, IsOpening x.1)
    (hcount : ∀ x ∈ xs, x.2.sql.toList.count '?' = x.2.bindings.length)
    (hrs : List.Forall₂
      (fun x r => ∃ first, RawText.of first x.1 x.2.sql x.2.bindings = .ok r) xs rs)
    (hws : List.Forall₂ RawText.IsWritten rs ws) :
    List.Forall₂ (fun x w => x.2.IsWritten x.1 w) xs ws := by
  induction hrs generalizing ws with
  | nil =>
    cases hws
    exact .nil
  | cons hr _ ih =>
    obtain ⟨first, hr⟩ := hr
    obtain ⟨hfirst, hopening⟩ := List.forall_mem_cons.mp hopening
    obtain ⟨hvalues, hcount⟩ := List.forall_mem_cons.mp hcount
    cases hws with
    | cons hw hws => exact .cons (Fragment.isWritten hfirst hvalues hr hw) (ih hopening hcount hws)

/-- A query in which a fragment has more or fewer values than question marks is not built. Where a
query is built and its names do not clash, the fragments of the query and of the queries inside it
are written one by one into the text of the statement, with parameters that have names of their
own. -/
theorem fragments_written_with_values {limit : Option Value} {w : Value} {q : Query}
    {os : List Operation} (catalog : Catalog) (table : String)
    (hlimit : ∀ v ∈ limit, ∃ n : Int, v = .int n) (hread : Query.read limit w = .ok q)
    (hcompile : q.compile.run.1 = .ok os) :
    ((∃ x ∈ q.everyFragment, x.2.sql.toList.count '?' ≠ x.2.bindings.length) →
      ∃ f, q.statement catalog table = .error f ∧ Blames q.everyPredicate f) ∧
    ∀ s, q.statement catalog table = .ok s →
      (¬ s.NamesApart → s.written .bound = .error .unwritable) ∧
      (s.NamesApart → ∃ written ws, s.written .bound = .ok written ∧
        List.Forall₂ (fun x w => x.2.IsWritten x.1 w) q.everyFragment ws ∧
        (∀ w ∈ ws, StandsIn w.sql written.sql) ∧
        (ws.flatMap (·.parameters)).Sublist written.parameters ∧
        written.parameters.keys.Nodup) := by
  have hprobes := outcome_of_statement catalog table hcompile
    (wholeLimit_of_read hlimit hread)
  have hcounts (s : Select) (hs : q.statement catalog table = .ok s) :
      ∀ x ∈ q.everyFragment, x.2.sql.toList.count '?' = x.2.bindings.length :=
    fun x hx => hprobes.ok s hs _ (predicate_of_fragment hx)
  constructor
  · rintro ⟨x, hx, hcount⟩
    cases hs : q.statement catalog table with
    | ok s => exact absurd (hcounts s hs x hx) hcount
    | error f => exact ⟨f, rfl, hprobes.error f hs⟩
  · intro s hs
    have hbuilt := hs
    rw [statement_of_compile hcompile] at hbuilt
    obtain ⟨hlexical, hnumbers⟩ := build_scoped hbuilt
    constructor
    · exact s.unwritable_of_clash hlexical hnumbers
    · intro hapart
      obtain ⟨written, hwritten⟩ := (s.isWritten_iff hlexical hnumbers).mpr hapart
      obtain ⟨ws, hws, hstand, hsub⟩ := written_embeds hnumbers hwritten
      have hfragments := isWritten_fragments (fun _ => isOpening_of_fragment) (hcounts s hs)
        (rawTexts_of_statement hcompile hs) hws
      exact ⟨written, ws, hwritten, hfragments, hstand, hsub,
        s.nodup_parameters hnumbers hwritten⟩

/-- A fragment inside a table expression, and one with a list of values beside it. -/
def freshPosts : Value :=
  let young := .map [("sql", .text "age < ?"), ("bindings", .list [.int 7])]
  let table := [("name", .text "fresh"), ("table", .text "posts"),
    ("query", .map [("rawExpressions", .list [young])])]
  let named := .map [("sql", .text "SELECT 1 FROM tags WHERE id IN ?"),
    ("bindings", .list [.list [.int 1, .int 2]])]
  .map [("ctes", .list [.map table]), ("whereExists", .list [named])]

/-- The statement for fresh posts with a tag. -/
def freshSelect : Select :=
  let young : RawText := ⟨"(age < :raw_1)".toList, [⟨"raw_1", .int 7, false⟩]⟩
  let named : RawText := ⟨"EXISTS (SELECT 1 FROM tags WHERE id IN :raw_2)".toList,
    [⟨"raw_2", .list [.int 1, .int 2], true⟩]⟩
  let posts : Body :=
    { projection := [.column (.verbatim "*")], source := .table none "posts"
      criteria := [.one (.raw young)], groupBy := [], having := [], orderBy := [], limit := none
      offset := none }
  .mk [.plain 0 "fresh" (.mk [] posts)]
    { posts with source := .common 0 "fresh", criteria := [.one (.raw named)] }

theorem fresh_posts_written : ∃ q os written ws, Query.read none freshPosts = .ok q ∧
    q.compile.run.1 = .ok os ∧ q.statement [] "fresh" = .ok freshSelect ∧
    q.everyFragment = [("(", ⟨"age < ?", [.int 7]⟩),
      ("EXISTS (", ⟨"SELECT 1 FROM tags WHERE id IN ?", [.list [.int 1, .int 2]]⟩)] ∧
    freshSelect.written .bound = .ok written ∧
    List.Forall₂ (fun x w => x.2.IsWritten x.1 w) q.everyFragment ws ∧
    (∀ w ∈ ws, StandsIn w.sql written.sql) ∧
    (ws.flatMap (·.parameters)).Sublist written.parameters := by
  have hapart : freshSelect.NamesApart := by
    constructor
    · decide
    · simp [freshSelect, Select.entries, entriesOf, CommonTable.entries, CommonTable.halves?]
    · decide
  have hlimit : ∀ v ∈ (none : Option Value), ∃ n : Int, v = .int n := by simp
  obtain ⟨-, hbuilt⟩ := fragments_written_with_values [] "fresh" hlimit
    (show Query.read none freshPosts = .ok _ from rfl) rfl
  obtain ⟨written, ws, hwritten, hws, hstand, hsub, -⟩ := (hbuilt freshSelect rfl).2 hapart
  exact ⟨_, _, written, ws, rfl, rfl, rfl, rfl, hwritten, hws, hstand, hsub⟩

/-- A fragment whose question mark stands before a colon. -/
def castPosts : Value :=
  .map [("rawExpressions", .list
    [.map [("sql", .text "likes = ?::int"), ("bindings", .list [.int 1])]])]

theorem cast_value_unbound : ∃ q os, Query.read none castPosts = .ok q ∧
    q.compile.run.1 = .ok os ∧ q.everyFragment = [("(", ⟨"likes = ?::int", [.int 1]⟩)] ∧
    "likes = ?::int".toList.count '?' = [Value.int 1].length ∧
    q.statement [] "posts" = .error .badArgument := by
  refine ⟨_, _, rfl, rfl, rfl, ?_, ?_⟩
  · decide
  · rfl

end RowGate
