import RowGate.Proofs.Plan.Acceptance
import RowGate.Proofs.Plan.Where
import RowGate.Proofs.Query.Reading
import RowGate.Proofs.Sql.Applied
/-!
A query and the queries inside it, one after another. Main statements: a query that is compiled has
one list of operations for each of them, which is made of the clauses of that query, and a query that
is read has whole limits at all depths.
-/
namespace RowGate

open Sql Stateful

mutual

/-- A query and the queries of its table expressions at all depths, each behind those inside it. -/
def Query.levels (q : Query) : List Query :=
  match q with
  | {tables, recursiveTables, ..} =>
    tableLevels tables ++ (recursiveTableLevels recursiveTables ++ [q])

/-- The queries of table expressions at all depths. -/
def tableLevels : List (TableExpr Query) → List Query
  | [] => []
  | {query, ..} :: rest => query.levels ++ tableLevels rest

/-- The queries of recursive table expressions at all depths. -/
def recursiveTableLevels : List (RecursiveExpr Query) → List Query
  | [] => []
  | {initial, recursive, ..} :: rest =>
    initial.levels ++ (recursive.levels ++ recursiveTableLevels rest)

end

mutual

/-- The lists of operations inside an operation at all depths. -/
def Operation.levels : Operation → List (List Operation)
  | .table _ operations _ _ => innerLevels operations ++ [operations]
  | .recursiveTable _ initial recursive .. =>
    (innerLevels initial ++ [initial]) ++ (innerLevels recursive ++ [recursive])
  | _ => []

/-- The lists of operations inside operations at all depths. -/
def innerLevels : List Operation → List (List Operation)
  | [] => []
  | o :: os => o.levels ++ innerLevels os

end

/-- A list of operations behind those inside it. -/
def planLevels (os : List Operation) : List (List Operation) := innerLevels os ++ [os]

theorem innerLevels_append (os ps : List Operation) :
    innerLevels (os ++ ps) = innerLevels os ++ innerLevels ps := by
  induction os with
  | nil => rfl
  | cons o os ih => rw [List.cons_append, innerLevels, innerLevels, ih, List.append_assoc]

/-- An operation that holds no queries has none inside. -/
theorem levels_clause {o : Operation} (ho : o.isClause = true) : o.levels = [] := by
  cases o with
  | table | recursiveTable => cases ho
  | _ => rfl

theorem innerLevels_clauses {os : List Operation} (h : ∀ o ∈ os, o.isClause = true) :
    innerLevels os = [] := by
  induction os with
  | nil => rfl
  | cons o os ih =>
    obtain ⟨ho, hos⟩ := List.forall_mem_cons.mp h
    rw [innerLevels, ih hos, levels_clause ho, List.append_nil]

/-- Operations for the clauses of a query, behind those for its table expressions. -/
structure LevelPlan (q : Query) (os : List Operation) : Prop where
  split : ∃ tables clauses, os = tables ++ clauses ∧ (∀ o ∈ tables, o.isClause = false) ∧
    q.compileClauses = .ok clauses

/-- The clauses that hold no queries are compiled to operations that hold none. -/
theorem isClause_compileClauses {q : Query} {os : List Operation}
    (h : q.compileClauses = .ok os) : ∀ o ∈ os, o.isClause = true := by
  obtain ⟨windows, hwindows, rfl⟩ := compileClauses_eq_ok h
  have hfits : Fits (q.planned [] [] windows) := fits_planned q nofun nofun hwindows
  intro o ho
  obtain ⟨s, -, ho⟩ := List.mem_flatMap.mp ho
  have hstage := hfits s o ho
  cases o with
  | table | recursiveTable =>
    subst hstage
    cases ho
  | _ => rfl

section Compiling

/-- Operations for table expressions, with a list inside for each query inside. -/
structure TablePlan (qs : List Query) (os : List Operation) : Prop where
  tables : ∀ o ∈ os, o.isClause = false
  inner : List.Forall₂ LevelPlan qs (innerLevels os)

theorem TablePlan.cons {qs rs : List Query} {o : Operation} {os : List Operation}
    (ho : o.isClause = false) (hfirst : List.Forall₂ LevelPlan qs o.levels)
    (hrest : TablePlan rs os) : TablePlan (qs ++ rs) (o :: os) :=
  ⟨List.forall_mem_cons.mpr ⟨ho, hrest.tables⟩, List.rel_append hfirst hrest.inner⟩

mutual

/-- A query that is compiled has one list of operations for each query. -/
theorem levels_compile (q : Query) :
    Yields q.compile fun os => List.Forall₂ LevelPlan q.levels (planLevels os) := by
  match q with
  | {tables, recursiveTables, ..} =>
    refine yields_bind (yields_lift fun _ _ => trivial) fun _ _ => ?_
    refine yields_bind (levels_compileTables tables) fun ts hts => ?_
    refine yields_bind (levels_compileRecursiveTables recursiveTables) fun rs hrs => ?_
    refine yields_bind (yields_lift fun _ hcs => hcs) fun cs hcs => ?_
    apply yields_pure
    have hinner : innerLevels (ts ++ rs ++ cs) = innerLevels ts ++ innerLevels rs := by
      rw [innerLevels_append, innerLevels_append, innerLevels_clauses (isClause_compileClauses hcs),
        List.append_nil]
    rw [Query.levels, planLevels, hinner, List.append_assoc]
    apply List.rel_append hts.inner
    apply List.rel_append hrs.inner
    apply List.Forall₂.cons _ .nil
    refine ⟨ts ++ rs, cs, rfl, ?_, hcs⟩
    exact List.forall_mem_append.mpr ⟨hts.tables, hrs.tables⟩

theorem levels_compileTables : (ts : List (TableExpr Query)) →
    Yields (compileTables ts) (TablePlan (tableLevels ts))
  | [] => yields_pure ⟨List.forall_mem_nil _, .nil⟩
  | {name, query, columns, table} :: rest => by
    refine yields_bind (yields_lift fun _ _ => trivial) fun _ _ => ?_
    refine yields_bind (levels_compile query) fun os hos => ?_
    refine yields_bind (levels_compileTables rest) fun ps hps => ?_
    apply yields_pure
    exact .cons rfl hos hps

theorem levels_compileRecursiveTables : (ts : List (RecursiveExpr Query)) →
    Yields (compileRecursiveTables ts) (TablePlan (recursiveTableLevels ts))
  | [] => yields_pure ⟨List.forall_mem_nil _, .nil⟩
  | {name, initial, recursive, keepRepeats, columns, table, recursiveTable, recursiveColumns}
      :: rest => by
    have hparts : Yields (do
        let name ← checkIdentifier name
        let first ← initial.compile
        let next ← recursive.compile
        return .recursiveTable name first next keepRepeats columns table recursiveTable
          recursiveColumns :: (← compileRecursiveTables rest) : Logged (List Operation))
        (TablePlan (recursiveTableLevels (⟨name, initial, recursive, keepRepeats, columns, table,
          recursiveTable, recursiveColumns⟩ :: rest))) := by
      refine yields_bind (yields_lift fun _ _ => trivial) fun _ _ => ?_
      refine yields_bind (levels_compile initial) fun os hos => ?_
      refine yields_bind (levels_compile recursive) fun ps hps => ?_
      refine yields_bind (levels_compileRecursiveTables rest) fun rs hrs => ?_
      apply yields_pure
      rw [recursiveTableLevels, ← List.append_assoc]
      exact .cons rfl (List.rel_append hos hps) hrs
    unfold compileRecursiveTables
    split
    · have hlogged : Yields (logEntry .warning .planner ("Recursive CTE " ++ Text.quoted name ++
          ": recursive query does not reference the CTE by name")) fun _ => True :=
        ensures_modify fun _ _ => trivial
      exact yields_bind hlogged fun _ _ => hparts
    · exact hparts

end

/-- The lists of operations of a query that is compiled. -/
theorem compiled_levels {q : Query} {os : List Operation} (h : q.compile.run.1 = .ok os) :
    List.Forall₂ LevelPlan q.levels (planLevels os) := by
  have hrun : ExceptT.run q.compile [] = (.ok os, (q.compile.run).2) := Prod.ext h rfl
  exact levels_compile q [] os _ trivial hrun

end Compiling

/-! ## What the clauses of a query ask for -/

/-- The comparisons and the raw texts of a query: those of its windows, its conditions, and those
after grouping. -/
def Query.predicates (q : Query) : List Predicate :=
  q.framedWindows.flatMap (·.conditions.map (·.predicate)) ++
    (q.clauses.flatMap Clause.predicates ++
      q.having.map fun h => .compare h.field h.operator h.value)

/-- The comparisons of an operation that do not become conditions of the statement. -/
def Operation.asidePredicates : Operation → List Predicate
  | .framedWindow w => w.conditions.map (·.predicate)
  | .having field operator v => [.compare field operator v]
  | _ => []

/-- The comparisons and the raw texts of an operation. -/
def Operation.predicates (o : Operation) : List Predicate :=
  o.clauses.flatMap Clause.predicates ++ o.asidePredicates

/-- An operation that stands in a layout stands at its stage. -/
theorem mem_layout {f : Stage → List Operation} (hf : Fits f) {o : Operation} :
    o ∈ Stage.all.flatMap f ↔ o ∈ f o.stage := by
  have hat : o ∈ atStage o.stage (Stage.all.flatMap f) ↔ o ∈ Stage.all.flatMap f := by
    simp [atStage]
  rw [← hat, atStage_layout hf]

/-- An operation that a query is compiled to, and which holds no query, is one of its clauses. -/
theorem LevelPlan.mem_planned {q : Query} {os : List Operation} (h : LevelPlan q os) :
    ∃ windows, List.Forall₂ Window.Planned q.windows windows ∧
      ∀ o, o.isClause = true → (o ∈ os ↔ o ∈ q.planned [] [] windows o.stage) := by
  obtain ⟨tables, clauses, rfl, htables, hclauses⟩ := h.split
  obtain ⟨windows, hwindows, rfl⟩ := compileClauses_eq_ok hclauses
  have hfits : Fits (q.planned [] [] windows) := fits_planned q nofun nofun hwindows
  refine ⟨windows, hwindows, ?_⟩
  intro o ho
  rw [List.mem_append, mem_layout hfits]
  apply or_iff_right
  intro hmem
  rw [htables o hmem] at ho
  cases ho

theorem LevelPlan.asidePredicates {q : Query} {os : List Operation} (h : LevelPlan q os)
    (p : Predicate) : (∃ o ∈ os, p ∈ o.asidePredicates) ↔
      p ∈ q.framedWindows.flatMap (·.conditions.map (·.predicate)) ∨
        p ∈ q.having.map fun h => .compare h.field h.operator h.value := by
  obtain ⟨windows, -, hmem⟩ := h.mem_planned
  rw [List.mem_flatMap, List.mem_map]
  constructor
  · rintro ⟨o, ho, hp⟩
    cases o with
    | framedWindow w =>
      left
      have hw := (hmem (.framedWindow w) rfl).mp ho
      obtain ⟨x, hx, heq⟩ := List.mem_map.mp hw
      cases heq
      exact ⟨w, hx, hp⟩
    | having field operator v =>
      right
      have hh := (hmem (.having field operator v) rfl).mp ho
      obtain ⟨x, hx, heq⟩ := List.mem_map.mp hh
      cases heq
      exact ⟨x, hx, (List.mem_singleton.mp hp).symm⟩
    | _ => cases hp
  · rintro (⟨w, hw, hp⟩ | ⟨x, hx, rfl⟩)
    · refine ⟨.framedWindow w, ?_, hp⟩
      exact (hmem (.framedWindow w) rfl).mpr (List.mem_map_of_mem hw)
    · refine ⟨.having x.field x.operator x.value, ?_, List.mem_singleton_self _⟩
      exact (hmem _ rfl).mpr (List.mem_map_of_mem hx)

/-- Operations for table expressions add no conditions. -/
theorem clauses_tables {os : List Operation} (h : ∀ o ∈ os, o.isClause = false) :
    os.flatMap Operation.clauses = [] := by
  apply clauses_none
  intro o ho
  have hno := h o ho
  cases o with
  | table | recursiveTable => rfl
  | _ => cases hno

/-- The conditions of the operations for a query are those of the query. -/
theorem LevelPlan.clauses {q : Query} {os : List Operation} (h : LevelPlan q os) :
    Same (os.flatMap Operation.clauses) q.clauses := by
  obtain ⟨tables, clauses, rfl, htables, hclauses⟩ := h.split
  rw [List.flatMap_append, clauses_tables htables, List.nil_append]
  exact clauses_compileClauses hclauses

/-- The operations for a query make the comparisons of the query. -/
theorem LevelPlan.predicates {q : Query} {os : List Operation} (h : LevelPlan q os)
    (p : Predicate) : (∃ o ∈ os, p ∈ o.predicates) ↔ p ∈ q.predicates := by
  have hclauses : (∃ o ∈ os, p ∈ o.clauses.flatMap Clause.predicates) ↔
      p ∈ q.clauses.flatMap Clause.predicates := by
    rw [← h.clauses.1, List.flatMap_assoc, List.mem_flatMap]
  unfold Operation.predicates Query.predicates
  simp only [List.mem_append, and_or_left, exists_or, hclauses, h.asidePredicates]
  exact or_left_comm

/-! ## Limits and window functions -/

/-- A limit that is a whole number, if there is one. -/
def Query.HasWholeLimit (q : Query) : Prop := ∀ v ∈ q.limit, ∃ n : Int, v = .int n

/-- An operation whose count is a whole number, and whose window function exists. -/
def Operation.IsReady : Operation → Prop
  | .limit v => ∃ n : Int, v = .int n
  | .framedWindow w => w.type ∈ windowTypes
  | _ => True

theorem framedWindow_type {q : Query} {os : List Operation} (h : q.compileClauses = .ok os) :
    ∀ w ∈ q.framedWindows, w.type ∈ windowTypes := by
  intro w hw
  have hmet := (settles_clauses q).ok_iff.mp ⟨os, h⟩
  have hall : ∀ r ∈ w.requirements, r.Met := by
    intro r hr
    apply hmet
    unfold Query.clauseRequirements
    apply List.mem_append_right
    apply List.mem_append_left
    exact List.mem_flatMap.mpr ⟨w, hw, hr⟩
  exact (met_framedWindow.mp hall).type

/-- The operations for a query with a whole limit are ready. -/
theorem LevelPlan.isReady {q : Query} {os : List Operation} (h : LevelPlan q os)
    (hlimit : q.HasWholeLimit) : ∀ o ∈ os, o.IsReady := by
  obtain ⟨windows, -, hmem⟩ := h.mem_planned
  obtain ⟨tables, clauses, -, -, hclauses⟩ := h.split
  intro o ho
  cases o with
  | limit v =>
    have hv := (hmem (.limit v) rfl).mp ho
    simp only [Operation.stage, Query.planned, Option.mem_toList, Option.map_eq_some_iff] at hv
    obtain ⟨count, hcount, heq⟩ := hv
    cases heq
    exact hlimit v hcount
  | framedWindow w =>
    have hw := (hmem (.framedWindow w) rfl).mp ho
    obtain ⟨x, hx, heq⟩ := List.mem_map.mp hw
    cases heq
    exact framedWindow_type hclauses w hx
  | _ => trivial

theorem forall_tableLevels {P : Query → Prop} {ts : List (TableExpr Query)} :
    (∀ l ∈ tableLevels ts, P l) ↔ ∀ t ∈ ts, ∀ l ∈ t.query.levels, P l := by
  induction ts with
  | nil => simp [tableLevels]
  | cons t ts ih =>
    obtain ⟨name, query, columns, table⟩ := t
    rw [tableLevels, List.forall_mem_append, List.forall_mem_cons, ih]

theorem forall_recursiveTableLevels {P : Query → Prop} {ts : List (RecursiveExpr Query)} :
    (∀ l ∈ recursiveTableLevels ts, P l) ↔
      ∀ t ∈ ts, (∀ l ∈ t.initial.levels, P l) ∧ ∀ l ∈ t.recursive.levels, P l := by
  induction ts with
  | nil => simp [recursiveTableLevels]
  | cons t ts ih =>
    rw [recursiveTableLevels, List.forall_mem_append, List.forall_mem_append, List.forall_mem_cons,
      ih, and_assoc]

theorem Query.levels_eq (q : Query) :
    q.levels = tableLevels q.tables ++ (recursiveTableLevels q.recursiveTables ++ [q]) := by
  cases q
  rw [levels]

theorem forall_levels {P : Query → Prop} {q : Query} : (∀ l ∈ q.levels, P l) ↔
    P q ∧ (∀ t ∈ q.tables, ∀ l ∈ t.query.levels, P l) ∧
      ∀ t ∈ q.recursiveTables, (∀ l ∈ t.initial.levels, P l) ∧ ∀ l ∈ t.recursive.levels, P l := by
  rw [q.levels_eq, List.forall_mem_append, List.forall_mem_append, List.forall_mem_singleton,
    forall_tableLevels, forall_recursiveTableLevels]
  tauto

/-- A query that is read has whole limits at all depths, if what stands in for a missing one is
whole. -/
theorem wholeLimit_of_read {limit : Option Value} {w : Value} {q : Query}
    (hlimit : ∀ v ∈ limit, ∃ n : Int, v = .int n) (h : Query.read limit w = .ok q) :
    ∀ l ∈ q.levels, l.HasWholeLimit := by
  have hholds : ReadsHold (fun limit => ∀ v ∈ limit, ∃ n : Int, v = .int n)
      (fun q => ∀ l ∈ q.levels, l.HasWholeLimit) w := by
    apply readsHold (W := fun _ => True) (fun _ _ _ _ => trivial) trivial nofun _ w trivial
    intro limit r q hlimit _ htables hrecursive hread
    have hown : q.HasWholeLimit := by
      intro v hv
      rw [hread.limit] at hv
      cases hpositive : positiveUnder r "limit" with
      | none =>
        rw [hpositive] at hv
        exact hlimit v hv
      | some n =>
        rw [hpositive] at hv
        exact ⟨n, (Option.some.inj hv).symm⟩
    exact forall_levels.mpr ⟨hown, htables, hrecursive⟩
  exact hholds.query limit q hlimit h

end RowGate
