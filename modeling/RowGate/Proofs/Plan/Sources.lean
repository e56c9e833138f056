import RowGate.Proofs.Plan.Stages
import RowGate.Proofs.Sql.Sources
/-!
The tables that a query names. Main statement: a query that is compiled names the same sources as
its operations.
-/
namespace RowGate

open Stateful

mutual

/-- The tables that a query names for its table expressions, at all depths. -/
def Query.named (q : Query) : List String :=
  match q with
  | {tables, recursiveTables, ..} => tablesNamed tables ++ recursiveTablesNamed recursiveTables

/-- The tables that table expressions name. -/
def tablesNamed : List (TableExpr Query) → List String
  | [] => []
  | {query, table, ..} :: rest => givenName table ++ query.named ++ tablesNamed rest

/-- The tables that recursive table expressions name. -/
def recursiveTablesNamed : List (RecursiveExpr Query) → List String
  | [] => []
  | {initial, recursive, table, recursiveTable, ..} :: rest =>
    givenName table ++ givenName recursiveTable ++ initial.named ++ recursive.named ++
      recursiveTablesNamed rest

end

theorem namedSources_append (os ps : List Operation) :
    namedSources (os ++ ps) = namedSources os ++ namedSources ps := by
  induction os with
  | nil => rfl
  | cons o os ih => simp only [List.cons_append, namedSources, ih, List.append_assoc]

/-- Operations that name no sources. -/
def Sourceless (os : List Operation) : Prop := ∀ o ∈ os, o.named = []

theorem Sourceless.named {os : List Operation} (h : Sourceless os) : namedSources os = [] := by
  induction os with
  | nil => rfl
  | cons o os ih =>
    obtain ⟨ho, hos⟩ := List.forall_mem_cons.mp h
    rw [namedSources, ho, ih hos]
    rfl

/-- The clauses that hold no queries name no sources. -/
theorem sourceless_compileClauses {q : Query} {os : List Operation}
    (h : q.compileClauses = .ok os) : Sourceless os := by
  obtain ⟨windows, hwindows, rfl⟩ := compileClauses_eq_ok h
  have hfits : Fits (q.planned [] [] windows) := fits_planned q nofun nofun hwindows
  intro o ho
  obtain ⟨s, -, ho⟩ := List.mem_flatMap.mp ho
  have hstage := hfits s o ho
  cases o with
  | table | recursiveTable =>
    subst hstage
    cases ho
  | _ => rfl

mutual

/-- A query that is compiled names the sources that its operations name. -/
theorem named_compile (q : Query) : Yields q.compile fun os => namedSources os = q.named := by
  match q with
  | {tables, recursiveTables, ..} =>
    refine yields_bind (yields_lift fun _ _ => trivial) fun _ _ => ?_
    refine yields_bind (named_compileTables tables) fun ts hts => ?_
    refine yields_bind (named_compileRecursiveTables recursiveTables) fun rs hrs => ?_
    refine yields_bind (yields_lift fun _ => sourceless_compileClauses) fun cs hcs => ?_
    refine yields_pure ?_
    rw [namedSources_append, namedSources_append, hts, hrs, hcs.named, List.append_nil]
    rfl

theorem named_compileTables : (ts : List (TableExpr Query)) →
    Yields (compileTables ts) fun os => namedSources os = tablesNamed ts
  | [] => yields_pure rfl
  | {name, query, columns, table} :: rest => by
    refine yields_bind (yields_lift fun _ _ => trivial) fun _ _ => ?_
    refine yields_bind (named_compile query) fun os hos => ?_
    refine yields_bind (named_compileTables rest) fun ps hps => ?_
    refine yields_pure ?_
    simp only [namedSources, Operation.named, tablesNamed, hos, hps]

theorem named_compileRecursiveTables : (ts : List (RecursiveExpr Query)) →
    Yields (compileRecursiveTables ts) fun os => namedSources os = recursiveTablesNamed ts
  | [] => yields_pure rfl
  | {name, initial, recursive, keepRepeats, columns, table, recursiveTable, recursiveColumns}
      :: rest => by
    have hparts : Yields (do
        let name ← checkIdentifier name
        let first ← initial.compile
        let next ← recursive.compile
        return .recursiveTable name first next keepRepeats columns table recursiveTable
          recursiveColumns :: (← compileRecursiveTables rest) : Logged (List Operation))
        fun os => namedSources os = recursiveTablesNamed
          (⟨name, initial, recursive, keepRepeats, columns, table, recursiveTable, recursiveColumns⟩
            :: rest) := by
      refine yields_bind (yields_lift fun _ _ => trivial) fun _ _ => ?_
      refine yields_bind (named_compile initial) fun os hos => ?_
      refine yields_bind (named_compile recursive) fun ps hps => ?_
      refine yields_bind (named_compileRecursiveTables rest) fun rs hrs => ?_
      refine yields_pure ?_
      simp only [namedSources, Operation.named, recursiveTablesNamed, hos, hps, hrs]
    unfold compileRecursiveTables
    split
    · have hlogged : Yields (logEntry .warning .planner ("Recursive CTE " ++ Text.quoted name ++
          ": recursive query does not reference the CTE by name")) fun _ => True :=
        ensures_modify fun _ _ => trivial
      exact yields_bind hlogged fun _ _ => hparts
    · exact hparts

end

end RowGate
