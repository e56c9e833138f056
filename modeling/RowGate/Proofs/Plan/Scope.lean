import RowGate.Proofs.Plan.Where
import RowGate.Proofs.Sql.Scope
/-!
What the names in the statement for a query denote. Main statement: all sources of a statement are
what names denote lexically, the text lists its table expressions under different names, and a name
in the text denotes its source exactly if it is not captured.
-/
namespace RowGate

open Sql

open Stateful

theorem statement_built {catalog : Catalog} {table : String} {q : Query} {s : Select}
    (h : q.statement catalog table = .ok s) :
    ∃ operations, build catalog table operations = .ok s := by
  have hbuilt : Yields (do build catalog table (← q.compile) : Logged Select)
      fun s => ∃ operations, build catalog table operations = .ok s :=
    yields_bind (p := fun _ => True) (fun _ _ _ _ _ => trivial) fun operations _ =>
      yields_lift fun s hs => ⟨operations, hs⟩
  exact hbuilt [] s _ trivial (Prod.ext h rfl)

/-- The table expressions of a query keep their lexical scopes in the text, up to captured names. -/
theorem scopes_kept_unless_captured {catalog : Catalog} {table : String} {q : Query} {s : Select}
    {form : Form} {w : Written} (hs : q.statement catalog table = .ok s)
    (hw : s.written form = .ok w) :
    s.Lexical [] ∧ StatementText s w.sql ∧ (names (s.entries [])).Nodup ∧
      ∀ r ∈ s.readings, denoted r.visible r.source.path = some r.source ↔ ¬ r.Captured := by
  obtain ⟨operations, hbuilt⟩ := statement_built hs
  obtain ⟨hlexical, hnumbers⟩ := build_scoped hbuilt
  obtain ⟨hnames, htext⟩ := written_lists hnumbers hw
  refine ⟨hlexical, htext, hnames, ?_⟩
  intro r hr
  obtain ⟨hplaced, hvisible⟩ := placed_readings hlexical hnumbers hr
  exact denoted_iff hplaced (hnames.sublist (hvisible.sublist.map _))

/-- A table expression inside another one, and a recursive one that reads from both of them. -/
def nested : Query :=
  let offices : TableExpr Query := ⟨"offices", Query.empty none, [], some "sites"⟩
  let active : Query := { Query.empty none with tables := [offices] }
  { Query.empty none with
    tables := [⟨"active", active, [], some "offices"⟩]
    recursiveTables :=
      [⟨"chain", Query.empty none, Query.empty none, true, ["*"], some "active", none, []⟩] }

/-- All columns of a source. -/
def allOf (source : Source) : Body :=
  { projection := [.column (.verbatim "*")], source, criteria := [], groupBy := [], having := [],
    orderBy := [], limit := none, offset := none }

/-- The statement for the nested table expressions. -/
def nestedSelect : Select :=
  let offices := .plain 0 "offices" (.mk [] (allOf (.table none "sites")))
  let active := .plain 1 "active" (.mk [offices] (allOf (.common 0 "offices")))
  let chain := .recursive 2 "chain" (.mk [] (allOf (.common 1 "active")))
    (.mk [] (allOf (.common 2 "chain"))) true
  .mk [active, chain] (allOf (.common 2 "chain"))

theorem nested_tables_denoted : ∃ w, nested.statement [] "chain" = .ok nestedSelect ∧
    nestedSelect.written .bound = .ok w ∧
    w.sql = "WITH RECURSIVE offices AS \n(SELECT * \nFROM sites), \n" ++
      "active AS \n(SELECT * \nFROM offices), \n" ++
      "chain(\"*\") AS \n(SELECT * \nFROM active UNION ALL SELECT * \nFROM chain)\n " ++
      "SELECT * \nFROM chain" ∧
    StatementText nestedSelect w.sql ∧ ∀ r ∈ nestedSelect.readings, ¬ r.Captured := by
  have hs : nested.statement [] "chain" = .ok nestedSelect := by cbv
  have hw : ∃ w, nestedSelect.written .bound = .ok w := ⟨_, rfl⟩
  obtain ⟨w, hw⟩ := hw
  obtain ⟨-, htext, -, hdenoted⟩ := scopes_kept_unless_captured hs hw
  have hall : nestedSelect.readings.all fun r =>
      denoted r.visible r.source.path = some r.source := by
    decide
  refine ⟨w, hs, hw, ?_, htext, ?_⟩
  · cases hw
    decide +kernel
  · intro r hr
    exact (hdenoted r hr).mp (of_decide_eq_true (List.all_eq_true.mp hall r hr))

/-- A table expression inside another one that has the name of the queried table. -/
def capturing : Query :=
  let posts : TableExpr Query := ⟨"posts", Query.empty none, [], some "secrets"⟩
  let inner : Query := { Query.empty none with tables := [posts] }
  { Query.empty none with tables := [⟨"a", inner, [], some "users"⟩] }

/-- The statement with the captured name. -/
def capturingSelect : Select :=
  let posts := .plain 0 "posts" (.mk [] (allOf (.table none "secrets")))
  .mk [.plain 1 "a" (.mk [posts] (allOf (.table none "users")))] (allOf (.table none "posts"))

theorem nested_table_captures : ∃ w, capturing.statement [] "posts" = .ok capturingSelect ∧
    capturingSelect.written .bound = .ok w ∧
    w.sql = "WITH posts AS \n(SELECT * \nFROM secrets), \na AS \n(SELECT * \nFROM users)\n " ++
      "SELECT * \nFROM posts" ∧
    ∃ r ∈ capturingSelect.readings, r.source = .table none "posts" ∧
      denoted r.visible r.source.path = some (.common 0 "posts") := by
  have hs : capturing.statement [] "posts" = .ok capturingSelect := by with_unfolding_all rfl
  refine ⟨_, hs, rfl, by decide, ?_⟩
  exact ⟨⟨.table none "posts", capturingSelect.entries [], []⟩,
    List.mem_append_right _ (List.mem_singleton_self _), rfl, by decide⟩

end RowGate
