import RowGate.Sql.Draft
import RowGate.Proofs.Sequence
import RowGate.Proofs.Stateful
/-!
What operations do to the table expressions of a draft. Main statement: operations that do not fail
take a draft from one state to the next as `Applied` says, and only table expressions touch what
names denote.
-/
namespace RowGate

/-- Operations that declare no table expression. -/
def Operation.isClause : Operation → Bool
  | .table .. | .recursiveTable .. => false
  | _ => true

namespace Sql

open Stateful

/-- Drafts with the same table expressions, and in which names denote the same. -/
structure Draft.SameTables (d d' : Draft) : Prop where
  table : d'.table = d.table
  scope : d'.scope = d.scope
  tables : d'.tables = d.tables
  nextTable : d'.nextTable = d.nextTable

/-- Work that leaves the table expressions of a draft alone. -/
abbrev Drafting.Clause {α : Type} (work : Drafting α) : Prop :=
  ∀ d : Draft, Ensures d.SameTables work fun _ => d.SameTables

/-- A part of drafts that conditions are not put into. -/
structure Draft.Aside {γ : Type} (part : Draft → γ) : Prop where
  nextRaw (d : Draft) (n : Nat) : part { d with nextRaw := n } = part d
  criteria (d : Draft) (cs : List Criterion) : part { d with criteria := cs } = part d

/-- The clauses of a stage are not put into a part of drafts. -/
def Draft.Spares {γ : Type} (part : Draft → γ) : Stage → Prop
  | .ctes | .recursiveCtes =>
    ∀ (d : Draft) (nextRaw nextTable : Nat) (tables : List CommonTable)
      (scope : List (String × Source)), part { d with nextRaw, nextTable, tables, scope } = part d
  | .windows | .advancedWindows =>
    ∀ (d : Draft) (ps : List Projection), part { d with windows := ps } = part d
  | .aggregates => ∀ (d : Draft) (ps : List Projection), part { d with aggregates := ps } = part d
  | .groupBy => ∀ (d : Draft) (fields : List String), part { d with groupBy := fields } = part d
  | .having => ∀ (d : Draft) (cs : List Criterion), part { d with having := cs } = part d
  | .orderBy => ∀ (d : Draft) (ks : List OrderKey), part { d with orderBy := ks } = part d
  | .limit => ∀ (d : Draft) (v : Value), part { d with limit := v } = part d
  | .offset => ∀ (d : Draft) (v : Value), part { d with offset := v } = part d
  | _ => Draft.Aside part

/-- Work that leaves a part of a draft alone. -/
abbrev Drafting.Leaves {α γ : Type} (part : Draft → γ) (work : Drafting α) : Prop :=
  ∀ c, Ensures (fun d => part d = c) work fun _ d => part d = c

namespace Drafting

section

variable {α β γ : Type} {part : Draft → γ}

theorem leaves_pure (a : α) : Leaves part (pure a) := fun _ => ensures_pure fun _ hd => hd

theorem leaves_lift (y : Except Fault α) : Leaves part (liftM y : Drafting α) :=
  fun _ => ensures_lift fun _ _ _ hd => hd

theorem leaves_bind {x : Drafting α} {f : α → Drafting β} (hx : Leaves part x)
    (hf : ∀ a, Leaves part (f a)) : Leaves part (x >>= f) :=
  fun c => ensures_bind (hx c) fun a => hf a c

theorem leaves_modify {f : Draft → Draft} (hf : ∀ d, part (f d) = part d) :
    Leaves part (modify f : Drafting PUnit) :=
  fun _ => ensures_modify fun d hd => (hf d).trans hd

/-- Work that checks something and then adds it. -/
theorem leaves_checked {y : Except Fault α} {f : α → Draft → Draft}
    (hf : ∀ a d, part (f a d) = part d) :
    Leaves part (do modify (f (← liftM y)) : Drafting PUnit) :=
  leaves_bind (leaves_lift y) fun a => leaves_modify (hf a)

section Conditions

variable (hpart : Draft.Aside part)

include hpart

theorem leaves_addCriterion (c : Criterion) : Leaves part (addCriterion c) :=
  leaves_modify fun d => hpart.criteria d _

theorem leaves_addTest (t : Except Fault Test) : Leaves part (addTest t) :=
  leaves_bind (leaves_lift t) fun _ => leaves_addCriterion hpart _

theorem leaves_rawText (opening sql : String) (bindings : List Value) :
    Leaves part (rawText opening sql bindings) := by
  unfold rawText
  apply leaves_bind (leaves_lift _)
  intro _
  apply leaves_bind fun c => ensures_get fun _ hd => hd
  intro d
  exact leaves_bind (leaves_modify fun d => hpart.nextRaw d _) fun _ => leaves_lift _

theorem leaves_addRaw (opening sql : String) (bindings : List Value) :
    Leaves part (addRaw opening sql bindings) :=
  leaves_bind (leaves_rawText hpart opening sql bindings) fun _ => leaves_addCriterion hpart _

theorem leaves_addEquals (values : Record) : Leaves part (addEquals values) := by
  induction values with
  | nil => exact leaves_pure _
  | cons field rest ih =>
    apply leaves_bind (leaves_lift _)
    intro column
    exact leaves_bind (leaves_addCriterion hpart _) fun _ => ih

theorem leaves_addGroup (g : Group) : Leaves part (addGroup g) := by
  apply leaves_bind (leaves_lift _)
  intro c
  cases c with
  | none => exact leaves_pure _
  | some c => exact leaves_addCriterion hpart c

end Conditions

theorem leaves_addGroupBy
    (hpart : ∀ (d : Draft) (fields : List String), part { d with groupBy := fields } = part d)
    (fields : List String) : Leaves part (addGroupBy fields) := by
  induction fields with
  | nil => exact leaves_pure _
  | cons field rest ih =>
    apply leaves_bind (leaves_lift _)
    intro f
    exact leaves_bind (leaves_modify fun d => hpart d _) fun _ => ih

theorem leaves_addAggregate
    (hpart : ∀ (d : Draft) (ps : List Projection), part { d with aggregates := ps } = part d)
    (type field name : String) : Leaves part (addAggregate type field name) := by
  unfold addAggregate
  split
  · apply leaves_bind (leaves_lift _)
    intro column
    exact leaves_checked fun _ d => hpart d _
  · exact fun _ => ensures_throw

theorem leaves_addFramedWindow
    (hpart : ∀ (d : Draft) (ps : List Projection), part { d with windows := ps } = part d)
    (w : FramedWindow) : Leaves part (addFramedWindow w) := by
  apply leaves_bind (leaves_lift _)
  intro column
  exact leaves_checked fun _ d => hpart d _

end

end Drafting

namespace Draft

/-- A draft after work on one inside it: it goes on counting where that one has stopped. -/
def after (d inside : Draft) : Draft :=
  { d with nextRaw := inside.nextRaw, nextTable := inside.nextTable }

/-- A draft that has given out a number. -/
def numbered (d : Draft) : Draft := { d with nextTable := d.nextTable + 1 }

/-- A draft with one more table expression. -/
def declaring (d : Draft) (t : CommonTable) : Draft :=
  { d with tables := d.tables ++ [t], scope := (t.name, t.source) :: d.scope }

end Draft

mutual

/-- What an operation makes of a draft. -/
inductive Applied : Operation → Draft → Draft → Prop
  | table {name operations columns source d inside query} :
      AppliedAll operations (d.child (Drafting.orElse source d.table) columns []) inside →
      inside.statement = .ok query →
      Applied (.table name operations columns source) d
        ((d.after inside).numbered.declaring (.plain inside.nextTable name query))
  | recursiveTable {name initial recursive keepRepeats columns source recursiveSource
      recursiveColumns d firstColumns nextColumns firstInside nextInside first next} :
      AppliedAll initial (d.child (Drafting.orElse source d.table) firstColumns []) firstInside →
      firstInside.statement = .ok first →
      AppliedAll recursive
        ((d.after firstInside).numbered.child (Drafting.orElse recursiveSource name) nextColumns
          [(name, .common firstInside.nextTable name)]) nextInside →
      nextInside.statement = .ok next →
      Applied (.recursiveTable name initial recursive keepRepeats columns source recursiveSource
          recursiveColumns) d
        (((d.after firstInside).numbered.after nextInside).declaring
          (.recursive firstInside.nextTable name first next keepRepeats))
  | clause {o d d'} : o.isClause → d.SameTables d' → Applied o d d'

/-- What operations make of a draft, one after another. -/
inductive AppliedAll : List Operation → Draft → Draft → Prop
  | nil {d} : AppliedAll [] d d
  | cons {o os d d' d''} : Applied o d d' → AppliedAll os d' d'' → AppliedAll (o :: os) d d''

end

/-- The columns of a recursive table expression: those that are listed, or those of a table. -/
def Draft.recursiveColumns (d : Draft) (source : String) (columns : List String) :
    Except Fault (List String) :=
  if columns.isEmpty then d.knownColumns source else .ok columns

namespace Drafting

/-- Work inside a draft is done beside it. -/
theorem run_inner {table : String} {columns : List String} {own : List (String × Source)}
    {work : Drafting Unit} {d inside : Draft} {result : Except Fault Unit}
    (h : work.run (d.child table columns own) = (result, inside)) :
    (inner table columns own work).run d =
      (result >>= fun _ => inside.statement, d.after inside) := by
  have hget : (get : Drafting Draft).run d = (.ok d, d) := rfl
  unfold inner
  rw [run_sequence, hget]
  dsimp only
  rw [h]
  cases result with
  | error f => rfl
  | ok u =>
    dsimp only
    cases inside.statement <;> rfl

/-- Work inside a draft ends with the statement of the inner draft. -/
theorem inner_ok {table : String} {columns : List String} {own : List (String × Source)}
    {work : Drafting Unit} {d d' : Draft} {query : Select}
    (h : (inner table columns own work).run d = (.ok query, d')) :
    ∃ inside, work.run (d.child table columns own) = (.ok (), inside) ∧
      inside.statement = .ok query ∧ d' = d.after inside := by
  rcases hwork : work.run (d.child table columns own) with ⟨result, inside⟩
  rw [run_inner hwork] at h
  obtain ⟨hresult, rfl⟩ := Prod.mk.inj h
  obtain ⟨_, rfl, hstatement⟩ := sequence_eq_ok.mp hresult
  exact ⟨inside, rfl, hstatement, rfl⟩

/-- A table expression is what work inside its own draft has made. -/
theorem run_addTable {name : String} {work : Drafting Unit} {columns : List String}
    {source : Option String} {d d' : Draft}
    (h : (addTable name work columns source).run d = (.ok (), d')) :
    ∃ inside query, work.run (d.child (orElse source d.table) columns []) = (.ok (), inside) ∧
      inside.statement = .ok query ∧
      d' = (d.after inside).numbered.declaring (.plain inside.nextTable name query) := by
  unfold addTable at h
  obtain ⟨_, _, hget, h⟩ := run_sequence_ok h
  cases hget
  obtain ⟨query, _, hinner, h⟩ := run_sequence_ok h
  obtain ⟨inside, hinside, hquery, rfl⟩ := inner_ok hinner
  cases h
  exact ⟨inside, query, hinside, hquery, rfl⟩

theorem addTable_ok {name : String} {operations : List Operation} {columns : List String}
    {source : Option String} {d d' : Draft}
    (hwork : ∀ e e', (applyOperations operations).run e = (.ok (), e') →
      AppliedAll operations e e')
    (h : (addTable name (applyOperations operations) columns source).run d = (.ok (), d')) :
    Applied (.table name operations columns source) d d' := by
  obtain ⟨inside, query, hinside, hquery, rfl⟩ := run_addTable h
  exact .table (hwork _ _ hinside) hquery

/-- The halves of a recursive table expression with columns, and its declaration. -/
def addHalves (name : String) (initial recursive : Drafting Unit) (keepRepeats : Bool)
    (source recursiveSource : String) (recursiveColumns columns : List String) : Drafting Unit := do
  if columns.isEmpty then throw (.unsupported (.recursiveWithoutColumns name))
  else
    let first ← inner source columns [] initial
    let id ← freshTable
    let next ← inner recursiveSource
      (if recursiveColumns.isEmpty then columns else recursiveColumns)
      [(name, .common id name)] recursive
    declare (.recursive id name first next keepRepeats)

/-- The columns of a recursive table expression are found before its halves are looked at. -/
theorem addRecursiveTable_eq (name : String) (initial recursive : Drafting Unit)
    (keepRepeats : Bool) (columns : List String) (source recursiveSource : Option String)
    (recursiveColumns : List String) :
    addRecursiveTable name initial recursive keepRepeats columns source recursiveSource
        recursiveColumns =
      get >>= fun d => liftM (d.recursiveColumns (orElse source d.table) columns) >>=
        addHalves name initial recursive keepRepeats (orElse source d.table)
          (orElse recursiveSource name) recursiveColumns := by
  unfold addRecursiveTable
  congr 1
  funext d
  unfold Draft.recursiveColumns
  dsimp only
  split <;> rfl

/-- A recursive table expression is what work inside two drafts of its own has made. -/
theorem run_addRecursiveTable {name : String} {initial recursive : Drafting Unit}
    {keepRepeats : Bool} {columns recursiveColumns : List String}
    {source recursiveSource : Option String} {d d' : Draft}
    (h : (addRecursiveTable name initial recursive keepRepeats columns source recursiveSource
      recursiveColumns).run d = (.ok (), d')) :
    ∃ firstColumns nextColumns firstInside nextInside first next,
      initial.run (d.child (orElse source d.table) firstColumns []) = (.ok (), firstInside) ∧
      firstInside.statement = .ok first ∧
      recursive.run ((d.after firstInside).numbered.child (orElse recursiveSource name) nextColumns
        [(name, .common firstInside.nextTable name)]) = (.ok (), nextInside) ∧
      nextInside.statement = .ok next ∧
      d' = ((d.after firstInside).numbered.after nextInside).declaring
        (.recursive firstInside.nextTable name first next keepRepeats) := by
  rw [addRecursiveTable_eq] at h
  obtain ⟨_, _, hget, h⟩ := run_sequence_ok h
  cases hget
  obtain ⟨listed, -, h⟩ := run_checked_ok h
  unfold addHalves at h
  split at h
  · cases h
  · obtain ⟨first, _, hfirst, h⟩ := run_sequence_ok h
    obtain ⟨firstInside, hfirstInside, hfirstStatement, rfl⟩ := inner_ok hfirst
    obtain ⟨_, _, hfresh, h⟩ := run_sequence_ok h
    cases hfresh
    obtain ⟨next, _, hnext, h⟩ := run_sequence_ok h
    obtain ⟨nextInside, hnextInside, hnextStatement, rfl⟩ := inner_ok hnext
    cases h
    exact ⟨_, _, firstInside, nextInside, first, next, hfirstInside, hfirstStatement,
      hnextInside, hnextStatement, rfl⟩

theorem addRecursiveTable_ok {name : String} {initial recursive : List Operation}
    {keepRepeats : Bool} {columns recursiveColumns : List String}
    {source recursiveSource : Option String} {d d' : Draft}
    (hinitial : ∀ e e', (applyOperations initial).run e = (.ok (), e') → AppliedAll initial e e')
    (hrecursive : ∀ e e', (applyOperations recursive).run e = (.ok (), e') →
      AppliedAll recursive e e')
    (h : (addRecursiveTable name (applyOperations initial) (applyOperations recursive) keepRepeats
      columns source recursiveSource recursiveColumns).run d = (.ok (), d')) :
    Applied (.recursiveTable name initial recursive keepRepeats columns source recursiveSource
      recursiveColumns) d d' := by
  obtain ⟨_, _, _, _, _, _, hfirst, hfirstStatement, hnext, hnextStatement, rfl⟩ :=
    run_addRecursiveTable h
  exact .recursiveTable (hinitial _ _ hfirst) hfirstStatement (hrecursive _ _ hnext)
    hnextStatement

end Drafting

/-- Operations touch no part but those that the clauses of their stage are put into. -/
theorem leaves_applyOperation {γ : Type} {part : Draft → γ} {o : Operation}
    (hpart : Draft.Spares part o.stage) : Drafting.Leaves part (applyOperation o) := by
  cases o with
  | table name operations columns source =>
    intro c d _ d' hd h
    simp only [applyOperation] at h
    obtain ⟨inside, query, -, -, rfl⟩ := Drafting.run_addTable h
    exact (hpart d _ _ _ _).trans hd
  | recursiveTable =>
    intro c d _ d' hd h
    simp only [applyOperation] at h
    obtain ⟨_, _, _, _, _, _, -, -, -, -, rfl⟩ := Drafting.run_addRecursiveTable h
    exact (hpart d _ _ _ _).trans hd
  | window => exact Drafting.leaves_checked fun _ d => hpart d _
  | framedWindow w => exact Drafting.leaves_addFramedWindow hpart w
  | equals values => exact Drafting.leaves_addEquals hpart values
  | fragment sql bindings => exact Drafting.leaves_addRaw hpart _ sql bindings
  | aggregate type field label => exact Drafting.leaves_addAggregate hpart type field label
  | condition | range | isNull | notNull | isIn | notIn => exact Drafting.leaves_addTest hpart _
  | exists_ sql bindings => exact Drafting.leaves_addRaw hpart _ sql bindings
  | group g => exact Drafting.leaves_addGroup hpart g
  | groupBy fields => exact Drafting.leaves_addGroupBy hpart fields
  | having => exact Drafting.leaves_checked fun _ d => hpart d _
  | orderBy => exact Drafting.leaves_checked fun _ d => hpart d _
  | limit | offset => exact Drafting.leaves_modify fun d => hpart d _

theorem clause_applyOperation {o : Operation} (ho : o.isClause) :
    Drafting.Clause (applyOperation o) := by
  have hspares : Draft.Spares (fun d => (d.table, d.scope, d.tables, d.nextTable)) o.stage := by
    cases o with
    | table | recursiveTable => cases ho
    | window | framedWindow | aggregate | groupBy | having | orderBy | limit | offset =>
      exact fun _ _ => rfl
    | _ => exact ⟨fun _ _ => rfl, fun _ _ => rfl⟩
  have hleaves := leaves_applyOperation hspares
  intro d s a t hs hrun
  have hsame := hleaves _ s a t rfl hrun
  simp only [Prod.mk.injEq] at hsame
  obtain ⟨htable, hscope, htables, hnext⟩ := hsame
  exact ⟨htable.trans hs.table, hscope.trans hs.scope, htables.trans hs.tables,
    hnext.trans hs.nextTable⟩

theorem applied_of_clause {o : Operation} (ho : o.isClause) {d d' : Draft}
    (h : (applyOperation o).run d = (.ok (), d')) : Applied o d d' :=
  .clause ho (clause_applyOperation ho d d () d' ⟨rfl, rfl, rfl, rfl⟩ h)

mutual

/-- An operation that does not fail is applied to a draft. -/
theorem applied_of_run : (o : Operation) → ∀ d d', (applyOperation o).run d = (.ok (), d') →
    Applied o d d'
  | .table name operations columns source => fun d d' h => by
    simp only [applyOperation] at h
    exact Drafting.addTable_ok (appliedAll_of_run operations) h
  | .recursiveTable name initial recursive keepRepeats columns source recursiveSource
      recursiveColumns => fun d d' h => by
    simp only [applyOperation] at h
    exact Drafting.addRecursiveTable_ok (appliedAll_of_run initial) (appliedAll_of_run recursive) h
  | .window .. | .framedWindow .. | .equals .. | .fragment .. | .aggregate .. | .condition ..
  | .range .. | .isNull .. | .notNull .. | .isIn .. | .notIn .. | .exists_ .. | .group ..
  | .groupBy .. | .having .. | .orderBy .. | .limit .. | .offset .. =>
    fun _ _ h => applied_of_clause rfl h

/-- Operations of which none fails are applied to a draft one after another. -/
theorem appliedAll_of_run : (os : List Operation) → ∀ d d',
    (applyOperations os).run d = (.ok (), d') → AppliedAll os d d'
  | [] => fun d d' h => by
    simp only [applyOperations] at h
    cases h
    exact .nil
  | o :: os => fun d d' h => by
    simp only [applyOperations] at h
    obtain ⟨_, e, hfirst, hrest⟩ := run_sequence_ok h
    exact .cons (applied_of_run o d e hfirst) (appliedAll_of_run os e d' hrest)

end

/-- What is built is the statement of what the operations make of a blank draft. -/
theorem run_of_build {catalog : Catalog} {table : String} {os : List Operation} {s : Select}
    (h : build catalog table os = .ok s) :
    ∃ d, (applyOperations os).run (Draft.start catalog table []) = (.ok (), d) ∧
      d.statement = .ok s := by
  unfold build at h
  cases hrun : ExceptT.run (applyOperations os) (Draft.start catalog table []) with
  | mk result d =>
    rw [hrun] at h
    obtain ⟨_, rfl, hstatement⟩ := sequence_eq_ok.mp h
    exact ⟨d, rfl, hstatement⟩

/-- A statement is what applied operations make of an empty draft. -/
theorem build_ok {catalog : Catalog} {table : String} {operations : List Operation} {s : Select}
    (h : build catalog table operations = .ok s) :
    ∃ d, AppliedAll operations (Draft.start catalog table []) d ∧ d.statement = .ok s := by
  obtain ⟨d, hrun, hstatement⟩ := run_of_build h
  exact ⟨d, appliedAll_of_run operations _ d hrun, hstatement⟩

/-- A name denotes what is in scope under it, and else a base table. -/
theorem Draft.resolve_ok {d : Draft} {name : String} {s : Source} (h : d.resolve name = .ok s) :
    d.scope.lookup name = some s ∨
      d.scope.lookup name = none ∧ s = .table (splitPath name).1 (splitPath name).2 := by
  unfold Draft.resolve at h
  cases hlook : d.scope.lookup name with
  | some found =>
    rw [hlook] at h
    cases h
    exact .inl rfl
  | none =>
    right
    rw [hlook] at h
    dsimp only at h
    split at h
    · exact ⟨rfl, (Except.ok.inj h).symm⟩
    · obtain ⟨checked, hchecked, hdone⟩ := sequence_eq_ok.mp h
      rw [checkIdentifier_eq hchecked] at hdone
      exact ⟨rfl, (Except.ok.inj hdone).symm⟩

/-- The parts of a statement are those of its draft; its columns are found, and its source is what
the name of the draft's table denotes. -/
theorem Draft.statement_parts {d : Draft} {s : Select} (h : d.statement = .ok s) :
    ∃ projection source groupBy limit offset, d.projection = .ok projection ∧
      d.resolve d.table = .ok source ∧
      s = .mk d.tables
        { projection, source, criteria := d.criteria, groupBy, having := d.having,
          orderBy := d.orderBy, limit, offset } := by
  unfold Draft.statement at h
  simp only [sequence_eq_ok] at h
  obtain ⟨projection, hprojection, source, hsource, groupBy, -, limit, -, h⟩ := h
  split at h
  all_goals
    obtain ⟨offset, -, hdone⟩ := sequence_eq_ok.mp h
    cases hdone
    exact ⟨projection, source, groupBy, limit, _, hprojection, hsource, rfl⟩

theorem Draft.statement_ok {d : Draft} {s : Select} (h : d.statement = .ok s) :
    s.tables = d.tables ∧ d.resolve d.table = .ok s.body.source := by
  obtain ⟨_, _, _, _, _, -, hsource, rfl⟩ := Draft.statement_parts h
  exact ⟨rfl, hsource⟩

theorem Draft.statement_criteria {d : Draft} {s : Select} (h : d.statement = .ok s) :
    s.body.criteria = d.criteria := by
  obtain ⟨_, _, _, _, _, -, -, rfl⟩ := Draft.statement_parts h
  rfl

/-- The columns in front of aggregates and windows: those listed, or else those grouped by, or else
all. -/
def frontColumns (listed groupBy : List String) (aggregated : Bool) :
    Except Fault (List Projection) :=
  if !listed.isEmpty then listed.mapM Draft.listed
  else if groupBy.isEmpty && !aggregated then .ok [.column (.verbatim "*")]
  else groupBy.mapM fun g => do return .column (← Column.of g)

theorem Draft.projection_eq (d : Draft) : d.projection = (do
    let front ← frontColumns d.columns d.groupBy (!d.aggregates.isEmpty)
    return front ++ d.aggregates ++ d.windows) := by
  unfold Draft.projection frontColumns
  rw [Bool.not_not]
  dsimp only
  split
  · rfl
  · split <;> rfl

theorem Draft.statement_selects {d : Draft} {s : Select} (h : d.statement = .ok s) :
    (∃ front, frontColumns d.columns d.groupBy (!d.aggregates.isEmpty) = .ok front ∧
      s.body.projection = front ++ d.aggregates ++ d.windows) ∧ s.body.orderBy = d.orderBy := by
  obtain ⟨projection, _, _, _, _, hprojection, -, rfl⟩ := Draft.statement_parts h
  rw [d.projection_eq] at hprojection
  obtain ⟨front, hfront, hdone⟩ := sequence_eq_ok.mp hprojection
  cases hdone
  exact ⟨⟨front, hfront, rfl⟩, rfl⟩

end Sql
end RowGate
