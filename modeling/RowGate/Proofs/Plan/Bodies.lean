import RowGate.Proofs.Plan.Levels
import RowGate.Proofs.Plan.Outcomes
import RowGate.Proofs.Sql.Embedding
/-!
Bodies of a statement and the queries that they are made for. Each query inside a query is drafted on
its own, and its clauses put columns, groups and orders into its draft. Main statement: a statement
has a body for each of these queries, which selects the columns that the clauses of the query ask for,
and is ordered as they say.
-/
namespace RowGate

open Sql Stateful

/-! ## Drafts of bodies -/

/-- A draft without any clauses. -/
structure Sql.Draft.IsBlank (d : Draft) : Prop where
  tables : d.tables = []
  aggregates : d.aggregates = []
  windows : d.windows = []
  criteria : d.criteria = []
  groupBy : d.groupBy = []
  orderBy : d.orderBy = []

theorem Sql.Draft.isBlank_start (catalog : Catalog) (table : String) (columns : List String) :
    (Draft.start catalog table columns).IsBlank := ⟨rfl, rfl, rfl, rfl, rfl, rfl⟩

theorem Sql.Draft.isBlank_child (d : Draft) (table : String) (columns : List String)
    (own : List (String × Source)) : (d.child table columns own).IsBlank :=
  ⟨rfl, rfl, rfl, rfl, rfl, rfl⟩

/-- A body that operations on a blank draft result in; the draft may have listed columns. -/
def Drafted (listed : List String) (os : List Operation) (b : Body) : Prop :=
  ∃ d d' s, d.IsBlank ∧ d.columns = listed ∧ (applyOperations os).run d = (.ok (), d') ∧
    d'.statement = .ok s ∧ s.body = b

theorem bodiesOf_append (ts us : List CommonTable) :
    bodiesOf (ts ++ us) = bodiesOf ts ++ bodiesOf us := by
  induction ts with
  | nil => rfl
  | cons t ts ih => simp only [List.cons_append, bodiesOf, ih, List.append_assoc]

/-- Work that declares table expressions whose bodies are drafted from operations. -/
def Declares (levels : List (List Operation)) (d d' : Draft) : Prop :=
  ∃ ts, d'.tables = d.tables ++ ts ∧
    List.Forall₂ (fun os b => ∃ listed, Drafted listed os b) levels (bodiesOf ts)

theorem Declares.trans {ls ms : List (List Operation)} {d d' d'' : Draft} (h : Declares ls d d')
    (h' : Declares ms d' d'') : Declares (ls ++ ms) d d'' := by
  obtain ⟨ts, hts, hdrafted⟩ := h
  obtain ⟨us, hus, hdrafted'⟩ := h'
  refine ⟨ts ++ us, ?_, ?_⟩
  · rw [hus, hts, List.append_assoc]
  · rw [bodiesOf_append]
    exact List.rel_append hdrafted hdrafted'

/-- The statement of operations has a body for each list of them. -/
theorem drafted_statement {os : List Operation} {d d' : Draft} {s : Select} (hblank : d.IsBlank)
    (hdeclares : Declares (innerLevels os) d d') (hrun : (applyOperations os).run d = (.ok (), d'))
    (hs : d'.statement = .ok s) :
    List.Forall₂ (fun os b => ∃ listed, Drafted listed os b) (planLevels os) s.bodies := by
  obtain ⟨ts, hts, hinner⟩ := hdeclares
  have htables : s.tables = ts := by
    rw [(Draft.statement_ok hs).1, hts, hblank.tables, List.nil_append]
  have hbody : Drafted d.columns os s.body := ⟨d, d', s, hblank, rfl, hrun, hs, rfl⟩
  cases s with
  | mk tables body =>
    rw [Select.bodies, planLevels, show tables = ts from htables]
    exact List.rel_append hinner (.cons ⟨_, hbody⟩ .nil)

/-- An operation that holds no others declares nothing. -/
theorem declares_clause {o : Operation} (ho : o.isClause = true) {d d' : Draft}
    (h : (applyOperation o).run d = (.ok (), d')) : Declares o.levels d d' := by
  have hsame := (clause_applyOperation ho d d () d' ⟨rfl, rfl, rfl, rfl⟩ h).tables
  rw [levels_clause ho]
  exact ⟨[], by rw [hsame, List.append_nil], .nil⟩

mutual

theorem declares_operation : (o : Operation) → ∀ d d',
    (applyOperation o).run d = (.ok (), d') → Declares o.levels d d'
  | .table name operations columns source => by
    intro d d' h
    simp only [applyOperation] at h
    obtain ⟨inside, query, hinside, hquery, rfl⟩ := Drafting.run_addTable h
    have hdrafted := drafted_statement (Draft.isBlank_child _ _ _ _)
      (declares_operations operations _ _ hinside) hinside hquery
    refine ⟨[.plain inside.nextTable name query], rfl, ?_⟩
    simp only [bodiesOf, CommonTable.bodies, List.append_nil]
    exact hdrafted
  | .recursiveTable name initial recursive keepRepeats columns source recursiveSource
      recursiveColumns => by
    intro d d' h
    simp only [applyOperation] at h
    obtain ⟨_, _, firstInside, nextInside, first, next, hfirst, hfirstStatement, hnext,
      hnextStatement, rfl⟩ := Drafting.run_addRecursiveTable h
    have hfirstDrafted := drafted_statement (Draft.isBlank_child _ _ _ _)
      (declares_operations initial _ _ hfirst) hfirst hfirstStatement
    have hnextDrafted := drafted_statement (Draft.isBlank_child _ _ _ _)
      (declares_operations recursive _ _ hnext) hnext hnextStatement
    refine ⟨[.recursive firstInside.nextTable name first next keepRepeats], rfl, ?_⟩
    simp only [bodiesOf, CommonTable.bodies, List.append_nil]
    exact List.rel_append hfirstDrafted hnextDrafted
  | .window .. | .framedWindow .. | .equals .. | .fragment .. | .aggregate .. | .condition ..
  | .range .. | .isNull .. | .notNull .. | .isIn .. | .notIn .. | .exists_ .. | .group ..
  | .groupBy .. | .having .. | .orderBy .. | .limit .. | .offset .. =>
    fun _ _ h => declares_clause rfl h

theorem declares_operations : (os : List Operation) → ∀ d d',
    (applyOperations os).run d = (.ok (), d') → Declares (innerLevels os) d d'
  | [] => by
    intro d d' h
    simp only [applyOperations] at h
    cases h
    exact ⟨[], (List.append_nil _).symm, .nil⟩
  | o :: os => by
    intro d d' h
    simp only [applyOperations] at h
    obtain ⟨_, e, hfirst, hrest⟩ := run_sequence_ok h
    rw [innerLevels]
    exact (declares_operation o d e hfirst).trans (declares_operations os e d' hrest)

end

theorem forall₂_through {α β γ : Type} {R : α → β → Prop} {S : β → γ → Prop} {as : List α}
    {bs : List β} {cs : List γ} (h : List.Forall₂ R as bs) (h' : List.Forall₂ S bs cs) :
    List.Forall₂ (fun a c => ∃ b, R a b ∧ S b c) as cs := by
  induction h generalizing cs with
  | nil =>
    cases h'
    exact .nil
  | cons hab _ ih =>
    cases h' with
    | cons hbc hrest => exact .cons ⟨_, hab, hbc⟩ (ih hrest)

theorem forall₂_append_left {α β : Type} {R : α → β → Prop} {as bs : List α} {cs : List β}
    (h : List.Forall₂ R (as ++ bs) cs) :
    ∃ ds es, List.Forall₂ R as ds ∧ List.Forall₂ R bs es ∧ cs = ds ++ es :=
  ⟨_, _, (List.forall₂_take_append _ _ _ h.flip).flip, (List.forall₂_drop_append _ _ _ h.flip).flip,
    (List.take_append_drop _ _).symm⟩

/-- A statement has a body for each query inside the query that it is built for, and for that query
itself, which is drafted from operations for that query. -/
theorem drafted_of_statement {catalog : Catalog} {table : String} {q : Query}
    {os : List Operation} {s : Select} (hcompile : q.compile.run.1 = .ok os)
    (hs : q.statement catalog table = .ok s) :
    List.Forall₂ (fun l b => ∃ os, LevelPlan l os ∧ ∃ listed, Drafted listed os b) q.levels
      s.bodies := by
  rw [statement_of_compile hcompile] at hs
  obtain ⟨d, hrun, hstatement⟩ := run_of_build hs
  exact forall₂_through (compiled_levels hcompile) (drafted_statement
    (Draft.isBlank_start _ _ _) (declares_operations os _ d hrun) hrun hstatement)

/-! ## What operations put into a draft -/

/-- What operations put into a part of drafts: behind what is there, an item for each item asked
for. -/
def Collects {β : Type} (part : Draft → List β) (asked : Operation → List (Except Fault β)) : Prop :=
  ∀ o d d', (applyOperation o).run d = (.ok (), d') →
    ∃ bs, List.Forall₂ (fun y b => y = .ok b) (asked o) bs ∧ part d' = part d ++ bs

section Collects

variable {β : Type} {part : Draft → List β} {asked : Operation → List (Except Fault β)}

theorem collects_operations (h : Collects part asked) {os : List Operation} {d d' : Draft}
    (hrun : (applyOperations os).run d = (.ok (), d')) :
    ∃ bs, List.Forall₂ (fun y b => y = .ok b) (os.flatMap asked) bs ∧ part d' = part d ++ bs := by
  induction os generalizing d with
  | nil =>
    cases hrun
    exact ⟨[], .nil, (List.append_nil _).symm⟩
  | cons o os ih =>
    simp only [applyOperations] at hrun
    obtain ⟨_, e, hfirst, hrest⟩ := run_sequence_ok hrun
    obtain ⟨bs, hbs, hpart⟩ := h o d e hfirst
    obtain ⟨cs, hcs, hpart'⟩ := ih hrest
    refine ⟨bs ++ cs, List.rel_append hbs hcs, ?_⟩
    rw [hpart', hpart, List.append_assoc]

/-- An operation that a part is not asked for leaves it alone. -/
theorem collects_spared {o : Operation} {d d' : Draft} (hasked : asked o = [])
    (hspares : Draft.Spares part o.stage) (h : (applyOperation o).run d = (.ok (), d')) :
    ∃ bs, List.Forall₂ (fun y b => y = .ok b) (asked o) bs ∧ part d' = part d ++ bs := by
  rw [hasked]
  refine ⟨[], .nil, ?_⟩
  rw [List.append_nil]
  exact leaves_applyOperation hspares _ d () d' rfl h

end Collects

/-- The ordering terms that an operation asks for. -/
def Operation.keys : Operation → List (Except Fault OrderKey)
  | .orderBy field direction nulls => [Drafting.sort field direction nulls]
  | _ => []

/-- A framed window with its checked label. -/
def framedColumn (w : FramedWindow) : Except Fault Projection := do
  let column ← Drafting.windowColumn w
  return .framed column (← checkIdentifier w.label)

/-- The window columns that an operation asks for. -/
def Operation.windowColumns : Operation → List (Except Fault Projection)
  | .window label text => [do return .window text (← checkIdentifier label)]
  | .framedWindow w => [framedColumn w]
  | _ => []

/-- An aggregate of a checked field with its checked label. -/
def aggregateColumn (type field label : String) : Except Fault Projection := do
  let column ← Column.of field
  return .aggregate type column (← checkIdentifier label)

/-- The aggregates that an operation asks for. -/
def Operation.aggregates : Operation → List (Except Fault Projection)
  | .aggregate type field label => [aggregateColumn type field label]
  | _ => []

/-- The fields that an operation groups by. -/
def Operation.groupFields : Operation → List (Except Fault String)
  | .groupBy fields => fields.map checkIdentifier
  | _ => []

theorem collects_keys : Collects Draft.orderBy Operation.keys := by
  intro o d d' h
  cases o with
  | orderBy field direction nulls =>
    obtain ⟨key, hkey, h⟩ := run_checked_ok h
    cases h
    exact ⟨[key], .cons hkey .nil, rfl⟩
  | table | recursiveTable => exact collects_spared rfl (fun _ _ _ _ _ => rfl) h
  | window | framedWindow | aggregate | groupBy | having | limit | offset =>
    exact collects_spared rfl (fun _ _ => rfl) h
  | _ => exact collects_spared rfl ⟨fun _ _ => rfl, fun _ _ => rfl⟩ h

theorem collects_windowColumns : Collects Draft.windows Operation.windowColumns := by
  intro o d d' h
  cases o with
  | window label text =>
    obtain ⟨name, hname, h⟩ := run_checked_ok h
    cases h
    refine ⟨[.window text name], .cons ?_ .nil, rfl⟩
    rw [hname]
    rfl
  | framedWindow w =>
    obtain ⟨column, hcolumn, h⟩ := run_checked_ok h
    obtain ⟨name, hname, h⟩ := run_checked_ok h
    cases h
    refine ⟨[.framed column name], .cons ?_ .nil, rfl⟩
    rw [framedColumn, hcolumn, hname]
    rfl
  | table | recursiveTable => exact collects_spared rfl (fun _ _ _ _ _ => rfl) h
  | aggregate | groupBy | having | orderBy | limit | offset =>
    exact collects_spared rfl (fun _ _ => rfl) h
  | _ => exact collects_spared rfl ⟨fun _ _ => rfl, fun _ _ => rfl⟩ h

theorem collects_aggregates : Collects Draft.aggregates Operation.aggregates := by
  intro o d d' h
  cases o with
  | aggregate type field label =>
    simp only [applyOperation, Drafting.addAggregate] at h
    split at h
    · obtain ⟨column, hcolumn, h⟩ := run_checked_ok h
      obtain ⟨name, hname, h⟩ := run_checked_ok h
      cases h
      refine ⟨[.aggregate type column name], .cons ?_ .nil, rfl⟩
      rw [aggregateColumn, hcolumn, hname]
      rfl
    · cases h
  | table | recursiveTable => exact collects_spared rfl (fun _ _ _ _ _ => rfl) h
  | window | framedWindow | groupBy | having | orderBy | limit | offset =>
    exact collects_spared rfl (fun _ _ => rfl) h
  | _ => exact collects_spared rfl ⟨fun _ _ => rfl, fun _ _ => rfl⟩ h

theorem collects_addGroupBy {fields : List String} {d d' : Draft}
    (h : (Drafting.addGroupBy fields).run d = (.ok (), d')) :
    ∃ gs, List.Forall₂ (fun y g => y = .ok g) (fields.map checkIdentifier) gs ∧
      d'.groupBy = d.groupBy ++ gs := by
  induction fields generalizing d with
  | nil =>
    cases h
    exact ⟨[], .nil, (List.append_nil _).symm⟩
  | cons field rest ih =>
    obtain ⟨f, hf, h⟩ := run_checked_ok h
    obtain ⟨_, _, hmodify, h⟩ := run_sequence_ok h
    cases hmodify
    obtain ⟨gs, hgs, hgroupBy⟩ := ih h
    refine ⟨f :: gs, .cons hf hgs, ?_⟩
    rw [hgroupBy, List.append_assoc]
    rfl

theorem collects_groupFields : Collects Draft.groupBy Operation.groupFields := by
  intro o d d' h
  cases o with
  | groupBy fields => exact collects_addGroupBy h
  | table | recursiveTable => exact collects_spared rfl (fun _ _ _ _ _ => rfl) h
  | window | framedWindow | aggregate | having | orderBy | limit | offset =>
    exact collects_spared rfl (fun _ _ => rfl) h
  | _ => exact collects_spared rfl ⟨fun _ _ => rfl, fun _ _ => rfl⟩ h

/-- No operation changes which columns are listed. -/
theorem spares_columns (s : Stage) : Draft.Spares Draft.columns s := by
  cases s with
  | ctes | recursiveCtes => exact fun _ _ _ _ _ => rfl
  | windows | advancedWindows | aggregates | groupBy | having | orderBy | limit | offset =>
    exact fun _ _ => rfl
  | _ => exact ⟨fun _ _ => rfl, fun _ _ => rfl⟩

theorem columns_operations {os : List Operation} {d d' : Draft}
    (h : (applyOperations os).run d = (.ok (), d')) : d'.columns = d.columns := by
  induction os generalizing d with
  | nil =>
    cases h
    rfl
  | cons o os ih =>
    simp only [applyOperations] at h
    obtain ⟨_, e, hfirst, hrest⟩ := run_sequence_ok h
    rw [ih hrest, leaves_applyOperation (spares_columns _) _ d () e rfl hfirst]

/-! ## What the clauses of a query select -/

/-- An aggregate as a column of a body. -/
def Aggregate.Selected (a : Aggregate) (p : Projection) : Prop :=
  ∃ c, Column.of a.field = .ok c ∧ isIdentifier a.columnName = true ∧
    p = .aggregate a.type c a.columnName

/-- A window as a column of a body. -/
def Window.Selected (w : Window) (p : Projection) : Prop :=
  ∃ text, w.fragment = .ok text ∧ p = .window text w.label

/-- A framed window as a column of a body. -/
def FramedWindow.Selected (w : FramedWindow) (p : Projection) : Prop :=
  ∃ column, Drafting.windowColumn w = .ok column ∧ p = .framed column w.label

/-- An ordering term as a key of a body. -/
def OrderTerm.Selected (o : OrderTerm) (k : OrderKey) : Prop :=
  Drafting.sort o.field o.direction o.nulls = .ok k

/-- A body selects what the clauses of a query ask for, in order, and is ordered as they say. -/
structure Query.Selects (q : Query) (listed : List String) (b : Body) : Prop where
  projection : ∃ front aggregates windows framed,
    frontColumns listed q.groupBy (!q.aggregates.isEmpty) = .ok front ∧
      List.Forall₂ Aggregate.Selected q.aggregates aggregates ∧
      List.Forall₂ Window.Selected q.windows windows ∧
      List.Forall₂ FramedWindow.Selected q.framedWindows framed ∧
      b.projection = front ++ aggregates ++ (windows ++ framed)
  orderBy : List.Forall₂ OrderTerm.Selected q.orderBy b.orderBy

/-- What the clauses of a query ask for at some stages. -/
theorem clauses_flatMap {q : Query} {os : List Operation} (h : q.compileClauses = .ok os) {β : Type}
    {asked : Operation → List β} (stages : List Stage)
    (hasked : ∀ o, o.isClause = true → o.stage ∉ stages → asked o = []) :
    ∃ windows, List.Forall₂ Window.Planned q.windows windows ∧
      os.flatMap asked =
        (Stage.all.filter (· ∈ stages)).flatMap fun s =>
          (q.planned [] [] windows s).flatMap asked := by
  have hclause := isClause_compileClauses h
  obtain ⟨windows, hwindows, rfl⟩ := compileClauses_eq_ok h
  have hfits : Fits (q.planned [] [] windows) := fits_planned q nofun nofun hwindows
  have hoff (s : Stage) (hs : s ∉ stages) : (q.planned [] [] windows s).flatMap asked = [] := by
    rw [List.flatMap_eq_nil_iff]
    intro o ho
    have hstage := hfits s o ho
    subst hstage
    exact hasked o (hclause o ((mem_layout hfits).mpr ho)) hs
  refine ⟨windows, hwindows, ?_⟩
  rw [List.flatMap_assoc]
  clear hclause
  induction Stage.all with
  | nil => rfl
  | cons s ss ih =>
    rw [List.flatMap_cons, ih, List.filter_cons]
    split
    · rw [List.flatMap_cons]
    · rename_i hs
      rw [hoff s (by simpa using hs), List.nil_append]

/-- What the operations for a query ask for at some stages of its clauses. -/
theorem LevelPlan.flatMap_eq {q : Query} {os : List Operation} (h : LevelPlan q os) {β : Type}
    {asked : Operation → List β} (stages : List Stage)
    (hasked : ∀ o, o.stage ∉ stages → asked o = []) (htables : .ctes ∉ stages)
    (hrecursive : .recursiveCtes ∉ stages) :
    ∃ windows, List.Forall₂ Window.Planned q.windows windows ∧
      os.flatMap asked =
        (Stage.all.filter (· ∈ stages)).flatMap fun s =>
          (q.planned [] [] windows s).flatMap asked := by
  obtain ⟨tables, clauses, rfl, hnone, hclauses⟩ := h.split
  have hspared : tables.flatMap asked = [] := by
    rw [List.flatMap_eq_nil_iff]
    intro o ho
    apply hasked
    have hno := hnone o ho
    cases o with
    | table => exact htables
    | recursiveTable => exact hrecursive
    | _ => cases hno
  rw [List.flatMap_append, hspared, List.nil_append]
  exact clauses_flatMap hclauses stages fun o _ => hasked o

theorem LevelPlan.keys {q : Query} {os : List Operation} (h : LevelPlan q os) :
    os.flatMap Operation.keys =
      q.orderBy.map fun o => Drafting.sort o.field o.direction o.nulls := by
  have hoff (o : Operation) (ho : o.stage ∉ [Stage.orderBy]) : o.keys = [] := by
    cases o with
    | orderBy => exact absurd List.mem_cons_self ho
    | _ => rfl
  obtain ⟨windows, -, heq⟩ := h.flatMap_eq [.orderBy] hoff (by decide) (by decide)
  rw [heq]
  change (q.orderBy.map fun o => Operation.orderBy o.field o.direction o.nulls).flatMap _ ++ [] = _
  rw [List.append_nil, List.flatMap_map]
  exact List.map_eq_flatMap.symm

theorem LevelPlan.aggregates {q : Query} {os : List Operation} (h : LevelPlan q os) :
    os.flatMap Operation.aggregates =
      q.aggregates.map fun a => aggregateColumn a.type a.field a.columnName := by
  have hoff (o : Operation) (ho : o.stage ∉ [Stage.aggregates]) : o.aggregates = [] := by
    cases o with
    | aggregate => exact absurd List.mem_cons_self ho
    | _ => rfl
  obtain ⟨windows, -, heq⟩ := h.flatMap_eq [.aggregates] hoff (by decide) (by decide)
  rw [heq]
  change (q.aggregates.map fun a => Operation.aggregate a.type a.field a.columnName).flatMap _ ++
    [] = _
  rw [List.append_nil, List.flatMap_map]
  exact List.map_eq_flatMap.symm

theorem LevelPlan.groupFields {q : Query} {os : List Operation} (h : LevelPlan q os) :
    os.flatMap Operation.groupFields = q.groupBy.map checkIdentifier := by
  have hoff (o : Operation) (ho : o.stage ∉ [Stage.groupBy]) : o.groupFields = [] := by
    cases o with
    | groupBy => exact absurd List.mem_cons_self ho
    | _ => rfl
  obtain ⟨windows, -, heq⟩ := h.flatMap_eq [.groupBy] hoff (by decide) (by decide)
  rw [heq]
  change (if q.groupBy.isEmpty then [] else [Operation.groupBy q.groupBy]).flatMap _ ++ [] = _
  cases q.groupBy with
  | nil => rfl
  | cons f fs => exact (List.append_nil _).trans (List.append_nil _)

theorem LevelPlan.windowColumns {q : Query} {os : List Operation} (h : LevelPlan q os) :
    ∃ windows, List.Forall₂ Window.Planned q.windows windows ∧
      os.flatMap Operation.windowColumns = windows.flatMap Operation.windowColumns ++
        q.framedWindows.map framedColumn := by
  have hoff (o : Operation) (ho : o.stage ∉ [Stage.windows, Stage.advancedWindows]) :
      o.windowColumns = [] := by
    cases o with
    | window => exact absurd List.mem_cons_self ho
    | framedWindow => exact absurd (List.mem_cons_of_mem _ List.mem_cons_self) ho
    | _ => rfl
  obtain ⟨windows, hwindows, heq⟩ := h.flatMap_eq [.windows, .advancedWindows] hoff (by decide)
    (by decide)
  refine ⟨windows, hwindows, ?_⟩
  rw [heq]
  change windows.flatMap _ ++ ((q.framedWindows.map Operation.framedWindow).flatMap _ ++ []) = _
  rw [List.append_nil, List.flatMap_map]
  exact congrArg _ List.map_eq_flatMap.symm

/-- Windows that are planned are selected. -/
theorem windows_selected {ws : List Window} {os : List Operation} {ps : List Projection}
    (h : List.Forall₂ Window.Planned ws os)
    (hps : List.Forall₂ (fun y p => y = .ok p) (os.flatMap Operation.windowColumns) ps) :
    List.Forall₂ Window.Selected ws ps := by
  induction h generalizing ps with
  | nil =>
    cases hps
    exact .nil
  | cons hfirst _ ih =>
    obtain ⟨text, htext, rfl⟩ := hfirst
    rw [List.flatMap_cons] at hps
    cases hps with
    | cons hp hrest =>
      obtain ⟨label, hlabel, hp⟩ := sequence_eq_ok.mp hp
      rw [← pure_answers.mp hp, checkIdentifier_eq hlabel]
      exact .cons ⟨text, htext, rfl⟩ (ih hrest)

theorem FramedWindow.selected {w : FramedWindow} {p : Projection} (hp : framedColumn w = .ok p) :
    w.Selected p := by
  obtain ⟨column, hcolumn, hp⟩ := sequence_eq_ok.mp hp
  obtain ⟨label, hlabel, hp⟩ := sequence_eq_ok.mp hp
  refine ⟨column, hcolumn, ?_⟩
  rw [← pure_answers.mp hp, checkIdentifier_eq hlabel]

theorem Aggregate.selected {a : Aggregate} {p : Projection}
    (hp : aggregateColumn a.type a.field a.columnName = .ok p) : a.Selected p := by
  obtain ⟨column, hcolumn, hp⟩ := sequence_eq_ok.mp hp
  obtain ⟨label, hlabel, hp⟩ := sequence_eq_ok.mp hp
  have hname : isIdentifier a.columnName = true := by
    unfold checkIdentifier at hlabel
    split at hlabel
    · assumption
    · cases hlabel
  refine ⟨column, hcolumn, hname, ?_⟩
  rw [← pure_answers.mp hp, checkIdentifier_eq hlabel]

/-- Names that pass their checks are kept. -/
theorem checked_names {names checked : List String}
    (h : List.Forall₂ (fun y name => y = .ok name) (names.map checkIdentifier) checked) :
    checked = names := by
  rw [List.forall₂_map_left_iff] at h
  rw [← List.forall₂_eq_eq_eq]
  exact (h.imp fun _ _ hname => (checkIdentifier_eq hname).symm).flip.imp fun _ _ => Eq.symm

/-- A body drafted from the operations for a query selects what the query asks for. -/
theorem LevelPlan.selects {q : Query} {os : List Operation} (h : LevelPlan q os)
    {listed : List String} {b : Body} (hb : Drafted listed os b) : q.Selects listed b := by
  obtain ⟨d, d', s, hblank, rfl, hrun, hs, rfl⟩ := hb
  obtain ⟨⟨front, hfront, hprojection⟩, horder⟩ := d'.statement_selects hs
  obtain ⟨keys, hkeys, horderBy⟩ := collects_operations collects_keys hrun
  obtain ⟨fields, hfields, hgroupBy⟩ := collects_operations collects_groupFields hrun
  obtain ⟨aggregates, haggregates, haggregated⟩ := collects_operations collects_aggregates hrun
  obtain ⟨windows, hwindows, hwindowed⟩ := collects_operations collects_windowColumns hrun
  rw [hblank.orderBy, List.nil_append] at horderBy
  rw [hblank.groupBy, List.nil_append] at hgroupBy
  rw [hblank.aggregates, List.nil_append] at haggregated
  rw [hblank.windows, List.nil_append] at hwindowed
  rw [h.keys, List.forall₂_map_left_iff] at hkeys
  rw [h.groupFields] at hfields
  rw [h.aggregates, List.forall₂_map_left_iff] at haggregates
  obtain ⟨planned, hplanned, heq⟩ := h.windowColumns
  rw [heq] at hwindows
  obtain ⟨plain, framed, hplain, hframed, rfl⟩ := forall₂_append_left hwindows
  rw [List.forall₂_map_left_iff] at hframed
  constructor
  · refine ⟨front, aggregates, plain, framed, ?_, haggregates.imp fun _ _ => Aggregate.selected,
      windows_selected hplanned hplain, hframed.imp fun _ _ => FramedWindow.selected, ?_⟩
    · have hempty : q.aggregates.isEmpty = aggregates.isEmpty := by
        rw [Bool.eq_iff_iff, List.isEmpty_iff_length_eq_zero, List.isEmpty_iff_length_eq_zero,
          haggregates.length_eq]
      rw [columns_operations hrun, hgroupBy, checked_names hfields, haggregated] at hfront
      rwa [hempty]
    · rw [hprojection, haggregated, hwindowed]
  · rw [horder, horderBy]
    exact hkeys

theorem LevelPlan.of_compile {q : Query} {os : List Operation} (h : q.compile.run.1 = .ok os) :
    LevelPlan q os := by
  have hlevels := compiled_levels h
  rw [q.levels_eq, ← List.append_assoc] at hlevels
  obtain ⟨inner, own, -, hown, heq⟩ := forall₂_append_left hlevels
  cases hown with
  | cons hlevel hnil =>
    cases hnil
    rwa [← List.head_eq_of_cons_eq (List.append_inj_right' heq rfl)] at hlevel

/-- A statement has a body for each query inside the query that it is built for, and for that query
itself, which selects what this query asks for. No columns are listed for the query itself. -/
theorem selects_of_statement {catalog : Catalog} {table : String} {q : Query}
    {os : List Operation} {s : Select} (hcompile : q.compile.run.1 = .ok os)
    (hs : q.statement catalog table = .ok s) :
    List.Forall₂ (fun l b => ∃ listed, l.Selects listed b) q.levels s.bodies ∧
      q.Selects [] s.body := by
  constructor
  · apply (drafted_of_statement hcompile hs).imp
    rintro l b ⟨os, hlevel, listed, hdrafted⟩
    exact ⟨listed, hlevel.selects hdrafted⟩
  · rw [statement_of_compile hcompile] at hs
    obtain ⟨d, hrun, hstatement⟩ := run_of_build hs
    exact (LevelPlan.of_compile hcompile).selects
      ⟨_, d, s, Draft.isBlank_start _ _ _, rfl, hrun, hstatement, rfl⟩

end RowGate
