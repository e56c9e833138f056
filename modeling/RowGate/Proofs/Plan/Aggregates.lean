import RowGate.Proofs.Plan.Bodies
import RowGate.Proofs.Plan.Spelling
import RowGate.Proofs.Plan.Values
import RowGate.Proofs.Sql.Aggregates
/-!
Aggregates of queries in statements. An aggregate without a name of its own is named after its type
and its field, and the name is checked like any other. Main statement: a query that is built without
its aggregates is built with them, behind the columns of its groups, unless one that counts stars has
no name; then it is refused for the name made for the first of these.
-/
namespace RowGate

open Sql

/-! ## Queries without aggregates -/

mutual

/-- A query without aggregates, in which no query has any. -/
def Query.bare (q : Query) : Query :=
  match q with
  | {tables, recursiveTables, ..} =>
    { q with
      aggregates := []
      tables := bareTables tables
      recursiveTables := bareRecursiveTables recursiveTables }

/-- Table expressions without aggregates. -/
def bareTables : List (TableExpr Query) → List (TableExpr Query)
  | [] => []
  | {name, query, columns, table} :: rest => ⟨name, query.bare, columns, table⟩ :: bareTables rest

/-- Recursive table expressions without aggregates. -/
def bareRecursiveTables : List (RecursiveExpr Query) → List (RecursiveExpr Query)
  | [] => []
  | {name, initial, recursive, keepRepeats, columns, table, recursiveTable, recursiveColumns}
      :: rest =>
    ⟨name, initial.bare, recursive.bare, keepRepeats, columns, table, recursiveTable,
      recursiveColumns⟩ :: bareRecursiveTables rest

end

theorem names_bareTables (ts : List (TableExpr Query)) :
    (bareTables ts).map (·.name) = ts.map (·.name) := by
  induction ts with
  | nil => rfl
  | cons t ts ih =>
    obtain ⟨name, query, columns, table⟩ := t
    rw [bareTables, List.map_cons, List.map_cons, ih]

theorem names_bareRecursiveTables (ts : List (RecursiveExpr Query)) :
    (bareRecursiveTables ts).map (·.name) = ts.map (·.name) := by
  induction ts with
  | nil => rfl
  | cons t ts ih => rw [bareRecursiveTables, List.map_cons, List.map_cons, ih]

/-- An aggregate of a known type whose field is a column. -/
structure Aggregate.IsKnown (a : Aggregate) : Prop where
  type : a.type ∈ aggregateTypes
  column : a.field = "*" ∨ isIdentifier a.field = true

/-- The label of an aggregate, if it is refused. -/
def Aggregate.refusedLabels (a : Aggregate) : List String :=
  if isIdentifier a.columnName then [] else [a.columnName]

/-- Operations for queries, and those for the same queries without aggregates. -/
structure PlannedBare (qs : List Query) (os ps : List Operation) : Prop where
  bare : ps = bareAll os
  known : AllAggregatesKnown os
  refused : refusedLabelsOf os = qs.flatMap fun q => q.aggregates.flatMap Aggregate.refusedLabels

theorem PlannedBare.append {qs rs : List Query} {os os' ps ps' : List Operation}
    (h : PlannedBare qs os ps) (h' : PlannedBare rs os' ps') :
    PlannedBare (qs ++ rs) (os ++ os') (ps ++ ps') := by
  constructor
  · rw [h.bare, h'.bare, bareAll_eq, bareAll_eq, bareAll_eq, List.flatMap_append]
  · rw [allAggregatesKnown_iff, List.forall_mem_append, ← allAggregatesKnown_iff,
      ← allAggregatesKnown_iff]
    exact ⟨h.known, h'.known⟩
  · rw [refusedLabelsOf_eq, List.flatMap_append, ← refusedLabelsOf_eq, ← refusedLabelsOf_eq,
      h.refused, h'.refused, List.flatMap_append]

theorem PlannedBare.table {qs : List Query} {os ps : List Operation} (h : PlannedBare qs os ps)
    (name : String) (columns : List String) (source : Option String) :
    PlannedBare qs [.table name os columns source] [.table name ps columns source] := by
  obtain ⟨rfl, hknown, hrefused⟩ := h
  exact ⟨rfl, ⟨hknown, trivial⟩, (List.append_nil _).trans hrefused⟩

theorem PlannedBare.recursiveTable {qs rs : List Query} {os os' ps ps' : List Operation}
    (h : PlannedBare qs os ps) (h' : PlannedBare rs os' ps') (name : String) (keepRepeats : Bool)
    (columns : List String) (source recursiveSource : Option String)
    (recursiveColumns : List String) :
    PlannedBare (qs ++ rs)
      [.recursiveTable name os os' keepRepeats columns source recursiveSource recursiveColumns]
      [.recursiveTable name ps ps' keepRepeats columns source recursiveSource recursiveColumns] := by
  obtain ⟨rfl, hknown, hrefused⟩ := h
  obtain ⟨rfl, hknown', hrefused'⟩ := h'
  refine ⟨rfl, ⟨⟨hknown, hknown'⟩, trivial⟩, ?_⟩
  rw [List.flatMap_append, ← hrefused, ← hrefused']
  exact List.append_nil _

/-! ## Compiling -/

/-- A window is planned in one way. -/
theorem planned_unique {ws : List Window} {os ps : List Operation}
    (h : List.Forall₂ Window.Planned ws os) (h' : List.Forall₂ Window.Planned ws ps) : os = ps := by
  induction h generalizing ps with
  | nil =>
    cases h'
    rfl
  | cons hfirst _ ih =>
    cases h' with
    | cons hfirst' hrest' =>
      obtain ⟨text, htext, rfl⟩ := hfirst
      obtain ⟨text', htext', rfl⟩ := hfirst'
      rw [htext] at htext'
      rw [Except.ok.inj htext', ih hrest']

/-- Without aggregates the other clauses are compiled as they are with them. -/
theorem compileClauses_bare (q : Query) (h : ∀ a ∈ q.aggregates, a.IsKnown) :
    Correspond (fun _ _ => True) q.compileClauses
      { q with aggregates := [] }.compileClauses := by
  have haggregates : Correspond (fun _ _ => True) (q.aggregates.mapM (·.compile))
      (([] : List Aggregate).mapM (·.compile)) := by
    have hmet : ∀ r ∈ q.aggregates.flatMap (fun a => [Requirement.aggregateType a.type]), r.Met := by
      rw [List.forall_mem_flatMap]
      exact fun a ha => List.forall_mem_singleton.mpr (h a ha).type
    obtain ⟨os, hos⟩ := (settles_mapM settles_aggregate q.aggregates).ok_iff.mpr hmet
    rw [hos]
    exact .ok trivial
  unfold Query.compileClauses
  refine .checked fun windows => .checked fun framed => haggregates.bind fun _ _ _ => ?_
  refine .checked fun conditions => .checked fun groups => .checked fun having => ?_
  exact .checked fun order => .ok trivial

theorem bare_of_clauses {os : List Operation}
    (h : ∀ o ∈ os, o.isClause = true ∧ o.stage ≠ .aggregates) : os.flatMap Operation.bare = os := by
  induction os with
  | nil => rfl
  | cons o os ih =>
    obtain ⟨⟨hclause, haggregate⟩, hos⟩ := List.forall_mem_cons.mp h
    rw [List.flatMap_cons, ih hos]
    cases o with
    | aggregate => exact absurd rfl haggregate
    | table | recursiveTable => cases hclause
    | _ => rfl

/-- The clauses of a query without aggregates are its clauses without the aggregates. -/
theorem clauses_bareAll {q : Query} {os ps : List Operation} (hos : q.compileClauses = .ok os)
    (hps : { q with aggregates := [] }.compileClauses = .ok ps) : ps = bareAll os := by
  have hclause := isClause_compileClauses hos
  obtain ⟨windows, hwindows, rfl⟩ := compileClauses_eq_ok hos
  obtain ⟨windows', hwindows', rfl⟩ := compileClauses_eq_ok hps
  obtain rfl := planned_unique hwindows hwindows'
  have hfits : Fits (q.planned [] [] windows) := fits_planned q nofun nofun hwindows
  rw [bareAll_eq, List.flatMap_assoc]
  apply List.flatMap_congr
  intro s _
  by_cases haggregate : s = .aggregates
  · subst haggregate
    refine (List.flatMap_eq_nil_iff.mpr fun o ho => ?_).symm
    obtain ⟨a, -, rfl⟩ := List.mem_map.mp ho
    rfl
  · have hsame : { q with aggregates := [] }.planned [] [] windows s =
        q.planned [] [] windows s := by
      cases s with
      | aggregates => exact absurd rfl haggregate
      | _ => rfl
    rw [hsame, bare_of_clauses]
    intro o ho
    have hstage := hfits s o ho
    subst hstage
    exact ⟨hclause o ((mem_layout hfits).mpr ho), haggregate⟩

theorem clauses_known {q : Query} (h : ∀ a ∈ q.aggregates, a.IsKnown) {os : List Operation}
    (hos : q.compileClauses = .ok os) : AllAggregatesKnown os := by
  have hclause := isClause_compileClauses hos
  obtain ⟨windows, hwindows, rfl⟩ := compileClauses_eq_ok hos
  have hfits : Fits (q.planned [] [] windows) := fits_planned q nofun nofun hwindows
  rw [allAggregatesKnown_iff]
  intro o ho
  have ho' := hclause o ho
  cases o with
  | aggregate =>
    obtain ⟨a, ha, heq⟩ := List.mem_map.mp ((mem_layout hfits).mp ho)
    cases heq
    exact ⟨(h a ha).type, (h a ha).column⟩
  | table | recursiveTable => cases ho'
  | _ => trivial

theorem clauses_refused {q : Query} {os : List Operation} (hos : q.compileClauses = .ok os) :
    refusedLabelsOf os = q.aggregates.flatMap Aggregate.refusedLabels := by
  have hoff (o : Operation) (ho : o.isClause = true) (hstage : o.stage ∉ [Stage.aggregates]) :
      o.refusedLabels = [] := by
    cases o with
    | aggregate => exact absurd List.mem_cons_self hstage
    | table | recursiveTable => cases ho
    | _ => rfl
  obtain ⟨windows, -, heq⟩ := clauses_flatMap hos [.aggregates] hoff
  rw [refusedLabelsOf_eq, heq]
  change (q.aggregates.map fun a => Operation.aggregate a.type a.field a.columnName).flatMap _ ++
    [] = _
  rw [List.append_nil, List.flatMap_map]
  rfl

theorem clauses_bare (q : Query) (h : ∀ a ∈ q.aggregates, a.IsKnown) :
    Correspond (PlannedBare [q]) q.compileClauses
      { q with aggregates := [] }.compileClauses := by
  refine (compileClauses_bare q h).of_answers fun os ps hos hps => ?_
  refine ⟨clauses_bareAll hos hps, clauses_known h hos, ?_⟩
  rw [clauses_refused hos, List.flatMap_singleton]

mutual

/-- A query and the same query without aggregates are compiled, or not compiled, together. -/
theorem compile_bare (q : Query) (h : ∀ l ∈ q.levels, ∀ a ∈ l.aggregates, a.IsKnown) :
    Compile (PlannedBare q.levels) q.compile q.bare.compile := by
  match q with
  | {tables, recursiveTables, aggregates, ..} =>
    obtain ⟨hown, htables, hrecursive⟩ := forall_levels.mp h
    rw [Query.bare, compile_eq, compile_eq, Query.levels]
    have hnames := names_bareTables tables
    have hrecursiveNames := names_bareRecursiveTables recursiveTables
    unfold Query.checkNames
    rw [hnames, hrecursiveNames]
    refine .checked fun _ => (compileTables_bare tables htables).bind fun ts us hts => ?_
    refine (compileRecursiveTables_bare recursiveTables hrecursive).bind fun ts' us' hts' => ?_
    refine (Pairs.lift (clauses_bare _ hown)).bind fun os ps hos => .pure ?_
    rw [← List.append_assoc]
    exact (hts.append hts').append hos

theorem compileTables_bare : (ts : List (TableExpr Query)) →
    (∀ t ∈ ts, ∀ l ∈ t.query.levels, ∀ a ∈ l.aggregates, a.IsKnown) →
    Compile (PlannedBare (tableLevels ts)) (compileTables ts) (compileTables (bareTables ts))
  | [], _ => .pure ⟨rfl, trivial, rfl⟩
  | {name, query, columns, table} :: rest, h => by
    obtain ⟨hfirst, hrest⟩ := List.forall_mem_cons.mp h
    simp only [compileTables, bareTables, tableLevels]
    refine .checked fun name => (compile_bare query hfirst).bind fun os ps hos => ?_
    refine (compileTables_bare rest hrest).bind fun os' ps' hos' => .pure ?_
    exact (hos.table name columns table).append hos'

theorem compileRecursiveTables_bare : (ts : List (RecursiveExpr Query)) →
    (∀ t ∈ ts, (∀ l ∈ t.initial.levels, ∀ a ∈ l.aggregates, a.IsKnown) ∧
      ∀ l ∈ t.recursive.levels, ∀ a ∈ l.aggregates, a.IsKnown) →
    Compile (PlannedBare (recursiveTableLevels ts)) (compileRecursiveTables ts)
      (compileRecursiveTables (bareRecursiveTables ts))
  | [], _ => .pure ⟨rfl, trivial, rfl⟩
  | {name, initial, recursive, keepRepeats, columns, table, recursiveTable, recursiveColumns}
      :: rest, h => by
    obtain ⟨⟨hinitial, hrecursive⟩, hrest⟩ := List.forall_mem_cons.mp h
    have hparts (name' : String) := (compile_bare initial hinitial).bind fun os ps hos =>
      (compile_bare recursive hrecursive).bind fun os' ps' hos' =>
        (compileRecursiveTables_bare rest hrest).bind fun ts us hts =>
          Pairs.pure (S := fun _ _ => True) ((hos.recursiveTable hos' name' keepRepeats columns table
            recursiveTable recursiveColumns).append hts)
    have hchecked := Pairs.checked (x := checkIdentifier name) hparts
    simp only [compileRecursiveTables, bareRecursiveTables, recursiveTableLevels]
    rw [← List.append_assoc]
    split <;> split
    · exact Compile.logging_right (Compile.logging_left hchecked _ _ _) _ _ _
    · exact Compile.logging_left hchecked _ _ _
    · exact Compile.logging_right hchecked _ _ _
    · exact hchecked

end

/-! ## Names of aggregates -/

/-- A name in front of a path lengthens its first name. -/
theorem isPath_append {name path : List Char} (hname : IsName name) (hpath : IsPath path) :
    IsPath (name ++ path) := by
  obtain ⟨c, ds, rfl, hc, hds⟩ := hname
  obtain ⟨names, hne, hnames, rfl⟩ := hpath
  obtain ⟨first, rest, rfl⟩ := List.exists_cons_of_ne_nil hne
  obtain ⟨⟨d, es, rfl, hd, hes⟩, hrest⟩ := List.forall_mem_cons.mp hnames
  refine ⟨((c :: ds) ++ (d :: es)) :: rest, List.cons_ne_nil _ _, ?_, ?_⟩
  · refine List.forall_mem_cons.mpr ⟨⟨c, ds ++ d :: es, rfl, hc, ?_⟩, hrest⟩
    refine List.forall_mem_append.mpr ⟨hds, List.forall_mem_cons.mpr ⟨?_, hes⟩⟩
    exact isNameChar_of_isNameStart hd
  · rw [intercalate_dot, intercalate_dot, List.append_assoc]

theorem isIdentifier_append {s t : String} (hs : IsName s.toList) (ht : isIdentifier t = true) :
    isIdentifier (s ++ t) = true := by
  rw [isIdentifier_iff, String.toList_append]
  rcases (isIdentifier_iff t).mp ht with hpath | ⟨path, hpath, heq⟩
  · exact .inl (isPath_append hs hpath)
  · refine .inr ⟨s.toList ++ path, isPath_append hs hpath, ?_⟩
    rw [heq, List.append_assoc]

/-- The type of an aggregate starts a name, and a star does not end one. -/
theorem aggregateType_names {type : String} (h : type ∈ aggregateTypes) :
    IsName (type ++ "_").toList ∧ isIdentifier (type ++ "_" ++ "*") = false := by
  have hall : ∀ t ∈ aggregateTypes, (t ++ "_").toList.head?.any isNameStart = true ∧
      (t ++ "_").toList.tail.all isNameChar = true ∧
      isIdentifier (t ++ "_" ++ "*") = false := by decide
  obtain ⟨hhead, htail, hstar⟩ := hall type h
  obtain ⟨c, hhead, hc⟩ := (Option.any_eq_true _ _).mp hhead
  refine ⟨⟨c, (type ++ "_").toList.tail, ?_, hc, List.all_eq_true.mp htail⟩, hstar⟩
  exact List.eq_cons_of_mem_head? hhead

/-- An aggregate without a name of its own. -/
def Aggregate.isUnnamed (a : Aggregate) : Bool := a.label.all String.isEmpty

/-- An aggregate of all rows without a name of its own. -/
def Aggregate.isUnnamedStar (a : Aggregate) : Bool := a.isUnnamed && a.field = "*"

/-- An aggregate of a known type whose field is a column, with a proper name if it has one. -/
structure Aggregate.IsPlain (a : Aggregate) : Prop extends a.IsKnown where
  name : a.isUnnamed = true ∨ isIdentifier a.columnName = true

instance (a : Aggregate) : Decidable a.IsPlain :=
  decidable_of_iff
    (a.type ∈ aggregateTypes ∧ (a.field = "*" ∨ isIdentifier a.field = true) ∧
      (a.isUnnamed = true ∨ isIdentifier a.columnName = true))
    ⟨fun ⟨htype, hcolumn, hname⟩ => ⟨⟨htype, hcolumn⟩, hname⟩,
      fun h => ⟨h.type, h.column, h.name⟩⟩

theorem Aggregate.columnName_of_isUnnamed {a : Aggregate} (h : a.isUnnamed = true) :
    a.columnName = a.type ++ "_" ++ a.field := by
  unfold isUnnamed at h
  unfold columnName
  cases hlabel : a.label with
  | none => rfl
  | some name =>
    rw [hlabel] at h
    exact if_pos h

/-- The label of a plain aggregate is refused exactly if it is an unnamed one of all rows. -/
theorem Aggregate.IsPlain.refusedLabels {a : Aggregate} (h : a.IsPlain) :
    a.refusedLabels = if a.isUnnamedStar then [a.type ++ "_*"] else [] := by
  obtain ⟨hname, hstar⟩ := aggregateType_names h.type
  unfold Aggregate.refusedLabels Aggregate.isUnnamedStar
  by_cases hunnamed : a.isUnnamed = true
  · rw [Aggregate.columnName_of_isUnnamed hunnamed, hunnamed]
    rcases h.column with hfield | hfield
    · rw [hfield, if_neg (by rw [hstar]; exact Bool.false_ne_true), String.append_assoc]
      rfl
    · have hne : a.field ≠ "*" := by
        rintro heq
        rw [heq] at hfield
        revert hfield
        decide
      rw [if_pos (isIdentifier_append hname hfield)]
      simp [hne]
  · rw [if_pos (h.name.resolve_left hunnamed)]
    simp [hunnamed]

theorem refusedLabels_plain {as : List Aggregate} (h : ∀ a ∈ as, a.IsPlain) :
    as.flatMap Aggregate.refusedLabels =
      (as.filter Aggregate.isUnnamedStar).map fun a => a.type ++ "_*" := by
  induction as with
  | nil => rfl
  | cons a as ih =>
    obtain ⟨ha, has⟩ := List.forall_mem_cons.mp h
    rw [List.flatMap_cons, ih has, ha.refusedLabels, List.filter_cons]
    split <;> rfl

/-- Operations of a query that is built without its aggregates, which are plain. -/
theorem planned_of_bare {catalog : Catalog} {table : String} {q : Query} {t : Select}
    (hbare : q.bare.statement catalog table = .ok t)
    (hplain : ∀ l ∈ q.levels, ∀ a ∈ l.aggregates, a.IsPlain) :
    ∃ os, q.compile.run.1 = .ok os ∧ AllAggregatesKnown os ∧
      build catalog table (bareAll os) = .ok t ∧
      refusedLabelsOf os = ((q.levels.flatMap (·.aggregates)).filter
        Aggregate.isUnnamedStar).map fun a => a.type ++ "_*" := by
  have hboth : Correspond (PlannedBare q.levels) q.compile.run.1 q.bare.compile.run.1 :=
    (compile_bare q (fun l hl a ha => (hplain l hl a ha).toIsKnown) [] [] trivial).1
  rw [statement_eq] at hbare
  obtain ⟨ps, hps, hbuilt⟩ := sequence_eq_ok.mp hbare
  rw [hps] at hboth
  cases hos : q.compile.run.1 with
  | error f =>
    rw [hos] at hboth
    cases hboth
  | ok os =>
    rw [hos] at hboth
    cases hboth with
    | ok hplanned =>
      rw [hplanned.bare] at hbuilt
      refine ⟨os, rfl, hplanned.known, hbuilt, ?_⟩
      rw [hplanned.refused, ← List.flatMap_assoc, refusedLabels_plain]
      exact List.forall_mem_flatMap.mpr hplain

/-! ## Aggregates in statements -/

/-- An aggregate as a column, under its name. -/
def Aggregate.toColumn (a : Aggregate) : Projection :=
  .aggregate a.type (asColumn a.field) a.columnName

/-- A field as a column. -/
def groupColumn (field : String) : Projection := .column (asColumn field)

/-- The columns of a body: some in front, the aggregates of a query in order, and one for each of its
windows. -/
def Query.ShowsAggregates (q : Query) (front : List Projection) (b : Body) : Prop :=
  ∃ windows, b.projection = front ++ q.aggregates.map Aggregate.toColumn ++ windows ∧
    windows.length = q.windows.length + q.framedWindows.length

theorem column_eq {name : String} {c : Column} (h : Column.of name = .ok c) : c = asColumn name := by
  obtain ⟨checked, hchecked, hdone⟩ := sequence_eq_ok.mp h
  rw [checkColumn_eq hchecked] at hdone
  exact (pure_answers.mp hdone).symm

theorem aggregates_selected {as : List Aggregate} {ps : List Projection}
    (h : List.Forall₂ Aggregate.Selected as ps) : ps = as.map Aggregate.toColumn := by
  induction h with
  | nil => rfl
  | cons hfirst _ ih =>
    obtain ⟨c, hc, -, rfl⟩ := hfirst
    rw [column_eq hc, ih]
    rfl

theorem Query.Selects.showsAggregates {q : Query} {listed : List String} {b : Body}
    (h : q.Selects listed b) : ∃ front, frontColumns listed q.groupBy (!q.aggregates.isEmpty) =
      .ok front ∧ q.ShowsAggregates front b := by
  obtain ⟨front, aggregates, windows, framed, hfront, haggregates, hwindows, hframed,
    hprojection⟩ := h.projection
  refine ⟨front, hfront, windows ++ framed, ?_, ?_⟩
  · rw [hprojection, aggregates_selected haggregates]
  · rw [List.length_append, hwindows.length_eq, hframed.length_eq]

theorem frontColumns_grouped {groupBy : List String} {front : List Projection}
    (h : frontColumns [] groupBy true = .ok front) : front = groupBy.map groupColumn := by
  unfold frontColumns at h
  rw [Bool.not_true, Bool.and_false] at h
  apply mapM_eq_map _ h
  intro g p hp
  obtain ⟨c, hc, hdone⟩ := sequence_eq_ok.mp hp
  rw [← pure_answers.mp hdone, column_eq hc]
  rfl

/-- A query that is built without its aggregates, which are plain, is refused for the name of the
first of them that counts all rows and has no name of its own. If there is none, the query is built:
each body has the aggregates of its query in order, and for the query itself they stand behind the
columns of its groups. -/
theorem aggregates_built {catalog : Catalog} {table : String} {q : Query} {t : Select}
    (hbare : q.bare.statement catalog table = .ok t)
    (hplain : ∀ l ∈ q.levels, ∀ a ∈ l.aggregates, a.IsPlain) :
    (∀ a ∈ (q.levels.flatMap (·.aggregates)).find? Aggregate.isUnnamedStar,
      q.statement catalog table = .error (.unsupported (.identifier (a.type ++ "_*")))) ∧
    ((∀ l ∈ q.levels, ∀ a ∈ l.aggregates, a.isUnnamedStar = false) →
      ∃ s, q.statement catalog table = .ok s ∧
        List.Forall₂ (fun l b => ∃ front, l.ShowsAggregates front b) q.levels s.bodies ∧
        (q.aggregates ≠ [] → q.ShowsAggregates (q.groupBy.map groupColumn) s.body)) := by
  obtain ⟨os, hos, hknown, hbuilt, hrefused⟩ := planned_of_bare hbare hplain
  obtain ⟨hbuilds, hrefuses⟩ := build_of_bare hknown hbuilt
  rw [statement_of_compile hos]
  constructor
  · intro a ha
    apply hrefuses
    rw [hrefused, List.head?_map, List.head?_filter, ha]
    rfl
  · intro hnone
    have hno : refusedLabelsOf os = [] := by
      rw [hrefused, List.map_eq_nil_iff, List.filter_eq_nil_iff]
      intro a ha
      obtain ⟨l, hl, ha⟩ := List.mem_flatMap.mp ha
      rw [hnone l hl a ha]
      exact Bool.false_ne_true
    obtain ⟨s, hs⟩ := hbuilds hno
    obtain ⟨hbodies, hown⟩ := selects_of_statement hos ((statement_of_compile hos).trans hs)
    refine ⟨s, hs, hbodies.imp ?_, fun hsome => ?_⟩
    · rintro l b ⟨listed, hselects⟩
      obtain ⟨front, -, hfront⟩ := hselects.showsAggregates
      exact ⟨front, hfront⟩
    · obtain ⟨front, hfront, haggregates⟩ := hown.showsAggregates
      rw [List.isEmpty_eq_false_iff.mpr hsome] at hfront
      rwa [frontColumns_grouped hfront] at haggregates

/-- The likes of posts by day, with one more count, of posts that are counted in a table expression. -/
def postCounts (counted : String) : Query :=
  let posts : Query := { Query.empty none with aggregates := [⟨"count", "id", none⟩] }
  { Query.empty none with
    groupBy := ["day"]
    aggregates := [⟨"sum", "p.likes", none⟩, ⟨"count", counted, none⟩]
    tables := [⟨"counted", posts, [], some "posts"⟩] }

theorem post_counts_shown : ∃ s, (postCounts "id").statement [] "posts" = .ok s ∧
    (postCounts "id").ShowsAggregates [groupColumn "day"] s.body := by
  have hbare : (postCounts "id").bare.statement [] "posts" = .ok _ := rfl
  obtain ⟨-, hbuilt⟩ := aggregates_built hbare (by decide)
  obtain ⟨s, hs, -, hshown⟩ := hbuilt (by decide)
  exact ⟨s, hs, hshown nofun⟩

theorem star_count_refused : (∃ s, (postCounts "*").bare.statement [] "posts" = .ok s) ∧
    (∀ l ∈ (postCounts "*").levels, ∀ a ∈ l.aggregates, a.IsPlain ∧ a.label = none) ∧
    (postCounts "*").statement [] "posts" = .error (.unsupported (.identifier "count_*")) := by
  refine ⟨⟨_, rfl⟩, ?_, ?_⟩
  · decide
  · rfl

end RowGate
