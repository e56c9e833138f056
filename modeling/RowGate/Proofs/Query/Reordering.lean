import RowGate.Proofs.Json.Reordering
/-!
Queries whose maps differ in the order of keys only. Main statement: their clauses differ in nothing
else, and what holds no values of a request does not differ at all.
-/
namespace RowGate

open Write

/-! ## What is written -/

section

variable {α β : Type}

@[simp] theorem rel_listOf {xs : List α} {ys : List β} {f : α → Value} {g : β → Value} :
    Option.Rel Value.Reordered (Record.listOf xs f) (Record.listOf ys g) ↔
      List.Forall₂ (fun x y => (f x).Reordered (g y)) xs ys := by
  cases xs <;> cases ys <;> simp [Record.listOf, Value.Reordered.list_iff]

@[simp] theorem rel_texts {xs ys : List String} :
    Option.Rel Value.Reordered (Record.listOf xs .text) (Record.listOf ys .text) ↔ xs = ys := by
  simp only [rel_listOf, Value.Reordered.text_iff, Value.text.injEq]
  exact iff_of_eq (congrFun₂ List.forall₂_eq_eq_eq xs ys)

@[simp] theorem rel_text {x y : Option String} :
    Option.Rel Value.Reordered (x.map .text) (y.map .text) ↔ x = y := by
  cases x <;> cases y <;> simp

end

/-! ## Clauses without values -/

theorem OrderTerm.reordered_iff {o p : OrderTerm} : o.toValue.Reordered p.toValue ↔ o = p := by
  constructor
  · intro h
    have hfield := h.get? "field"
    have hdirection := h.get? "direction"
    have hnulls := h.get? "nulls"
    cases o
    cases p
    simp_all
  · rintro rfl
    exact .refl _

theorem Aggregate.reordered_iff {a b : Aggregate} : a.toValue.Reordered b.toValue ↔ a = b := by
  constructor
  · intro h
    have htype := h.get? "type"
    have hfield := h.get? "field"
    have hlabel := h.get? "alias"
    cases a
    cases b
    simp_all
  · rintro rfl
    exact .refl _

theorem orderBy_iff {xs ys : List OrderTerm} :
    List.Forall₂ (fun x y => x.toValue.Reordered y.toValue) xs ys ↔ xs = ys := by
  simp only [OrderTerm.reordered_iff]
  exact iff_of_eq (congrFun₂ List.forall₂_eq_eq_eq xs ys)

theorem Window.reordered_iff {w x : Window} : w.toValue.Reordered x.toValue ↔ w = x := by
  constructor
  · intro h
    have htype := h.get? "type"
    have hlabel := h.get? "alias"
    have hfield := h.get? "field"
    have hpartition := h.get? "partitionBy"
    have horder := h.get? "orderBy"
    have hframe := h.get? "frameClause"
    cases w
    cases x
    simp_all [orderBy_iff]
  · rintro rfl
    exact .refl _

/-! ## Clauses with values -/

theorem Condition.of_reordered {c d : Condition} (h : c.toValue.Reordered d.toValue) :
    c.field = d.field ∧ c.operator = d.operator ∧ c.value.Reordered d.value := by
  have hfield := h.get? "field"
  have hoperator := h.get? "operator"
  have hvalue := h.get? "value"
  simp_all

theorem HavingTerm.of_reordered {t u : HavingTerm} (h : t.toValue.Reordered u.toValue) :
    t.field = u.field ∧ t.operator = u.operator ∧ t.value.Reordered u.value := by
  have hfield := h.get? "field"
  have hoperator := h.get? "operator"
  have hvalue := h.get? "value"
  simp_all

theorem Range.of_reordered {x y : Range} (h : x.toValue.Reordered y.toValue) :
    x.field = y.field ∧ x.low.Reordered y.low ∧ x.high.Reordered y.high := by
  have hfield := h.get? "field"
  have hbounds := h.get? "value"
  simp_all [Value.Reordered.list_iff]

theorem Fragment.of_reordered {x y : Fragment} (h : x.toValue.Reordered y.toValue) :
    x.sql = y.sql ∧ List.Forall₂ Value.Reordered x.bindings y.bindings := by
  have hsql := h.get? "sql"
  have hbindings := h.get? "bindings"
  simp_all [Value.Reordered.list_iff]

theorem FramedWindow.of_reordered {w x : FramedWindow} (h : w.toValue.Reordered x.toValue) :
    w.label = x.label ∧ w.type = x.type ∧
      List.Forall₂ (fun c d => c.toValue.Reordered d.toValue) w.conditions x.conditions := by
  have hlabel := h.get? "alias"
  have htype := h.get? "type"
  have hconditions := h.get? "filter"
  simp_all

theorem groupValue_reordered {connective connective' : Connective} {vs ws : List Value}
    {joiner joiner' : Option Connective}
    (h : (groupValue connective vs joiner).Reordered (groupValue connective' ws joiner')) :
    List.Forall₂ Value.Reordered vs ws := by
  have hclauses := h.get? "clauses"
  simpa [Value.Reordered.list_iff] using hclauses

/-- A condition is no group. -/
theorem Condition.not_reordered_group {c : Condition} {connective : Connective} {vs : List Value}
    {joiner : Option Connective} :
    ¬ c.toValue.Reordered (groupValue connective vs joiner) ∧
      ¬ (groupValue connective vs joiner).Reordered c.toValue := by
  constructor
  · intro h
    have hclauses := h.get? "clauses"
    simp at hclauses
  · intro h
    have hclauses := h.get? "clauses"
    simp at hclauses

/-! ## Queries -/

/-- The clauses of two queries differ in the order of keys only. What happens before and after a query
is of no importance here. -/
structure Query.ClausesReordered (q r : Query) : Prop where
  filter : (Value.map q.filter).Reordered (.map r.filter)
  conditions : List.Forall₂ (fun c d => c.toValue.Reordered d.toValue) q.conditions r.conditions
  ranges : List.Forall₂ (fun x y => x.toValue.Reordered y.toValue) q.ranges r.ranges
  nulls : q.nulls = r.nulls
  notNulls : q.notNulls = r.notNulls
  isIn : (valueListsValue q.isIn).Reordered (valueListsValue r.isIn)
  notIn : (valueListsValue q.notIn).Reordered (valueListsValue r.notIn)
  exists_ : List.Forall₂ (fun x y => x.toValue.Reordered y.toValue) q.exists_ r.exists_
  groups : List.Forall₂ (fun g h => g.toValue.Reordered h.toValue) q.groups r.groups
  groupBy : q.groupBy = r.groupBy
  having : List.Forall₂ (fun t u => t.toValue.Reordered u.toValue) q.having r.having
  orderBy : q.orderBy = r.orderBy
  aggregates : q.aggregates = r.aggregates
  fragments : List.Forall₂ (fun x y => x.toValue.Reordered y.toValue) q.fragments r.fragments
  limit : Option.Rel Value.Reordered q.limit r.limit
  offset : q.offset = r.offset
  windows : q.windows = r.windows
  framedWindows :
    List.Forall₂ (fun w x => w.toValue.Reordered x.toValue) q.framedWindows r.framedWindows
  tables : List.Forall₂ (fun t u => t.toValue.Reordered u.toValue) q.tables r.tables
  recursiveTables :
    List.Forall₂ (fun t u => t.toValue.Reordered u.toValue) q.recursiveTables r.recursiveTables

theorem rel_map {r s : Record} (h : Option.Rel Value.Reordered
      (if !r.isEmpty then some (.map r) else none) (if !s.isEmpty then some (.map s) else none)) :
    (Value.map r).Reordered (.map s) := by
  cases r with
  | nil =>
    cases s with
    | nil => exact .refl _
    | cons => cases h
  | cons f r =>
    cases s with
    | nil => cases h
    | cons g s => exact Option.rel_some_some.mp h

theorem rel_valueLists {xs ys : List (String × List Value)} (h : Option.Rel Value.Reordered
      (if !xs.isEmpty then some (valueListsValue xs) else none)
      (if !ys.isEmpty then some (valueListsValue ys) else none)) :
    (valueListsValue xs).Reordered (valueListsValue ys) := by
  refine rel_map ?_
  rw [List.isEmpty_map, List.isEmpty_map]
  exact h

/-- Queries whose maps differ in the order of keys only have clauses that do so. -/
theorem Query.clausesReordered {q r : Query} (h : q.toValue.Reordered r.toValue) :
    q.ClausesReordered r := by
  rw [toValue_eq, toValue_eq, tablesToValues_eq, tablesToValues_eq, recursiveTablesToValues_eq,
    recursiveTablesToValues_eq] at h
  have hq := q.writtenIn_fieldsWith (q.tables.map TableExpr.toValue)
    (q.recursiveTables.map RecursiveExpr.toValue)
  have hr := r.writtenIn_fieldsWith (r.tables.map TableExpr.toValue)
    (r.recursiveTables.map RecursiveExpr.toValue)
  generalize q.fieldsWith _ _ = fields at h hq
  generalize r.fieldsWith _ _ = others at h hr
  have hrel {key : String} {o o' : Option Value} (ho : fields.get? key = o)
      (ho' : others.get? key = o') : Option.Rel Value.Reordered o o' :=
    ho ▸ ho' ▸ h.get? key
  exact {
    filter := rel_map (hrel hq.filter hr.filter)
    conditions := rel_listOf.mp (hrel hq.conditions hr.conditions)
    ranges := rel_listOf.mp (hrel hq.ranges hr.ranges)
    nulls := rel_texts.mp (hrel hq.nulls hr.nulls)
    notNulls := rel_texts.mp (hrel hq.notNulls hr.notNulls)
    isIn := rel_valueLists (hrel hq.isIn hr.isIn)
    notIn := rel_valueLists (hrel hq.notIn hr.notIn)
    exists_ := rel_listOf.mp (hrel hq.exists_ hr.exists_)
    groups := rel_listOf.mp (hrel hq.groups hr.groups)
    groupBy := rel_texts.mp (hrel hq.groupBy hr.groupBy)
    having := rel_listOf.mp (hrel hq.having hr.having)
    orderBy := orderBy_iff.mp (rel_listOf.mp (hrel hq.orderBy hr.orderBy))
    aggregates := by
      have haggregates := rel_listOf.mp (hrel hq.aggregates hr.aggregates)
      rw [← List.forall₂_eq_eq_eq]
      exact haggregates.imp fun _ _ => Aggregate.reordered_iff.mp
    fragments := rel_listOf.mp (hrel hq.fragments hr.fragments)
    limit := hrel hq.limit hr.limit
    offset := by simpa using hrel hq.offset hr.offset
    windows := by
      have hwindows := rel_listOf.mp (hrel hq.windows hr.windows)
      rw [← List.forall₂_eq_eq_eq]
      exact hwindows.imp fun _ _ => Window.reordered_iff.mp
    framedWindows := rel_listOf.mp (hrel hq.framedWindows hr.framedWindows)
    tables := by
      have htables := rel_listOf.mp (hrel hq.tables hr.tables)
      rwa [List.forall₂_map_left_iff, List.forall₂_map_right_iff] at htables
    recursiveTables := by
      have hrecursive := rel_listOf.mp (hrel hq.recursiveTables hr.recursiveTables)
      rwa [List.forall₂_map_left_iff, List.forall₂_map_right_iff] at hrecursive }

theorem TableExpr.of_reordered {t u : TableExpr Query} (h : t.toValue.Reordered u.toValue) :
    t.name = u.name ∧ t.query.toValue.Reordered u.query.toValue ∧ t.columns = u.columns ∧
      t.table = u.table := by
  have hname := h.get? "name"
  have hquery := h.get? "query"
  have hcolumns := h.get? "columns"
  have htable := h.get? "table"
  simp_all

theorem RecursiveExpr.of_reordered {t u : RecursiveExpr Query}
    (h : t.toValue.Reordered u.toValue) :
    t.name = u.name ∧ t.initial.toValue.Reordered u.initial.toValue ∧
      t.recursive.toValue.Reordered u.recursive.toValue ∧ t.keepRepeats = u.keepRepeats ∧
      t.columns = u.columns ∧ t.table = u.table ∧ t.recursiveTable = u.recursiveTable ∧
      t.recursiveColumns = u.recursiveColumns := by
  have hname := h.get? "name"
  have hinitial := h.get? "initialQuery"
  have hrecursive := h.get? "recursiveQuery"
  have hrepeats := h.get? "unionAll"
  have hcolumns := h.get? "columns"
  have htable := h.get? "table"
  have hsource := h.get? "recursiveTable"
  have hnext := h.get? "recursiveColumns"
  simp_all

end RowGate
