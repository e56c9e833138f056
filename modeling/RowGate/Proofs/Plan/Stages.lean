import RowGate.Plan.Compile
import RowGate.Query.Reader
import RowGate.Proofs.Sequence
import RowGate.Proofs.Stateful
/-!
Plans stage by stage. Main statement: a query that is compiled has exactly one operation for each of
its clauses, with what the clause says, and its stages never go back; the same holds of the queries
of its table expressions, at all depths.
-/
namespace RowGate

open Stateful

/-- The operations of a stage. -/
def atStage (s : Stage) (os : List Operation) : List Operation := os.filter fun o => o.stage = s

/-- No operation stands behind one of a later stage. -/
def InOrder (os : List Operation) : Prop :=
  os.Pairwise fun o p => o.stage.position ≤ p.stage.position

/-- The operations for a query, by stage. Those for its table expressions and its plain windows are
given; every other clause is an operation as it stands. -/
def Query.planned (q : Query) (tables recursiveTables windows : List Operation) :
    Stage → List Operation
  | .ctes => tables
  | .recursiveCtes => recursiveTables
  | .windows => windows
  | .advancedWindows => q.framedWindows.map .framedWindow
  | .filter => if q.filter.isEmpty then [] else [.equals q.filter]
  | .rawExpressions => q.fragments.map fun f => .fragment f.sql f.bindings
  | .aggregates => q.aggregates.map fun a => .aggregate a.type a.field a.columnName
  | .whereRaw => q.conditions.map fun c => .condition c.field c.operator c.value
  | .whereBetween => q.ranges.map fun r => .range r.field r.low r.high
  | .whereNull => q.nulls.map .isNull ++ q.notNulls.map .notNull
  | .whereIn => q.isIn.map (fun (k, vs) => .isIn k vs) ++ q.notIn.map (fun (k, vs) => .notIn k vs)
  | .whereExists => q.exists_.map fun f => .exists_ f.sql f.bindings
  | .whereGroups => (q.groups.filter fun g => !g.members.isEmpty).map .group
  | .groupBy => if q.groupBy.isEmpty then [] else [.groupBy q.groupBy]
  | .having => q.having.map fun h => .having h.field h.operator h.value
  | .orderBy => q.orderBy.map fun o => .orderBy o.field o.direction o.nulls
  | .limit => (q.limit.map .limit).toList
  | .offset => if q.offset = 0 then [] else [.offset q.offset]

/-- A plain window is an operation with its name and its text. -/
def Window.Planned (w : Window) (o : Operation) : Prop :=
  ∃ text, w.fragment = .ok text ∧ o = .window w.label text

mutual

/-- Operations are a plan for a query: they are in order, at each stage there are those for the
clauses of that stage and no others, and those of table expressions hold plans for their queries. -/
inductive Plans : Query → List Operation → Prop
  | mk {q : Query} {os tables recursiveTables windows : List Operation} :
      InOrder os → (∀ s, atStage s os = q.planned tables recursiveTables windows s) →
      PlansTables q.tables tables → PlansRecursiveTables q.recursiveTables recursiveTables →
      List.Forall₂ Window.Planned q.windows windows → Plans q os

/-- Operations stand for table expressions, one for each. -/
inductive PlansTables : List (TableExpr Query) → List Operation → Prop
  | nil : PlansTables [] []
  | cons {t : TableExpr Query} {ts : List (TableExpr Query)} {inner os : List Operation} :
      Plans t.query inner → PlansTables ts os →
      PlansTables (t :: ts) (.table t.name inner t.columns t.table :: os)

/-- Operations stand for recursive table expressions, one for each. -/
inductive PlansRecursiveTables : List (RecursiveExpr Query) → List Operation → Prop
  | nil : PlansRecursiveTables [] []
  | cons {t : RecursiveExpr Query} {ts : List (RecursiveExpr Query)}
      {initial recursive os : List Operation} :
      Plans t.initial initial → Plans t.recursive recursive → PlansRecursiveTables ts os →
      PlansRecursiveTables (t :: ts)
        (.recursiveTable t.name initial recursive t.keepRepeats t.columns t.table t.recursiveTable
          t.recursiveColumns :: os)

end

/-! Operations laid out by stage -/

/-- Each stage is given operations of its own. -/
def Fits (f : Stage → List Operation) : Prop := ∀ s, ∀ o ∈ f s, o.stage = s

variable {f : Stage → List Operation}

theorem atStage_of_forall {s : Stage} {os : List Operation} (h : ∀ o ∈ os, o.stage = s)
    (t : Stage) : atStage t os = if t = s then os else [] := by
  unfold atStage
  by_cases hts : t = s
  · rw [if_pos hts, List.filter_eq_self]
    intro o ho
    simp [h o ho, hts]
  · rw [if_neg hts, List.filter_eq_nil_iff]
    intro o ho
    simp [h o ho, Ne.symm hts]

/-- Laid out one stage after another, each stage has what it was given. -/
theorem atStage_layout (hf : Fits f) (s : Stage) : atStage s (Stage.all.flatMap f) = f s := by
  have hparts : atStage s (Stage.all.flatMap f) =
      Stage.all.flatMap fun t => if s = t then f t else [] := by
    unfold atStage
    rw [List.filter_flatMap]
    apply List.flatMap_congr
    intro t _
    exact atStage_of_forall (hf t) s
  rw [hparts]
  cases s <;> simp [Stage.all]

theorem inOrder_layout (hf : Fits f) : InOrder (Stage.all.flatMap f) := by
  have hstages : Stage.all.Pairwise fun s t => s.position ≤ t.position := by decide
  unfold InOrder
  rw [List.pairwise_flatMap]
  constructor
  · intro s _
    apply List.pairwise_of_forall_mem_list
    intro o ho p hp
    apply Nat.le_of_eq
    rw [hf s o ho, hf s p hp]
  · apply hstages.imp
    intro s t hst o ho p hp
    rw [hf s o ho, hf t p hp]
    exact hst

/-! Clauses that hold no queries -/

theorem mapM_eq_map {α β : Type} {f : α → Except Fault β} {g : α → β}
    (hf : ∀ a b, f a = .ok b → b = g a) {as : List α} {bs : List β} (h : as.mapM f = .ok bs) :
    bs = as.map g := by
  have hall := mapM_eq_ok_iff.mp h
  induction hall with
  | nil => rfl
  | cons hab _ ih => rw [List.map_cons, hf _ _ hab, ih (mapM_eq_ok_iff.mpr ‹_›)]

theorem Window.planned_of_compile {w : Window} {o : Operation} (h : w.compile = .ok o) :
    w.Planned o := by
  unfold Window.compile at h
  simp only [sequence_eq_ok, pure_answers] at h
  obtain ⟨label, hlabel, text, htext, rfl⟩ := h
  rw [checkIdentifier_eq hlabel]
  exact ⟨text, htext, rfl⟩

theorem FramedWindow.compile_eq_ok {w : FramedWindow} {o : Operation} (h : w.compile = .ok o) :
    o = .framedWindow w := by
  unfold FramedWindow.compile at h
  obtain ⟨_, -, h⟩ := sequence_eq_ok.mp h
  split at h
  · cases h
  · obtain ⟨_, -, h⟩ := sequence_eq_ok.mp h
    exact (pure_answers.mp h).symm

theorem Aggregate.compile_eq_ok {a : Aggregate} {o : Operation} (h : a.compile = .ok o) :
    o = .aggregate a.type a.field a.columnName := by
  unfold Aggregate.compile at h
  split at h
  · exact (Except.ok.inj h).symm
  · cases h

theorem Condition.compile_eq_ok {c : Condition} {o : Operation} (h : c.compile = .ok o) :
    o = .condition c.field c.operator c.value := by
  obtain ⟨_, -, h⟩ := sequence_eq_ok.mp h
  exact (pure_answers.mp h).symm

theorem Group.compile_eq_ok {g : Group} {os : List Operation} (h : g.compile = .ok os) :
    os = if g.members.isEmpty then [] else [.group g] := by
  obtain ⟨_, -, h⟩ := sequence_eq_ok.mp h
  exact (pure_answers.mp h).symm

theorem HavingTerm.compile_eq_ok {t : HavingTerm} {o : Operation} (h : t.compile = .ok o) :
    o = .having t.field t.operator t.value := by
  obtain ⟨_, -, h⟩ := sequence_eq_ok.mp h
  exact (pure_answers.mp h).symm

theorem checkDirection_eq {direction checked : String}
    (h : checkDirection direction = .ok checked) : checked = direction := by
  unfold checkDirection at h
  split at h
  · exact (Except.ok.inj h).symm
  · cases h

theorem OrderTerm.compile_eq_ok {t : OrderTerm} {o : Operation} (h : t.compile = .ok o) :
    o = .orderBy t.field t.direction t.nulls := by
  obtain ⟨direction, hdirection, h⟩ := sequence_eq_ok.mp h
  rw [← pure_answers.mp h, checkDirection_eq hdirection]

theorem flatten_groups (gs : List Group) :
    (gs.map fun g => if g.members.isEmpty then [] else [Operation.group g]).flatten =
      (gs.filter fun g => !g.members.isEmpty).map .group := by
  induction gs with
  | nil => rfl
  | cons g gs ih =>
    rw [List.map_cons, List.flatten_cons, ih, List.filter_cons]
    by_cases hempty : g.members.isEmpty = true
    · simp [hempty]
    · simp [hempty]

/-- The clauses of a query that hold no queries are laid out by stage. -/
theorem compileClauses_eq_ok {q : Query} {os : List Operation} (h : q.compileClauses = .ok os) :
    ∃ windows, List.Forall₂ Window.Planned q.windows windows ∧
      os = Stage.all.flatMap (q.planned [] [] windows) := by
  unfold Query.compileClauses at h
  simp only [sequence_eq_ok, pure_answers] at h
  obtain ⟨windows, hwindows, framed, hframed, aggregates, haggregates, conditions, hconditions,
    groups, hgroups, terms, hterms, order, horder, rfl⟩ := h
  have hplanned : List.Forall₂ Window.Planned q.windows windows :=
    (mapM_eq_ok_iff.mp hwindows).imp fun _ _ => Window.planned_of_compile
  have hgroups : groups.flatten = (q.groups.filter fun g => !g.members.isEmpty).map .group := by
    rw [mapM_eq_map (fun _ _ => Group.compile_eq_ok) hgroups, flatten_groups]
  refine ⟨windows, hplanned, ?_⟩
  rw [mapM_eq_map (fun _ _ => FramedWindow.compile_eq_ok) hframed,
    mapM_eq_map (fun _ _ => Aggregate.compile_eq_ok) haggregates,
    mapM_eq_map (fun _ _ => Condition.compile_eq_ok) hconditions, hgroups,
    mapM_eq_map (fun _ _ => HavingTerm.compile_eq_ok) hterms,
    mapM_eq_map (fun _ _ => OrderTerm.compile_eq_ok) horder]
  simp only [Stage.all, Query.planned, List.flatMap_cons, List.flatMap_nil, List.nil_append,
    List.append_nil, List.append_assoc]

/-! Whole queries -/

theorem PlansTables.stage {ts : List (TableExpr Query)} {os : List Operation}
    (h : PlansTables ts os) : ∀ o ∈ os, o.stage = .ctes := by
  induction ts generalizing os with
  | nil =>
    cases h
    exact List.forall_mem_nil _
  | cons t ts ih =>
    cases h with
    | cons _ hrest => exact List.forall_mem_cons.mpr ⟨rfl, ih hrest⟩

theorem PlansRecursiveTables.stage {ts : List (RecursiveExpr Query)} {os : List Operation}
    (h : PlansRecursiveTables ts os) : ∀ o ∈ os, o.stage = .recursiveCtes := by
  induction ts generalizing os with
  | nil =>
    cases h
    exact List.forall_mem_nil _
  | cons t ts ih =>
    cases h with
    | cons _ _ hrest => exact List.forall_mem_cons.mpr ⟨rfl, ih hrest⟩

theorem planned_windows_stage {ws : List Window} {os : List Operation}
    (h : List.Forall₂ Window.Planned ws os) : ∀ o ∈ os, o.stage = .windows := by
  induction h with
  | nil => exact List.forall_mem_nil _
  | cons hfirst _ ih =>
    obtain ⟨text, -, rfl⟩ := hfirst
    exact List.forall_mem_cons.mpr ⟨rfl, ih⟩

/-- The operations planned for a stage belong to it. -/
theorem fits_planned (q : Query) {tables recursiveTables windows : List Operation}
    (htables : ∀ o ∈ tables, o.stage = .ctes)
    (hrecursive : ∀ o ∈ recursiveTables, o.stage = .recursiveCtes)
    (hwindows : List.Forall₂ Window.Planned q.windows windows) :
    Fits (q.planned tables recursiveTables windows) := by
  intro s o ho
  cases s with
  | ctes => exact htables o ho
  | recursiveCtes => exact hrecursive o ho
  | windows => exact planned_windows_stage hwindows o ho
  | filter | groupBy | offset =>
    simp only [Query.planned] at ho
    split at ho
    · cases ho
    · rw [List.mem_singleton.mp ho]
      rfl
  | whereNull | whereIn =>
    simp only [Query.planned, List.mem_append, List.mem_map] at ho
    rcases ho with ⟨_, _, rfl⟩ | ⟨_, _, rfl⟩ <;> rfl
  | limit =>
    simp only [Query.planned, Option.mem_toList, Option.map_eq_some_iff] at ho
    obtain ⟨_, _, rfl⟩ := ho
    rfl
  | _ =>
    simp only [Query.planned, List.mem_map] at ho
    obtain ⟨_, _, rfl⟩ := ho
    rfl

/-- Plans for table expressions, then the other clauses by stage, are a plan for the query. -/
theorem Plans.of_parts {q : Query} {tables recursiveTables clauses : List Operation}
    (htables : PlansTables q.tables tables)
    (hrecursive : PlansRecursiveTables q.recursiveTables recursiveTables)
    (hclauses : q.compileClauses = .ok clauses) :
    Plans q (tables ++ recursiveTables ++ clauses) := by
  obtain ⟨windows, hwindows, rfl⟩ := compileClauses_eq_ok hclauses
  have hlayout : tables ++ recursiveTables ++ Stage.all.flatMap (q.planned [] [] windows) =
      Stage.all.flatMap (q.planned tables recursiveTables windows) := by
    simp only [Stage.all, List.flatMap_cons, List.flatMap_nil, Query.planned, List.nil_append,
      List.append_assoc]
  have hfits := fits_planned q htables.stage hrecursive.stage hwindows
  rw [hlayout]
  exact .mk (inOrder_layout hfits) (atStage_layout hfits) htables hrecursive hwindows

mutual

theorem plans_compile (q : Query) : Yields q.compile (Plans q) := by
  match q with
  | {tables, recursiveTables, ..} =>
    refine yields_bind (yields_lift fun _ _ => trivial) fun _ _ => ?_
    refine yields_bind (plans_compileTables tables) fun ts hts => ?_
    refine yields_bind (plans_compileRecursiveTables recursiveTables) fun rs hrs => ?_
    refine yields_bind (yields_lift fun _ hcs => hcs) fun cs hcs => ?_
    exact yields_pure (.of_parts hts hrs hcs)

theorem plans_compileTables : (ts : List (TableExpr Query)) →
    Yields (compileTables ts) (PlansTables ts)
  | [] => yields_pure .nil
  | {name, query, columns, table} :: rest => by
    refine yields_bind (yields_lift fun _ => checkIdentifier_eq) fun checked hchecked => ?_
    refine yields_bind (plans_compile query) fun os hos => ?_
    refine yields_bind (plans_compileTables rest) fun ps hps => yields_pure ?_
    rw [hchecked]
    exact .cons (t := ⟨name, query, columns, table⟩) hos hps

theorem plans_compileRecursiveTables : (ts : List (RecursiveExpr Query)) →
    Yields (compileRecursiveTables ts) (PlansRecursiveTables ts)
  | [] => yields_pure .nil
  | {name, initial, recursive, keepRepeats, columns, table, recursiveTable, recursiveColumns}
      :: rest => by
    have hparts : Yields (do
        let name ← checkIdentifier name
        let first ← initial.compile
        let next ← recursive.compile
        return .recursiveTable name first next keepRepeats columns table recursiveTable
          recursiveColumns :: (← compileRecursiveTables rest) : Logged (List Operation))
        (PlansRecursiveTables (⟨name, initial, recursive, keepRepeats, columns, table,
          recursiveTable, recursiveColumns⟩ :: rest)) := by
      refine yields_bind (yields_lift fun _ => checkIdentifier_eq) fun checked hchecked => ?_
      refine yields_bind (plans_compile initial) fun first hfirst => ?_
      refine yields_bind (plans_compile recursive) fun next hnext => ?_
      refine yields_bind (plans_compileRecursiveTables rest) fun rs hrs => yields_pure ?_
      rw [hchecked]
      exact .cons (t := ⟨name, initial, recursive, keepRepeats, columns, table, recursiveTable,
        recursiveColumns⟩) hfirst hnext hrs
    unfold compileRecursiveTables
    split
    · have hlogged : Yields (logEntry .warning .planner ("Recursive CTE " ++ Text.quoted name ++
          ": recursive query does not reference the CTE by name")) fun _ => True :=
        ensures_modify fun _ _ => trivial
      exact yields_bind hlogged fun _ _ => hparts
    · exact hparts

end

/-- What a query is compiled to is a plan for it. -/
theorem compiled_plans {q : Query} {os : List Operation} (h : q.compile.run.1 = .ok os) :
    Plans q os := by
  have hrun : ExceptT.run q.compile [] = (.ok os, (q.compile.run).2) := Prod.ext h rfl
  exact plans_compile q [] os _ trivial hrun

/-- A table expression inside another one, a recursive one, a window and a group without members. -/
def layered : Query :=
  let inner : Query :=
    { Query.empty none with
      nulls := ["left_at"]
      tables := [⟨"offices", Query.empty none, ["id"], some "sites"⟩] }
  { Query.empty none with
    filter := [("dept", .text "eng"), ("city", .text "Oslo")]
    groups := [⟨.or, [], none⟩]
    offset := 5
    windows := [⟨"rank", "place", none, ["dept"], [], none⟩]
    tables := [⟨"active", inner, [], none⟩]
    recursiveTables :=
      [⟨"chain", Query.empty none, Query.empty none, true, ["id"], none, none, []⟩] }

theorem layered_plans : ∃ os, layered.compile.run.1 = .ok os ∧ Plans layered os ∧
    os.map (·.stage) = [.ctes, .recursiveCtes, .windows, .filter, .offset] ∧
    ∃ inner, atStage .ctes os = [.table "active" inner [] none] ∧
      inner.map (·.stage) = [.ctes, .whereNull] := by
  have hcompile : ∃ os, layered.compile.run.1 = .ok os := ⟨_, rfl⟩
  obtain ⟨os, hos⟩ := hcompile
  have hplans := compiled_plans hos
  cases hos
  exact ⟨_, rfl, hplans, rfl, _, rfl, rfl⟩

end RowGate
