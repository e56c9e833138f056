import RowGate.Proofs.Plan.Where
import RowGate.Proofs.Sql.Written
/-!
Queries that differ in values only. Main statement: they have statements of the same text with
parameters of the same names, or fail in the same way; each parameter holds the value of its own
query.
-/
namespace RowGate

open Sql

variable {V : Value → Value → Prop}

/-- Ranges of a field whose bounds stand for each other. -/
structure Range.Alike (V : Value → Value → Prop) (x y : Range) : Prop where
  field : x.field = y.field
  low : V x.low y.low
  high : V x.high y.high

/-- The same raw text with values that stand for each other. -/
structure Fragment.Alike (V : Value → Value → Prop) (x y : Fragment) : Prop where
  sql : x.sql = y.sql
  bindings : List.Forall₂ (Slot V) x.bindings y.bindings

/-- Comparisons after grouping that differ in their values only. -/
structure HavingTerm.Alike (V : Value → Value → Prop) (x y : HavingTerm) : Prop where
  field : x.field = y.field
  operator : x.operator = y.operator
  value : OperandAlike V x.operator x.value y.value

/-- Lists that a field is sought in and that stand for each other. -/
def SoughtAlike (V : Value → Value → Prop) :
    List (String × List Value) → List (String × List Value) → Prop :=
  List.Forall₂ fun x y => x.1 = y.1 ∧ V (.list x.2) (.list y.2)

/-- Queries whose own clauses differ in values only. What happens before and after a query is of no
importance here. -/
structure Query.ClausesAlike (V : Value → Value → Prop) (q r : Query) : Prop where
  filter : Record.Alike V q.filter r.filter
  conditions : List.Forall₂ (Condition.Alike V) q.conditions r.conditions
  ranges : List.Forall₂ (Range.Alike V) q.ranges r.ranges
  nulls : q.nulls = r.nulls
  notNulls : q.notNulls = r.notNulls
  isIn : SoughtAlike V q.isIn r.isIn
  notIn : SoughtAlike V q.notIn r.notIn
  exists_ : List.Forall₂ (Fragment.Alike V) q.exists_ r.exists_
  groups : List.Forall₂ (Group.Alike V) q.groups r.groups
  groupBy : q.groupBy = r.groupBy
  having : List.Forall₂ (HavingTerm.Alike V) q.having r.having
  orderBy : q.orderBy = r.orderBy
  aggregates : q.aggregates = r.aggregates
  fragments : List.Forall₂ (Fragment.Alike V) q.fragments r.fragments
  limit : q.limit = r.limit
  offset : q.offset = r.offset
  windows : q.windows = r.windows
  framedWindows : List.Forall₂ (FramedWindow.Alike V) q.framedWindows r.framedWindows

mutual

/-- Queries that differ in values only, at all depths. -/
inductive Query.Alike (V : Value → Value → Prop) : Query → Query → Prop
  | mk {q r} : q.ClausesAlike V r → TableExprsAlike V q.tables r.tables →
      RecursiveExprsAlike V q.recursiveTables r.recursiveTables → Query.Alike V q r

/-- Table expressions that differ in values only. -/
inductive TableExprsAlike (V : Value → Value → Prop) :
    List (TableExpr Query) → List (TableExpr Query) → Prop
  | nil : TableExprsAlike V [] []
  | cons (name : String) (columns : List String) (table : Option String) {q r ts us} :
      Query.Alike V q r → TableExprsAlike V ts us →
      TableExprsAlike V (⟨name, q, columns, table⟩ :: ts) (⟨name, r, columns, table⟩ :: us)

/-- Recursive table expressions that differ in values only. -/
inductive RecursiveExprsAlike (V : Value → Value → Prop) :
    List (RecursiveExpr Query) → List (RecursiveExpr Query) → Prop
  | nil : RecursiveExprsAlike V [] []
  | cons (name : String) (keepRepeats : Bool) (columns : List String)
      (table recursiveTable : Option String) (recursiveColumns : List String) {q r q' r' ts us} :
      Query.Alike V q r → Query.Alike V q' r' → RecursiveExprsAlike V ts us →
      RecursiveExprsAlike V
        (⟨name, q, q', keepRepeats, columns, table, recursiveTable, recursiveColumns⟩ :: ts)
        (⟨name, r, r', keepRepeats, columns, table, recursiveTable, recursiveColumns⟩ :: us)

end

section Compiling

mutual

theorem check_alike {m n : GroupMember} (h : GroupMember.Alike V m n) : m.check = n.check := by
  match h with
  | .condition (.mk field operator joiner _) => rfl
  | .group connective joiner hms =>
    simp only [GroupMember.check]
    exact checkMembers_alike hms

/-- The operators of groups that differ in values only are the same. -/
theorem checkMembers_alike {ms ns : List GroupMember} (h : MembersAlike V ms ns) :
    checkMembers ms = checkMembers ns := by
  match h with
  | .nil => rfl
  | .cons hm hms =>
    simp only [checkMembers]
    rw [check_alike hm, checkMembers_alike hms]

end

/-- Operations of both queries, one by one. -/
abbrev Compiles (V : Value → Value → Prop) (x y : Except Fault (List Operation)) : Prop :=
  Correspond (List.Forall₂ (Operation.Alike V)) x y

theorem operationsAlike_of_forall₂ {os ps : List Operation}
    (h : List.Forall₂ (Operation.Alike V) os ps) : OperationsAlike V os ps := by
  induction h with
  | nil => exact .nil
  | cons ho _ ih => exact .cons ho ih

/-- Items without values are compiled to operations without values. -/
theorem compiles_same {α : Type} {f : α → Except Fault Operation}
    (hf : ∀ a o, f a = .ok o → Operation.Alike V o o) (as : List α) :
    Compiles V (as.mapM f) (as.mapM f) := by
  refine .mapM (R := Eq) ?_ (List.forall₂_same.mpr fun _ _ => rfl)
  rintro a _ rfl
  cases h : f a with
  | error g => exact .error (.same g)
  | ok o => exact .ok (hf a o h)

theorem window_alike (w : Window) (o : Operation) (h : w.compile = .ok o) :
    Operation.Alike V o o := by
  unfold Window.compile at h
  simp only [sequence_eq_ok, pure_answers] at h
  obtain ⟨_, -, _, -, rfl⟩ := h
  exact .window _ _

theorem aggregate_alike (a : Aggregate) (o : Operation) (h : a.compile = .ok o) :
    Operation.Alike V o o := by
  unfold Aggregate.compile at h
  split at h
  · obtain rfl := Except.ok.inj h
    exact .aggregate _ _ _
  · cases h

theorem order_alike (t : OrderTerm) (o : Operation) (h : t.compile = .ok o) :
    Operation.Alike V o o := by
  obtain ⟨_, -, h⟩ := sequence_eq_ok.mp h
  obtain rfl := Except.ok.inj h
  exact .orderBy _ _ _

/-- Conditions with the same operators pass the same checks. -/
theorem checkConditions_eq (place : String) {cs ds : List Condition}
    (h : List.Forall₂ (fun c d => c.operator = d.operator) cs ds) :
    (cs.forM fun c => checkOperator c.operator place) =
      ds.forM fun c => checkOperator c.operator place := by
  induction h with
  | nil => rfl
  | @cons c d _ _ hcd _ ih =>
    change checkOperator c.operator place >>= _ = checkOperator d.operator place >>= _
    rw [hcd]
    exact bind_congr fun _ => ih

theorem framedWindow_compile {w x : FramedWindow} (h : FramedWindow.Alike V w x) :
    Correspond (Operation.Alike V) w.compile x.compile := by
  cases h with
  | @mk conditions hconditions =>
    have hchecked := checkConditions_eq "advancedWindows.filter"
      (hconditions.imp fun _ _ hcd => by cases hcd; rfl)
    unfold FramedWindow.compile
    refine .checked fun _ => ?_
    dsimp only
    split
    · exact .error (.same _)
    · rw [hchecked]
      exact .checked fun _ => .ok (.framedWindow (.mk w hconditions))

theorem condition_compile {c d : Condition} (h : Condition.Alike V c d) :
    Correspond (Operation.Alike V) c.compile d.compile := by
  cases h with
  | mk field operator joiner hvw => exact .checked fun _ => .ok (.condition field operator hvw)

theorem group_compile {g h : Group} (hgh : Group.Alike V g h) :
    Correspond (List.Forall₂ (Operation.Alike V)) g.compile h.compile := by
  have hchecked := checkMembers_alike hgh.members
  have hempty {ms ns : List GroupMember} (hms : MembersAlike V ms ns) :
      ms.isEmpty = ns.isEmpty := by
    cases hms <;> rfl
  unfold Group.compile
  rw [hchecked, hempty hgh.members]
  refine .checked fun _ => .ok ?_
  split
  · exact .nil
  · exact .cons (.group hgh) .nil

theorem having_compile {t u : HavingTerm} (h : HavingTerm.Alike V t u) :
    Correspond (Operation.Alike V) t.compile u.compile := by
  obtain ⟨field, operator, v⟩ := t
  obtain ⟨field', operator', w⟩ := u
  obtain ⟨rfl, rfl, hvw⟩ := h
  exact .checked fun _ => .ok (.having field operator hvw)

/-- What is made of items that stand for each other stands for each other. -/
theorem map_alike {α β : Type} {R : α → β → Prop} {f : α → Operation} {g : β → Operation}
    (hfg : ∀ a b, R a b → Operation.Alike V (f a) (g b)) {as : List α} {bs : List β}
    (h : List.Forall₂ R as bs) : List.Forall₂ (Operation.Alike V) (as.map f) (bs.map g) := by
  rw [List.forall₂_map_left_iff, List.forall₂_map_right_iff]
  exact h.imp hfg

theorem map_same {α : Type} {f : α → Operation} (hf : ∀ a, Operation.Alike V (f a) (f a))
    (as : List α) : List.Forall₂ (Operation.Alike V) (as.map f) (as.map f) :=
  map_alike (R := Eq) (fun a _ hab => hab ▸ hf a) (List.forall₂_same.mpr fun _ _ => rfl)

theorem filter_alike {r s : Record} (h : Record.Alike V r s) :
    List.Forall₂ (Operation.Alike V) (if r.isEmpty then [] else [.equals r])
      (if s.isEmpty then [] else [.equals s]) := by
  cases h with
  | nil => exact .nil
  | cons hxy hrest => exact .cons (.equals (.cons hxy hrest)) .nil

theorem Fragment.Alike.fragment {x y : Fragment} (h : Fragment.Alike V x y) :
    Operation.Alike V (.fragment x.sql x.bindings) (.fragment y.sql y.bindings) := by
  rw [h.sql]
  exact .fragment _ h.bindings

theorem Fragment.Alike.exists_ {x y : Fragment} (h : Fragment.Alike V x y) :
    Operation.Alike V (.exists_ x.sql x.bindings) (.exists_ y.sql y.bindings) := by
  rw [h.sql]
  exact .exists_ _ h.bindings

theorem Range.Alike.range {x y : Range} (h : Range.Alike V x y) :
    Operation.Alike V (.range x.field x.low x.high) (.range y.field y.low y.high) := by
  rw [h.field]
  exact .range _ h.low h.high

theorem sought_alike {xs ys : List (String × List Value)} (h : SoughtAlike V xs ys) :
    List.Forall₂ (Operation.Alike V) (xs.map fun (k, vs) => .isIn k vs)
        (ys.map fun (k, vs) => .isIn k vs) ∧
      List.Forall₂ (Operation.Alike V) (xs.map fun (k, vs) => .notIn k vs)
        (ys.map fun (k, vs) => .notIn k vs) := by
  constructor
  all_goals
    refine map_alike ?_ h
    rintro ⟨k, vs⟩ ⟨k', ws⟩ ⟨rfl, hvs⟩
  · exact .isIn k hvs
  · exact .notIn k hvs

/-- The clauses of queries that differ in values only are compiled to operations that do so. -/
theorem clauses_alike {q r : Query} (h : q.ClausesAlike V r) :
    Compiles V q.compileClauses r.compileClauses := by
  have hlimit : List.Forall₂ (Operation.Alike V) (r.limit.map .limit).toList
      (r.limit.map .limit).toList := by
    cases r.limit with
    | none => exact .nil
    | some n => exact .cons (.limit n) .nil
  have hone {c : Bool} (o : Operation) (ho : Operation.Alike V o o) :
      List.Forall₂ (Operation.Alike V) (if c then [] else [o]) (if c then [] else [o]) := by
    cases c
    · exact .cons ho .nil
    · exact .nil
  unfold Query.compileClauses
  rw [h.windows, h.aggregates, h.orderBy, h.nulls, h.notNulls, h.groupBy, h.limit, h.offset]
  refine (compiles_same (V := V) window_alike _).bind fun windows windows' hwindows => ?_
  refine (Correspond.mapM (fun _ _ h => framedWindow_compile h) h.framedWindows).bind
    fun framed framed' hframed => ?_
  refine (compiles_same (V := V) aggregate_alike _).bind
    fun aggregates aggregates' haggregates => ?_
  refine (Correspond.mapM (fun _ _ h => condition_compile h) h.conditions).bind
    fun conditions conditions' hconditions => ?_
  refine (Correspond.mapM (fun _ _ h => group_compile h) h.groups).bind
    fun groups groups' hgroups => ?_
  refine (Correspond.mapM (fun _ _ h => having_compile h) h.having).bind
    fun having having' hhaving => ?_
  refine (compiles_same (V := V) order_alike _).bind fun order order' horder => .ok ?_
  simp only [List.append_assoc]
  refine List.rel_append hwindows ?_
  refine List.rel_append hframed ?_
  refine List.rel_append (filter_alike h.filter) ?_
  refine List.rel_append (map_alike (fun _ _ hxy => hxy.fragment) h.fragments) ?_
  refine List.rel_append haggregates ?_
  refine List.rel_append hconditions ?_
  refine List.rel_append (map_alike (fun _ _ hxy => hxy.range) h.ranges) ?_
  refine List.rel_append (map_same .isNull _) ?_
  refine List.rel_append (map_same .notNull _) ?_
  refine List.rel_append (sought_alike h.isIn).1 ?_
  refine List.rel_append (sought_alike h.notIn).2 ?_
  refine List.rel_append (map_alike (fun _ _ hxy => hxy.exists_) h.exists_) ?_
  refine List.rel_append (List.rel_flatten hgroups) ?_
  refine List.rel_append (hone _ (.groupBy _)) ?_
  refine List.rel_append hhaving ?_
  refine List.rel_append horder ?_
  refine List.rel_append hlimit ?_
  split
  · exact .nil
  · exact .cons (.offset _) .nil

/-- Two compilations, whatever they log. -/
abbrev Compile {α β : Type} (R : α → β → Prop) (x : Logged α) (y : Logged β) : Prop :=
  Pairs (fun _ _ => True) R x y

theorem run_logEntry {α : Type} (level : Level) (origin : Origin) (message : String)
    (x : Logged α) (l : List LogEntry) :
    ExceptT.run (logEntry level origin message >>= fun _ => x) l =
      ExceptT.run x (l ++ [⟨level, origin, message⟩]) :=
  Stateful.run_sequence _ _ l

theorem Compile.logging_left {α β : Type} {R : α → β → Prop} {x : Logged α} {y : Logged β}
    (h : Compile R x y) (level : Level) (origin : Origin) (message : String) :
    Compile R (logEntry level origin message >>= fun _ => x) y := by
  intro l l' _
  rw [run_logEntry]
  exact h _ l' trivial

theorem Compile.logging_right {α β : Type} {R : α → β → Prop} {x : Logged α} {y : Logged β}
    (h : Compile R x y) (level : Level) (origin : Origin) (message : String) :
    Compile R x (logEntry level origin message >>= fun _ => y) := by
  intro l l' _
  rw [run_logEntry]
  exact h l _ trivial

theorem labels_alike {ws xs : List FramedWindow} (h : List.Forall₂ (FramedWindow.Alike V) ws xs) :
    ws.map (·.label) = xs.map (·.label) := by
  induction h with
  | nil => rfl
  | cons hwx _ ih =>
    cases hwx
    rw [List.map_cons, List.map_cons, ih]

theorem tableNames_alike {ts us : List (TableExpr Query)} (h : TableExprsAlike V ts us) :
    ts.map (·.name) = us.map (·.name) := by
  match h with
  | .nil => rfl
  | .cons name columns table _ hts => rw [List.map_cons, List.map_cons, tableNames_alike hts]

theorem recursiveNames_alike {ts us : List (RecursiveExpr Query)}
    (h : RecursiveExprsAlike V ts us) : ts.map (·.name) = us.map (·.name) := by
  match h with
  | .nil => rfl
  | .cons name _ _ _ _ _ _ _ hts => rw [List.map_cons, List.map_cons, recursiveNames_alike hts]

mutual

/-- Queries that differ in values only are compiled to operations that do so. -/
theorem compile_alike {q r : Query} (h : Query.Alike V q r) :
    Compile (OperationsAlike V) q.compile r.compile := by
  match h with
  | .mk (q := q) (r := r) hclauses htables hrecursive =>
    have hnames : q.checkNames = r.checkNames := by
      unfold Query.checkNames
      rw [hclauses.windows, labels_alike hclauses.framedWindows, tableNames_alike htables,
        recursiveNames_alike hrecursive]
    rw [compile_eq, compile_eq, hnames]
    refine .checked fun _ => (compileTables_alike htables).bind fun ts us hts => ?_
    refine (compileRecursiveTables_alike hrecursive).bind fun ts' us' hts' => ?_
    refine (Pairs.lift (clauses_alike hclauses)).bind fun os ps hos => .pure ?_
    exact operationsAlike_of_forall₂ (List.rel_append (List.rel_append hts hts') hos)

theorem compileTables_alike {ts us : List (TableExpr Query)} (h : TableExprsAlike V ts us) :
    Compile (List.Forall₂ (Operation.Alike V)) (compileTables ts) (compileTables us) := by
  match h with
  | .nil =>
    simp only [compileTables]
    exact .pure .nil
  | .cons name columns table hqr hts =>
    simp only [compileTables]
    refine .checked fun name => (compile_alike hqr).bind fun os ps hos => ?_
    refine (compileTables_alike hts).bind fun os' ps' hos' => ?_
    exact .pure (.cons (.table name columns table hos) hos')

theorem compileRecursiveTables_alike {ts us : List (RecursiveExpr Query)}
    (h : RecursiveExprsAlike V ts us) :
    Compile (List.Forall₂ (Operation.Alike V)) (compileRecursiveTables ts)
      (compileRecursiveTables us) := by
  match h with
  | .nil =>
    simp only [compileRecursiveTables]
    exact .pure .nil
  | .cons name keepRepeats columns table recursiveTable recursiveColumns hqr hqr' hts =>
    have hrest (name' : String) := (compile_alike hqr).bind fun os ps hos =>
      (compile_alike hqr').bind fun os' ps' hos' =>
        (compileRecursiveTables_alike hts).bind fun ts us hts =>
          Pairs.pure (S := fun _ _ => True) (List.Forall₂.cons (Operation.Alike.recursiveTable name'
            keepRepeats columns table recursiveTable recursiveColumns hos hos') hts)
    have hchecked := Pairs.checked (x := checkIdentifier name) hrest
    simp only [compileRecursiveTables]
    split <;> split
    · exact Compile.logging_right (Compile.logging_left hchecked _ _ _) _ _ _
    · exact Compile.logging_left hchecked _ _ _
    · exact Compile.logging_right hchecked _ _ _
    · exact hchecked

end

end Compiling

end RowGate
