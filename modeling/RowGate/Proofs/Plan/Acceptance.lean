import Mathlib.Data.List.Infix
import RowGate.Proofs.Plan.Where
/-!
The queries that are compiled. Compiling goes through checks in a fixed order, and table expressions
are checked inside the queries that have them. Main statement: the queries that are compiled are the
valid ones, and any other query fails with the fault of the first check that it does not meet.
-/
namespace RowGate

/-! ## Checks in order -/

/-- The items that are equal to an earlier item. -/
def duplicates (xs : List String) : List String :=
  ((xs.inits.zip xs).filter fun (before, x) => x ∈ before).map (·.2)

/-- A frame clause opens with a unit, and only words of frames and numbers follow. -/
def IsFrameClause (clause : String) : Prop :=
  (∃ t ∈ (Text.fields clause).head?, Text.upper t ∈ frameUnits) ∧
    ∀ t ∈ Text.fields clause, isFrameToken t = true

/-- What a check asks of a query. -/
inductive Requirement where
  /-- The names of the windows and of the table expressions of one query. -/
  | distinct (windows tables : List String)
  | identifier (name : String)
  | column (name : String)
  | windowType (type : String)
  | aggregateType (type : String)
  | direction (name : String)
  | nullOrder (name : String)
  | frameClause (clause : String)
  | operator (place name : String)

namespace Requirement

/-- Whether a query has what is asked. -/
def Met : Requirement → Prop
  | distinct windows tables => windows.Nodup ∧ tables.Nodup
  | identifier name => isIdentifier name = true
  | column name => name = "*" ∨ isIdentifier name = true
  | windowType type => type ∈ windowTypes
  | aggregateType type => type ∈ aggregateTypes
  | direction name => name = "asc" ∨ name = "desc"
  | nullOrder name => name = "first" ∨ name = "last"
  | frameClause clause => IsFrameClause clause
  | operator _ name => name ∈ conditionOperators

/-- The failure of a query without it. -/
def fault : Requirement → Fault
  | distinct windows tables =>
    .invalid ((duplicates windows).map .duplicateWindow ++ (duplicates tables).map .duplicateTable)
      none
  | identifier name | column name => .unsupported (.identifier name)
  | windowType type => .unsupported (.windowType type)
  | aggregateType type => .unsupported (.aggregateType (.text type))
  | direction name => .unsupported (.sortDirection name)
  | nullOrder name => .unsupported (.nullOrder name)
  | frameClause clause => .unsupported (.frameClause clause)
  | operator place name => .unsupported (.operatorAt place name)

end Requirement

/-- An answer settled by checks in order: the first that is not met decides. -/
def Settles {α : Type} (a : Except Fault α) : List Requirement → Prop
  | [] => ∃ v, a = .ok v
  | r :: rs => (r.Met ∧ Settles a rs) ∨ (¬ r.Met ∧ a = .error r.fault)

section Settles

variable {α β : Type} {rs ss : List Requirement} {r : Requirement}

theorem settles_ok (v : α) : Settles (.ok v) [] := ⟨v, rfl⟩

theorem settles_check {a : Except Fault α} (hmet : r.Met → ∃ v, a = .ok v)
    (hunmet : ¬ r.Met → a = .error r.fault) : Settles a [r] := by
  by_cases hr : r.Met
  · exact .inl ⟨hr, hmet hr⟩
  · exact .inr ⟨hr, hunmet hr⟩

theorem settles_bind {x : Except Fault α} {f : α → Except Fault β} (hx : Settles x rs)
    (hf : ∀ v, x = .ok v → Settles (f v) ss) : Settles (x >>= f) (rs ++ ss) := by
  induction rs with
  | nil =>
    obtain ⟨v, rfl⟩ := hx
    exact hf v rfl
  | cons r rs ih =>
    rcases hx with ⟨hmet, hrest⟩ | ⟨hunmet, rfl⟩
    · exact .inl ⟨hmet, ih hrest⟩
    · exact .inr ⟨hunmet, rfl⟩

/-- What is done with an answer cannot fail. -/
theorem settles_map {x : Except Fault α} {f : α → Except Fault β} (hx : Settles x rs)
    (hf : ∀ v, ∃ b, f v = .ok b) : Settles (x >>= f) rs := by
  have h : Settles (x >>= f) (rs ++ []) := settles_bind hx fun v _ => hf v
  rwa [List.append_nil] at h

theorem settles_mapM {f : α → Except Fault β} {g : α → List Requirement}
    (hf : ∀ a, Settles (f a) (g a)) (as : List α) : Settles (as.mapM f) (as.flatMap g) := by
  induction as with
  | nil => exact settles_ok []
  | cons a as ih =>
    rw [List.mapM_cons, List.flatMap_cons]
    apply settles_bind (hf a)
    intro b _
    apply settles_map ih
    intro bs
    exact ⟨b :: bs, rfl⟩

/-- An answer is there exactly if all checks are met. -/
theorem Settles.ok_iff {a : Except Fault α} (h : Settles a rs) :
    (∃ v, a = .ok v) ↔ ∀ r ∈ rs, r.Met := by
  induction rs with
  | nil => exact iff_of_true h (List.forall_mem_nil _)
  | cons r rs ih =>
    rw [List.forall_mem_cons]
    rcases h with ⟨hmet, hrest⟩ | ⟨hunmet, rfl⟩
    · rw [ih hrest]
      simp [hmet]
    · simp [hunmet]

/-- A failure is the one of the first check that is not met. -/
theorem Settles.error_iff {a : Except Fault α} (h : Settles a rs) {f : Fault} :
    a = .error f ↔ ∃ before r after, rs = before ++ r :: after ∧ (∀ s ∈ before, s.Met) ∧
      ¬ r.Met ∧ f = r.fault := by
  induction rs with
  | nil =>
    obtain ⟨v, rfl⟩ := h
    simp
  | cons r rs ih =>
    rcases h with ⟨hmet, hrest⟩ | ⟨hunmet, rfl⟩
    · rw [ih hrest]
      constructor
      · rintro ⟨before, s, after, rfl, hbefore, hs, hf⟩
        exact ⟨r :: before, s, after, rfl, List.forall_mem_cons.mpr ⟨hmet, hbefore⟩, hs, hf⟩
      · rintro ⟨before, s, after, hsplit, hbefore, hs, hf⟩
        cases before with
        | nil =>
          obtain ⟨rfl, rfl⟩ := List.cons.inj hsplit
          exact absurd hmet hs
        | cons b before =>
          obtain ⟨rfl, rfl⟩ := List.cons.inj hsplit
          exact ⟨before, s, after, rfl, (List.forall_mem_cons.mp hbefore).2, hs, hf⟩
    · constructor
      · intro heq
        exact ⟨[], r, rs, rfl, List.forall_mem_nil _, hunmet, (Except.error.inj heq).symm⟩
      · rintro ⟨before, s, after, hsplit, hbefore, hs, rfl⟩
        cases before with
        | nil => rw [(List.cons.inj hsplit).1]
        | cons b before =>
          obtain ⟨rfl, -⟩ := List.cons.inj hsplit
          exact absurd (hbefore r List.mem_cons_self) hunmet

end Settles

/-! ## The single checks -/

theorem repeats_eq (seen xs : List String) :
    repeats seen xs =
      ((xs.inits.zip xs).filter fun (before, x) => x ∈ seen ∨ x ∈ before).map (·.2) := by
  induction xs generalizing seen with
  | nil => rfl
  | cons x xs ih =>
    rw [repeats, ih, List.inits_cons, List.zip_cons_cons, List.filter_cons, List.zip_map_left,
      List.filter_map]
    by_cases hx : x ∈ seen
    · simp [hx, Function.comp_def, Bool.or_assoc, Bool.or_left_comm]
    · simp [hx, Function.comp_def, Bool.or_assoc, Bool.or_left_comm]

theorem repeats_nil (xs : List String) : repeats [] xs = duplicates xs := by
  rw [repeats_eq]
  simp [duplicates]

/-- Nothing repeats in a list without duplicates, and nowhere else. -/
theorem repeats_eq_nil {seen xs : List String} :
    repeats seen xs = [] ↔ xs.Nodup ∧ ∀ x ∈ xs, x ∉ seen := by
  induction xs generalizing seen with
  | nil => simp [repeats]
  | cons x xs ih =>
    rw [repeats, List.append_eq_nil_iff, ih, List.nodup_cons, List.forall_mem_cons]
    by_cases hx : x ∈ seen
    · simp [hx]
    · simp only [List.contains_iff_mem, hx, if_false, List.mem_cons, not_or]
      grind

theorem duplicates_eq_nil {xs : List String} : duplicates xs = [] ↔ xs.Nodup := by
  rw [← repeats_nil, repeats_eq_nil]
  simp

theorem settles_checkNames (q : Query) :
    Settles q.checkNames
      [.distinct (q.windows.map (·.label) ++ q.framedWindows.map (·.label))
        (q.tables.map (·.name) ++ q.recursiveTables.map (·.name))] := by
  unfold Query.checkNames
  simp only [repeats_nil]
  apply settles_check
  · rintro ⟨hwindows, htables⟩
    rw [duplicates_eq_nil.mpr hwindows, duplicates_eq_nil.mpr htables]
    exact ⟨(), rfl⟩
  · intro hunmet
    split
    · rename_i hnone
      obtain ⟨hwindows, htables⟩ := List.append_eq_nil_iff.mp hnone
      rw [List.map_eq_nil_iff, duplicates_eq_nil] at hwindows htables
      exact absurd ⟨hwindows, htables⟩ hunmet
    · rfl

theorem settles_checkIdentifier (name : String) :
    Settles (checkIdentifier name) [.identifier name] := by
  unfold checkIdentifier
  apply settles_check
  · intro hname
    exact ⟨name, if_pos hname⟩
  · intro hname
    exact if_neg hname

theorem settles_checkColumn (name : String) : Settles (checkColumn name) [.column name] := by
  unfold checkColumn checkIdentifier
  apply settles_check
  · rintro (hstar | hname)
    · exact ⟨name, if_pos hstar⟩
    · refine ⟨name, ?_⟩
      rw [if_pos hname, ite_self]
  · intro hname
    obtain ⟨hstar, hname⟩ := not_or.mp hname
    rw [if_neg hstar, if_neg hname]
    rfl

theorem settles_checkDirection (name : String) :
    Settles (checkDirection name) [.direction name] := by
  unfold checkDirection
  apply settles_check
  · intro hname
    refine ⟨name, if_pos ?_⟩
    simpa [Requirement.Met] using hname
  · intro hname
    apply if_neg
    simpa [Requirement.Met] using hname

theorem settles_checkNulls (name : String) : Settles (checkNulls name) [.nullOrder name] := by
  unfold checkNulls
  apply settles_check
  · intro hname
    refine ⟨name, if_pos ?_⟩
    simpa [Requirement.Met] using hname
  · intro hname
    apply if_neg
    simpa [Requirement.Met] using hname

theorem settles_checkFrameClause (clause : String) :
    Settles (checkFrameClause clause) [.frameClause clause] := by
  have hiff : ((Text.fields clause).head?.any (fun t => frameUnits.contains (Text.upper t)) &&
      (Text.fields clause).all isFrameToken) = true ↔ IsFrameClause clause := by
    simp [IsFrameClause, Option.any_eq_true]
  unfold checkFrameClause
  apply settles_check
  · intro hclause
    exact ⟨_, if_pos (hiff.mpr hclause)⟩
  · intro hclause
    exact if_neg fun h => hclause (hiff.mp h)

theorem settles_checkOperator (operator place : String) :
    Settles (checkOperator operator place) [.operator place operator] := by
  unfold checkOperator
  apply settles_check
  · intro hoperator
    exact ⟨(), if_pos (List.contains_iff_mem.mpr hoperator)⟩
  · intro hoperator
    exact if_neg fun h => hoperator (List.contains_iff_mem.mp h)

/-! ## The checks of a query -/

/-- The checks of an ordering term in a window. -/
def OrderTerm.requirements (o : OrderTerm) : List Requirement :=
  .direction o.direction :: .identifier o.field :: (o.nulls.map .nullOrder).toList

/-- The checks of a window. The field of a row number is not looked at, nor is an empty frame. -/
def Window.requirements (w : Window) : List Requirement :=
  .identifier w.label ::
    ((.windowType w.type ::
        ((if w.type = "row_number" then none else w.field).map .column).toList) ++
      (w.partitionBy.flatMap (fun name => [.identifier name]) ++
        (w.orderBy.flatMap (·.requirements) ++
          ((w.frame.filter fun clause => !clause.isEmpty).map .frameClause).toList)))

/-- The checks of a framed window. -/
def FramedWindow.requirements (w : FramedWindow) : List Requirement :=
  .identifier w.label :: .windowType w.type ::
    w.conditions.map fun c => .operator "advancedWindows.filter" c.operator

mutual

/-- The operators of a group member at all depths. -/
def GroupMember.operators : GroupMember → List String
  | .condition c => [c.operator]
  | .group _ members _ => memberOperators members

/-- The operators of group members at all depths. -/
def memberOperators : List GroupMember → List String
  | [] => []
  | m :: ms => m.operators ++ memberOperators ms

end

/-- The checks of the clauses of a query that hold no queries. -/
def Query.clauseRequirements (q : Query) : List Requirement :=
  q.windows.flatMap (·.requirements) ++ (q.framedWindows.flatMap (·.requirements) ++
    (q.aggregates.flatMap (fun a => [.aggregateType a.type]) ++
      (q.conditions.flatMap (fun c => [.operator "whereRaw" c.operator]) ++
        (q.groups.flatMap (fun g => (memberOperators g.members).map (.operator "whereGroups")) ++
          (q.having.flatMap (fun h => [.operator "having" h.operator]) ++
            q.orderBy.flatMap fun o => [.direction o.direction])))))

mutual

/-- The checks of a query, in order: its names, its table expressions, its clauses. -/
def Query.requirements : Query → List Requirement
  | q@{windows, framedWindows, tables, recursiveTables, ..} =>
    .distinct (windows.map (·.label) ++ framedWindows.map (·.label))
        (tables.map (·.name) ++ recursiveTables.map (·.name)) ::
      (tableRequirements tables ++ (recursiveTableRequirements recursiveTables ++
        q.clauseRequirements))

/-- The checks of table expressions. -/
def tableRequirements : List (TableExpr Query) → List Requirement
  | [] => []
  | {name, query, ..} :: rest =>
    .identifier name :: (query.requirements ++ tableRequirements rest)

/-- The checks of recursive table expressions. -/
def recursiveTableRequirements : List (RecursiveExpr Query) → List Requirement
  | [] => []
  | {name, initial, recursive, ..} :: rest =>
    .identifier name ::
      (initial.requirements ++ (recursive.requirements ++ recursiveTableRequirements rest))

end

theorem settles_orderText (o : OrderTerm) : Settles (orderText o) o.requirements := by
  unfold orderText
  refine settles_bind (settles_checkDirection _) fun direction _ => ?_
  refine settles_bind (settles_checkIdentifier _) fun field _ => ?_
  cases o.nulls with
  | none => exact settles_ok _
  | some nulls =>
    apply settles_map (settles_checkNulls nulls)
    intro checked
    exact ⟨_, rfl⟩

theorem settles_functionCall (type : String) (field : Option String) :
    Settles (functionCall type field) (.windowType type ::
      ((if type = "row_number" then none else field).map .column).toList) := by
  unfold functionCall
  by_cases htype : type ∈ windowTypes
  · left
    refine ⟨htype, ?_⟩
    rw [if_neg (by simpa using htype)]
    by_cases hrow : type = "row_number"
    · rw [if_pos hrow, if_pos hrow]
      exact settles_ok _
    · rw [if_neg hrow, if_neg hrow]
      cases field with
      | none =>
        dsimp only
        split <;> exact settles_ok _
      | some f =>
        apply settles_map (settles_checkColumn f)
        intro column
        exact ⟨_, rfl⟩
  · right
    refine ⟨htype, ?_⟩
    exact if_pos (by simpa using htype)

/-- A part of a clause for a list; an empty list is passed over. -/
theorem settles_listed {α β γ : Type} {f : α → Except Fault β} {g : α → List Requirement}
    {ss : List Requirement} (hf : ∀ a, Settles (f a) (g a)) (as : List α)
    {shown : List β → List String} {next : List String → Except Fault γ}
    (hnext : ∀ parts, Settles (next parts) ss) :
    Settles
      (if as.isEmpty = true then pure [] >>= next
        else as.mapM f >>= fun bs => pure (shown bs) >>= next)
      (as.flatMap g ++ ss) := by
  split
  · rename_i hempty
    rw [List.isEmpty_iff.mp hempty]
    exact hnext []
  · apply settles_bind (settles_mapM hf as)
    intro bs _
    exact hnext (shown bs)

theorem settles_overClause (partitionBy : List String) (orderBy : List OrderTerm)
    (frame : Option String) :
    Settles (overClause partitionBy orderBy frame)
      (partitionBy.flatMap (fun name => [.identifier name]) ++ (orderBy.flatMap (·.requirements) ++
        ((frame.filter fun clause => !clause.isEmpty).map .frameClause).toList)) := by
  unfold overClause
  refine settles_listed settles_checkIdentifier partitionBy fun partition => ?_
  refine settles_listed settles_orderText orderBy fun order => ?_
  cases frame with
  | none => exact settles_ok _
  | some clause =>
    by_cases hempty : clause.isEmpty = true
    · simp only [hempty, Option.filter]
      exact settles_ok _
    · simp only [hempty, Option.filter]
      apply settles_map (settles_checkFrameClause clause)
      intro checked
      exact ⟨_, rfl⟩

theorem settles_window (w : Window) : Settles w.compile w.requirements := by
  unfold Window.compile
  refine settles_bind (settles_checkIdentifier _) fun label _ => ?_
  have hfragment : Settles w.fragment _ :=
    settles_bind (settles_functionCall w.type w.field) fun call _ =>
      settles_map (settles_overClause w.partitionBy w.orderBy w.frame) fun clause => ⟨_, rfl⟩
  apply settles_map hfragment
  intro text
  exact ⟨_, rfl⟩

theorem settles_forM {α : Type} {f : α → Except Fault Unit} {g : α → Requirement}
    (hf : ∀ a, Settles (f a) [g a]) (as : List α) : Settles (as.forM f) (as.map g) := by
  induction as with
  | nil => exact settles_ok ()
  | cons a as ih => exact settles_bind (hf a) fun _ _ => ih

theorem settles_framedWindow (w : FramedWindow) : Settles w.compile w.requirements := by
  unfold FramedWindow.compile
  refine settles_bind (settles_checkIdentifier _) fun _ _ => ?_
  by_cases htype : w.type ∈ windowTypes
  · left
    refine ⟨htype, ?_⟩
    rw [if_neg (by simpa using htype)]
    apply settles_map (settles_forM (fun c => settles_checkOperator _ _) w.conditions)
    intro _
    exact ⟨_, rfl⟩
  · right
    refine ⟨htype, ?_⟩
    exact if_pos (by simpa using htype)

theorem settles_aggregate (a : Aggregate) : Settles a.compile [.aggregateType a.type] := by
  unfold Aggregate.compile
  apply settles_check
  · intro htype
    exact ⟨_, if_pos (List.contains_iff_mem.mpr htype)⟩
  · intro htype
    exact if_neg fun h => htype (List.contains_iff_mem.mp h)

theorem settles_condition (c : Condition) :
    Settles c.compile [.operator "whereRaw" c.operator] := by
  apply settles_map (settles_checkOperator _ _)
  intro _
  exact ⟨_, rfl⟩

theorem settles_having (h : HavingTerm) : Settles h.compile [.operator "having" h.operator] := by
  apply settles_map (settles_checkOperator _ _)
  intro _
  exact ⟨_, rfl⟩

theorem settles_orderTerm (o : OrderTerm) : Settles o.compile [.direction o.direction] := by
  apply settles_map (settles_checkDirection _)
  intro _
  exact ⟨_, rfl⟩

mutual

theorem settles_member (m : GroupMember) :
    Settles m.check (m.operators.map (.operator "whereGroups")) := by
  match m with
  | .condition c =>
    rw [GroupMember.check]
    exact settles_checkOperator _ _
  | .group _ members _ =>
    rw [GroupMember.check]
    exact settles_members members

theorem settles_members : (ms : List GroupMember) →
    Settles (checkMembers ms) ((memberOperators ms).map (.operator "whereGroups"))
  | [] => settles_ok ()
  | m :: ms => by
    rw [checkMembers, memberOperators, List.map_append]
    exact settles_bind (settles_member m) fun _ _ => settles_members ms

end

theorem settles_group (g : Group) :
    Settles g.compile ((memberOperators g.members).map (.operator "whereGroups")) := by
  apply settles_map (settles_members g.members)
  intro _
  exact ⟨_, rfl⟩

theorem settles_clauses (q : Query) : Settles q.compileClauses q.clauseRequirements := by
  unfold Query.compileClauses
  refine settles_bind (settles_mapM settles_window _) fun windows _ => ?_
  refine settles_bind (settles_mapM settles_framedWindow _) fun framed _ => ?_
  refine settles_bind (settles_mapM settles_aggregate _) fun aggregates _ => ?_
  refine settles_bind (settles_mapM settles_condition _) fun conditions _ => ?_
  refine settles_bind (settles_mapM settles_group _) fun groups _ => ?_
  refine settles_bind (settles_mapM settles_having _) fun having _ => ?_
  apply settles_map (settles_mapM settles_orderTerm _)
  intro order
  exact ⟨_, rfl⟩

/-! ## Whole queries -/

/-- A call that logs is settled by checks, whatever was logged before. -/
def SettlesLogged {α : Type} (x : Logged α) (rs : List Requirement) : Prop :=
  ∀ log, Settles (ExceptT.run x log).1 rs

section Logged

variable {α β : Type} {rs ss : List Requirement}

theorem settlesLogged_log (level : Level) (origin : Origin) (message : String) :
    SettlesLogged (logEntry level origin message) [] := by
  intro log
  exact settles_ok ()

theorem settlesLogged_lift {a : Except Fault α} (h : Settles a rs) :
    SettlesLogged (liftM a) rs := by
  intro log
  cases a <;> exact h

theorem settlesLogged_bind {x : Logged α} {f : α → Logged β} (hx : SettlesLogged x rs)
    (hf : ∀ v, SettlesLogged (f v) ss) : SettlesLogged (x >>= f) (rs ++ ss) := by
  intro log
  have hrun : (ExceptT.run (x >>= f) log).1 =
      (ExceptT.run x log).1 >>= fun v => (ExceptT.run (f v) (ExceptT.run x log).2).1 := by
    change (ExceptT.bindCont f (ExceptT.run x log).1 (ExceptT.run x log).2).1 = _
    cases (ExceptT.run x log).1 <;> rfl
  rw [hrun]
  exact settles_bind (hx log) fun v _ => hf v _

theorem settlesLogged_map {x : Logged α} {f : α → β} (hx : SettlesLogged x rs) :
    SettlesLogged (x >>= fun v => pure (f v)) rs := by
  have h : SettlesLogged (x >>= fun v => pure (f v)) (rs ++ []) :=
    settlesLogged_bind hx fun v _ => settles_ok (f v)
  rwa [List.append_nil] at h

end Logged

mutual

/-- A query is settled by its checks. -/
theorem settles_compile (q : Query) : SettlesLogged q.compile q.requirements := by
  match q with
  | {tables, recursiveTables, ..} =>
    rw [Query.compile, Query.requirements]
    refine settlesLogged_bind (settlesLogged_lift (settles_checkNames _)) fun _ => ?_
    refine settlesLogged_bind (settles_tables tables) fun ts => ?_
    refine settlesLogged_bind (settles_recursiveTables recursiveTables) fun rs => ?_
    exact settlesLogged_map (settlesLogged_lift (settles_clauses _))

theorem settles_tables : (ts : List (TableExpr Query)) →
    SettlesLogged (compileTables ts) (tableRequirements ts)
  | [] => fun log => settles_ok []
  | {name, query, ..} :: rest => by
    rw [compileTables, tableRequirements]
    refine settlesLogged_bind (settlesLogged_lift (settles_checkIdentifier name)) fun _ => ?_
    refine settlesLogged_bind (settles_compile query) fun _ => ?_
    exact settlesLogged_map (settles_tables rest)

theorem settles_recursiveTables : (ts : List (RecursiveExpr Query)) →
    SettlesLogged (compileRecursiveTables ts) (recursiveTableRequirements ts)
  | [] => fun log => settles_ok []
  | {name, initial, recursive, keepRepeats, columns, table, recursiveTable, recursiveColumns}
      :: rest => by
    have hparts : SettlesLogged (do
        let name ← checkIdentifier name
        let first ← initial.compile
        let next ← recursive.compile
        return .recursiveTable name first next keepRepeats columns table recursiveTable
          recursiveColumns :: (← compileRecursiveTables rest) : Logged (List Operation))
        (.identifier name :: (initial.requirements ++
          (recursive.requirements ++ recursiveTableRequirements rest))) := by
      refine settlesLogged_bind (settlesLogged_lift (settles_checkIdentifier name)) fun _ => ?_
      refine settlesLogged_bind (settles_compile initial) fun _ => ?_
      refine settlesLogged_bind (settles_compile recursive) fun _ => ?_
      exact settlesLogged_map (settles_recursiveTables rest)
    rw [compileRecursiveTables, recursiveTableRequirements]
    split
    · exact settlesLogged_bind (settlesLogged_log _ _ _) fun _ => hparts
    · exact hparts

end

/-! ## Valid queries -/

/-- A window whose parts may stand in a statement. The field of a row number is not used, and an
empty frame is no frame. -/
structure Window.IsValid (w : Window) : Prop where
  label : isIdentifier w.label = true
  type : w.type ∈ windowTypes
  field : w.type ≠ "row_number" → ∀ f ∈ w.field, f = "*" ∨ isIdentifier f = true
  partitionBy : ∀ name ∈ w.partitionBy, isIdentifier name = true
  orderBy : ∀ o ∈ w.orderBy, (o.direction = "asc" ∨ o.direction = "desc") ∧
    isIdentifier o.field = true ∧ ∀ n ∈ o.nulls, n = "first" ∨ n = "last"
  frame : ∀ clause ∈ w.frame, clause ≠ "" → IsFrameClause clause

/-- A framed window that may be planned. -/
structure FramedWindow.IsValid (w : FramedWindow) : Prop where
  label : isIdentifier w.label = true
  type : w.type ∈ windowTypes
  conditions : ∀ c ∈ w.conditions, c.operator ∈ conditionOperators

/-- A query that is valid apart from the queries of its table expressions. -/
structure Query.IsValidLevel (q : Query) : Prop where
  windowNames : (q.windows.map (·.label) ++ q.framedWindows.map (·.label)).Nodup
  tableNames : (q.tables.map (·.name) ++ q.recursiveTables.map (·.name)).Nodup
  tables : ∀ t ∈ q.tables, isIdentifier t.name = true
  recursiveTables : ∀ t ∈ q.recursiveTables, isIdentifier t.name = true
  windows : ∀ w ∈ q.windows, w.IsValid
  framedWindows : ∀ w ∈ q.framedWindows, w.IsValid
  aggregates : ∀ a ∈ q.aggregates, a.type ∈ aggregateTypes
  conditions : ∀ c ∈ q.conditions, c.operator ∈ conditionOperators
  groups : ∀ g ∈ q.groups, ∀ operator ∈ memberOperators g.members, operator ∈ conditionOperators
  having : ∀ h ∈ q.having, h.operator ∈ conditionOperators
  orderBy : ∀ o ∈ q.orderBy, o.direction = "asc" ∨ o.direction = "desc"

/-- A query that is valid, as are the queries of its table expressions at all depths. -/
inductive Query.IsValid : Query → Prop
  | mk {q : Query} (level : q.IsValidLevel) (tables : ∀ t ∈ q.tables, IsValid t.query)
      (initial : ∀ t ∈ q.recursiveTables, IsValid t.initial)
      (recursive : ∀ t ∈ q.recursiveTables, IsValid t.recursive) : IsValid q

theorem met_orderTerm {o : OrderTerm} : (∀ r ∈ o.requirements, r.Met) ↔
    (o.direction = "asc" ∨ o.direction = "desc") ∧ isIdentifier o.field = true ∧
      ∀ n ∈ o.nulls, n = "first" ∨ n = "last" := by
  unfold OrderTerm.requirements
  simp [Requirement.Met]

theorem met_window {w : Window} : (∀ r ∈ w.requirements, r.Met) ↔ w.IsValid := by
  have hfield : (∀ r ∈ ((if w.type = "row_number" then none else w.field).map
        Requirement.column).toList, r.Met) ↔
      (w.type ≠ "row_number" → ∀ f ∈ w.field, f = "*" ∨ isIdentifier f = true) := by
    by_cases hrow : w.type = "row_number"
    · simp [hrow]
    · simp [hrow, Requirement.Met]
  have hframe : (∀ r ∈ ((w.frame.filter fun clause => !clause.isEmpty).map
        Requirement.frameClause).toList, r.Met) ↔
      ∀ clause ∈ w.frame, clause ≠ "" → IsFrameClause clause := by
    cases w.frame with
    | none => simp
    | some clause =>
      by_cases hempty : clause = ""
      · simp [hempty]
      · simp [hempty, Requirement.Met]
  unfold Window.requirements
  simp only [List.forall_mem_cons, List.forall_mem_append, List.forall_mem_flatMap,
    List.not_mem_nil, false_imp_iff, implies_true, and_true, hfield, hframe, met_orderTerm]
  constructor
  · rintro ⟨hlabel, ⟨htype, hfield⟩, hpartition, horder, hframe⟩
    exact ⟨hlabel, htype, hfield, hpartition, horder, hframe⟩
  · intro h
    exact ⟨h.label, ⟨h.type, h.field⟩, h.partitionBy, h.orderBy, h.frame⟩

theorem met_framedWindow {w : FramedWindow} : (∀ r ∈ w.requirements, r.Met) ↔ w.IsValid := by
  unfold FramedWindow.requirements
  simp only [List.forall_mem_cons, List.forall_mem_map]
  constructor
  · rintro ⟨hlabel, htype, hconditions⟩
    exact ⟨hlabel, htype, hconditions⟩
  · intro h
    exact ⟨h.label, h.type, h.conditions⟩

theorem met_query {q : Query} :
    ((q.windows.map (·.label) ++ q.framedWindows.map (·.label)).Nodup ∧
      (q.tables.map (·.name) ++ q.recursiveTables.map (·.name)).Nodup) ∧
      (∀ t ∈ q.tables, isIdentifier t.name = true ∧ t.query.IsValid) ∧
      (∀ t ∈ q.recursiveTables, isIdentifier t.name = true ∧ t.initial.IsValid ∧
        t.recursive.IsValid) ∧ (∀ r ∈ q.clauseRequirements, r.Met) ↔ q.IsValid := by
  unfold Query.clauseRequirements
  simp only [List.forall_mem_append, List.forall_mem_flatMap, List.forall_mem_singleton,
    List.forall_mem_map, met_window, met_framedWindow]
  constructor
  · rintro ⟨⟨hlabels, hnames⟩, htables, hrecursive, hwindows, hframed, haggregates, hconditions,
      hgroups, hhaving, horder⟩
    apply Query.IsValid.mk
    · exact ⟨hlabels, hnames, fun t ht => (htables t ht).1, fun t ht => (hrecursive t ht).1,
        hwindows, hframed, haggregates, hconditions, hgroups, hhaving, horder⟩
    · exact fun t ht => (htables t ht).2
    · exact fun t ht => (hrecursive t ht).2.1
    · exact fun t ht => (hrecursive t ht).2.2
  · rintro ⟨level, htables, hinitial, hrecursive⟩
    exact ⟨⟨level.windowNames, level.tableNames⟩, fun t ht => ⟨level.tables t ht, htables t ht⟩,
      fun t ht => ⟨level.recursiveTables t ht, hinitial t ht, hrecursive t ht⟩, level.windows,
      level.framedWindows, level.aggregates, level.conditions, level.groups, level.having,
      level.orderBy⟩

mutual

/-- The checks of a query are met exactly if it is valid. -/
theorem met_requirements (q : Query) : (∀ r ∈ q.requirements, r.Met) ↔ q.IsValid := by
  match q with
  | {tables, recursiveTables, ..} =>
    apply Iff.trans _ met_query
    rw [Query.requirements, List.forall_mem_cons, List.forall_mem_append, List.forall_mem_append,
      met_tables tables, met_recursiveTables recursiveTables]
    rfl

theorem met_tables : (ts : List (TableExpr Query)) →
    ((∀ r ∈ tableRequirements ts, r.Met) ↔
      ∀ t ∈ ts, isIdentifier t.name = true ∧ t.query.IsValid)
  | [] => by simp [tableRequirements]
  | {name, query, ..} :: rest => by
    rw [tableRequirements, List.forall_mem_cons, List.forall_mem_append, List.forall_mem_cons,
      met_requirements query, met_tables rest, and_assoc]
    rfl

theorem met_recursiveTables : (ts : List (RecursiveExpr Query)) →
    ((∀ r ∈ recursiveTableRequirements ts, r.Met) ↔
      ∀ t ∈ ts, isIdentifier t.name = true ∧ t.initial.IsValid ∧ t.recursive.IsValid)
  | [] => by simp [recursiveTableRequirements]
  | {name, initial, recursive, ..} :: rest => by
    rw [recursiveTableRequirements, List.forall_mem_cons, List.forall_mem_append,
      List.forall_mem_append, List.forall_mem_cons, met_requirements initial,
      met_requirements recursive, met_recursiveTables rest, and_assoc, and_assoc]
    rfl

end

/-- A check fails with all duplicates of one query, or with an unsupported feature. -/
theorem Requirement.fault_cases (r : Requirement) :
    (∃ windows tables, r = .distinct windows tables ∧
        r.fault = .invalid ((duplicates windows).map .duplicateWindow ++
          (duplicates tables).map .duplicateTable) none) ∨
      (∀ windows tables, r ≠ .distinct windows tables) ∧
        ∃ feature, r.fault = .unsupported feature := by
  cases r with
  | distinct windows tables => exact .inl ⟨windows, tables, rfl, rfl⟩
  | _ => exact .inr ⟨by simp, _, rfl⟩

/-- The queries that are compiled are the valid ones. Any other fails as the first check does that it
does not meet. -/
theorem compiled_iff_valid (q : Query) :
    ((∃ os, q.compile.run.1 = .ok os) ↔ q.IsValid) ∧
      ∀ f, q.compile.run.1 = .error f ↔
        ∃ before r after, q.requirements = before ++ r :: after ∧ (∀ s ∈ before, s.Met) ∧
          ¬ r.Met ∧ f = r.fault ∧
          ((∃ windows tables, r = .distinct windows tables ∧
              f = .invalid ((duplicates windows).map .duplicateWindow ++
                (duplicates tables).map .duplicateTable) none) ∨
            (∀ windows tables, r ≠ .distinct windows tables) ∧
              ∃ feature, f = .unsupported feature) := by
  have hsettles : Settles q.compile.run.1 q.requirements := settles_compile q []
  constructor
  · exact hsettles.ok_iff.trans (met_requirements q)
  · intro f
    rw [hsettles.error_iff]
    constructor
    · rintro ⟨before, r, after, hsplit, hbefore, hr, rfl⟩
      exact ⟨before, r, after, hsplit, hbefore, hr, rfl, r.fault_cases⟩
    · rintro ⟨before, r, after, hsplit, hbefore, hr, hf, -⟩
      exact ⟨before, r, after, hsplit, hbefore, hr, hf⟩

/-- A row number over a field that has no name. -/
def fieldlessNumber : Query :=
  { Query.empty none with windows := [⟨"row_number", "n", some "a b", [], [], none⟩] }

theorem row_number_field_unchecked : (∃ os, fieldlessNumber.compile.run.1 = .ok os) ∧
    ∃ w ∈ fieldlessNumber.windows, ∃ f ∈ w.field, ¬ (Requirement.column f).Met := by
  constructor
  · exact ⟨_, rfl⟩
  · refine ⟨_, List.mem_singleton_self _, "a b", rfl, ?_⟩
    simp only [Requirement.Met, not_or]
    decide

/-- Two names stand twice in one query, and a table expression in it has a name with a blank. -/
example :
    let twice : Query :=
      { Query.empty none with
        windows := [⟨"rank", "a", none, [], [], none⟩, ⟨"rank", "a", none, [], [], none⟩]
        tables := [⟨"t t", Query.empty none, [], none⟩, ⟨"t t", Query.empty none, [], none⟩] }
    twice.compile.run.1 = .error (.invalid [.duplicateWindow "a", .duplicateTable "t t"] none) := by
  rfl

end RowGate
