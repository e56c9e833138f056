import RowGate.Proofs.Plan.Values
import RowGate.Proofs.Query.Reordering
/-!
Plans of queries whose maps differ in the order of keys only. Main statement: they are the same but
for the order of keys inside values, and the order of the operations for the entries of one map.
-/
namespace RowGate

mutual

/-- The same operation but for the order of keys inside its values. -/
inductive Operation.Reordered : Operation → Operation → Prop
  | same (o : Operation) : Operation.Reordered o o
  | table (name : String) (columns : List String) (source : Option String) {os ps} :
      OperationsReordered os ps →
      Operation.Reordered (.table name os columns source) (.table name ps columns source)
  | recursiveTable (name : String) (keepRepeats : Bool) (columns : List String)
      (source recursiveSource : Option String) (recursiveColumns : List String) {os ps os' ps'} :
      OperationsReordered os ps → OperationsReordered os' ps' →
      Operation.Reordered
        (.recursiveTable name os os' keepRepeats columns source recursiveSource recursiveColumns)
        (.recursiveTable name ps ps' keepRepeats columns source recursiveSource recursiveColumns)
  | framedWindow {w x : FramedWindow} : w.toValue.Reordered x.toValue →
      Operation.Reordered (.framedWindow w) (.framedWindow x)
  | equals {r s : Record} : (Value.map r).Reordered (.map s) →
      Operation.Reordered (.equals r) (.equals s)
  | fragment (sql : String) {vs ws} : List.Forall₂ Value.Reordered vs ws →
      Operation.Reordered (.fragment sql vs) (.fragment sql ws)
  | condition (field operator : String) {v w : Value} : v.Reordered w →
      Operation.Reordered (.condition field operator v) (.condition field operator w)
  | range (field : String) {low high low' high' : Value} : low.Reordered low' →
      high.Reordered high' →
      Operation.Reordered (.range field low high) (.range field low' high')
  | isIn (field : String) {vs ws} : List.Forall₂ Value.Reordered vs ws →
      Operation.Reordered (.isIn field vs) (.isIn field ws)
  | notIn (field : String) {vs ws} : List.Forall₂ Value.Reordered vs ws →
      Operation.Reordered (.notIn field vs) (.notIn field ws)
  | exists_ (sql : String) {vs ws} : List.Forall₂ Value.Reordered vs ws →
      Operation.Reordered (.exists_ sql vs) (.exists_ sql ws)
  | group {g h : Group} : g.toValue.Reordered h.toValue →
      Operation.Reordered (.group g) (.group h)
  | having (field operator : String) {v w : Value} : v.Reordered w →
      Operation.Reordered (.having field operator v) (.having field operator w)
  | limit {v w : Value} : v.Reordered w → Operation.Reordered (.limit v) (.limit w)

/-- The same operations but for the order of keys inside their values, where the entries of `isIn` may
change places with each other, and so may those of `notIn`. -/
inductive OperationsReordered : List Operation → List Operation → Prop
  | nil : OperationsReordered [] []
  | cons {o p os ps} : Operation.Reordered o p → OperationsReordered os ps →
      OperationsReordered (o :: os) (p :: ps)
  | swapIn (field field' : String) (vs vs' : List Value) (os : List Operation) :
      OperationsReordered (.isIn field vs :: .isIn field' vs' :: os)
        (.isIn field' vs' :: .isIn field vs :: os)
  | swapNotIn (field field' : String) (vs vs' : List Value) (os : List Operation) :
      OperationsReordered (.notIn field vs :: .notIn field' vs' :: os)
        (.notIn field' vs' :: .notIn field vs :: os)
  | trans {os ps qs} : OperationsReordered os ps → OperationsReordered ps qs →
      OperationsReordered os qs

end

namespace OperationsReordered

variable {os ps os' ps' : List Operation}

theorem of_forall₂ (h : List.Forall₂ Operation.Reordered os ps) : OperationsReordered os ps := by
  induction h with
  | nil => exact .nil
  | cons ho _ ih => exact .cons ho ih

theorem refl (os : List Operation) : OperationsReordered os os :=
  of_forall₂ (List.forall₂_same.mpr fun o _ => .same o)

theorem prefixed (os : List Operation) (h : OperationsReordered ps ps') :
    OperationsReordered (os ++ ps) (os ++ ps') := by
  induction os with
  | nil => exact h
  | cons o os ih => exact .cons (.same o) ih

theorem followed {os ps : List Operation} (h : OperationsReordered os ps) (rest : List Operation) :
    OperationsReordered (os ++ rest) (ps ++ rest) := by
  match h with
  | .nil => exact refl rest
  | .cons ho h => exact .cons ho (h.followed rest)
  | .swapIn field field' vs vs' os => exact .swapIn field field' vs vs' (os ++ rest)
  | .swapNotIn field field' vs vs' os => exact .swapNotIn field field' vs vs' (os ++ rest)
  | .trans h h' => exact (h.followed rest).trans (h'.followed rest)

theorem append (h : OperationsReordered os ps) (h' : OperationsReordered os' ps') :
    OperationsReordered (os ++ os') (ps ++ ps') := (h.followed os').trans (h'.prefixed ps)

end OperationsReordered

/-! ## Checks -/

mutual

theorem check_reordered {m n : GroupMember} (h : m.toValue.Reordered n.toValue) :
    m.check = n.check := by
  match m, n with
  | .condition c, .condition d =>
    rw [GroupMember.check, GroupMember.check, (Condition.of_reordered h).2.1]
  | .condition _, .group _ _ _ => exact absurd h Condition.not_reordered_group.1
  | .group _ _ _, .condition _ => exact absurd h Condition.not_reordered_group.2
  | .group _ ms _, .group _ ns _ =>
    rw [GroupMember.check, GroupMember.check]
    exact checkMembers_reordered (groupValue_reordered h)

/-- The operators of groups whose maps differ in the order of keys only are the same. -/
theorem checkMembers_reordered {ms ns : List GroupMember}
    (h : List.Forall₂ Value.Reordered (membersToValues ms) (membersToValues ns)) :
    checkMembers ms = checkMembers ns := by
  match ms, ns with
  | [], [] => rfl
  | [], _ :: _ => cases h
  | _ :: _, [] => cases h
  | m :: ms, n :: ns =>
    obtain ⟨hm, hms⟩ := List.forall₂_cons.mp h
    rw [checkMembers, checkMembers, check_reordered hm, checkMembers_reordered hms]

end

/-! ## Clauses -/

theorem framedWindow_reordered {w x : FramedWindow} (h : w.toValue.Reordered x.toValue) :
    Correspond Operation.Reordered w.compile x.compile := by
  obtain ⟨hlabel, htype, hconditions⟩ := FramedWindow.of_reordered h
  unfold FramedWindow.compile
  rw [hlabel, htype, checkConditions_eq _ (hconditions.imp fun _ _ h => (Condition.of_reordered h).2.1)]
  refine .checked fun _ => ?_
  split
  · exact .error (.same _)
  · exact .checked fun _ => .ok (.framedWindow h)

theorem condition_reordered {c d : Condition} (h : c.toValue.Reordered d.toValue) :
    Correspond Operation.Reordered c.compile d.compile := by
  obtain ⟨hfield, hoperator, hvalue⟩ := Condition.of_reordered h
  unfold Condition.compile
  rw [hfield, hoperator]
  exact .checked fun _ => .ok (.condition d.field d.operator hvalue)

theorem having_reordered {t u : HavingTerm} (h : t.toValue.Reordered u.toValue) :
    Correspond Operation.Reordered t.compile u.compile := by
  obtain ⟨hfield, hoperator, hvalue⟩ := HavingTerm.of_reordered h
  unfold HavingTerm.compile
  rw [hfield, hoperator]
  exact .checked fun _ => .ok (.having u.field u.operator hvalue)

theorem group_reordered {g h : Group} (hgh : g.toValue.Reordered h.toValue) :
    Correspond (List.Forall₂ Operation.Reordered) g.compile h.compile := by
  have hmembers := groupValue_reordered hgh
  have hempty {ms ns : List GroupMember}
      (hms : List.Forall₂ Value.Reordered (membersToValues ms) (membersToValues ns)) :
      ms.isEmpty = ns.isEmpty := by
    cases ms <;> cases ns <;> cases hms <;> rfl
  unfold Group.compile
  rw [checkMembers_reordered hmembers, hempty hmembers]
  refine .checked fun _ => .ok ?_
  split
  · exact .nil
  · exact .cons (.group hgh) .nil

/-- Entries of maps that differ in the order of keys only become operations in some order. -/
theorem sought_reordered {f : String → List Value → Operation} {xs ys : List (String × List Value)}
    (hvalues : ∀ field {vs ws}, List.Forall₂ Value.Reordered vs ws →
      Operation.Reordered (f field vs) (f field ws))
    (hswap : ∀ field field' vs vs' os, OperationsReordered (f field vs :: f field' vs' :: os)
      (f field' vs' :: f field vs :: os))
    (h : (valueListsValue xs).Reordered (valueListsValue ys)) :
    OperationsReordered (xs.map fun l => f l.1 l.2) (ys.map fun l => f l.1 l.2) := by
  have hplaces {zs ys : List (String × List Value)} (hperm : zs.Perm ys) :
      OperationsReordered (zs.map fun l => f l.1 l.2) (ys.map fun l => f l.1 l.2) := by
    clear h
    induction hperm with
    | nil => exact .nil
    | cons l _ ih => exact .cons (.same _) ih
    | swap l l' ls => exact hswap _ _ _ _ _
    | trans _ _ ih ih' => exact ih.trans ih'
  obtain ⟨t, hperm, hmatched⟩ := Value.Reordered.matched h
  obtain ⟨zs, ht, hzs⟩ := (congrFun₂ (List.eq_map_comp_perm _) t ys).mpr hperm
  rw [ht, List.forall₂_map_left_iff, List.forall₂_map_right_iff] at hmatched
  refine (OperationsReordered.of_forall₂ ?_).trans (hplaces hzs)
  rw [List.forall₂_map_left_iff, List.forall₂_map_right_iff]
  refine hmatched.imp fun x z hxz => ?_
  obtain ⟨hkey, hlist⟩ := hxz
  have hkey : x.1 = z.1 := hkey
  rw [hkey]
  exact hvalues z.1 (Value.Reordered.list_iff.mp hlist)

/-- What is made of items that are related is the same but for the order of keys. -/
theorem map_reordered {α : Type} {R : α → α → Prop} {f : α → Operation}
    (hf : ∀ a b, R a b → Operation.Reordered (f a) (f b)) {as bs : List α}
    (h : List.Forall₂ R as bs) : OperationsReordered (as.map f) (bs.map f) := by
  refine .of_forall₂ ?_
  rw [List.forall₂_map_left_iff, List.forall₂_map_right_iff]
  exact h.imp hf

theorem filter_reordered {r s : Record} (h : (Value.map r).Reordered (.map s)) :
    OperationsReordered (if r.isEmpty then [] else [.equals r])
      (if s.isEmpty then [] else [.equals s]) := by
  have hempty : r.isEmpty = s.isEmpty := by
    obtain ⟨t, hperm, hmatched⟩ := h.matched
    have hlength := hmatched.length_eq.trans hperm.length_eq
    cases r <;> cases s <;> simp_all
  rw [hempty]
  split
  · exact .nil
  · exact .cons (.equals h) .nil

theorem limit_reordered {v w : Option Value} (h : Option.Rel Value.Reordered v w) :
    OperationsReordered (v.map .limit).toList (w.map .limit).toList := by
  cases h with
  | some h => exact .cons (.limit h) .nil
  | none => exact .nil

/-- Clauses that differ in the order of keys only are compiled to operations that do so. -/
theorem clauses_reordered {q r : Query} (h : q.ClausesReordered r) :
    Correspond OperationsReordered q.compileClauses r.compileClauses := by
  unfold Query.compileClauses
  rw [h.windows, h.aggregates, h.orderBy, h.nulls, h.notNulls, h.groupBy, h.offset]
  refine .checked fun windows => ?_
  refine (Correspond.mapM (fun _ _ h => framedWindow_reordered h) h.framedWindows).bind
    fun framed framed' hframed => ?_
  refine .checked fun aggregates => ?_
  refine (Correspond.mapM (fun _ _ h => condition_reordered h) h.conditions).bind
    fun conditions conditions' hconditions => ?_
  refine (Correspond.mapM (fun _ _ h => group_reordered h) h.groups).bind
    fun groups groups' hgroups => ?_
  refine (Correspond.mapM (fun _ _ h => having_reordered h) h.having).bind
    fun having having' hhaving => ?_
  refine .checked fun order => .ok ?_
  have hfragments := map_reordered (f := fun x : Fragment => .fragment x.sql x.bindings)
    (fun x y hxy => by
      obtain ⟨hsql, hbindings⟩ := Fragment.of_reordered hxy
      rw [hsql]
      exact .fragment _ hbindings) h.fragments
  have hexists := map_reordered (f := fun x : Fragment => .exists_ x.sql x.bindings)
    (fun x y hxy => by
      obtain ⟨hsql, hbindings⟩ := Fragment.of_reordered hxy
      rw [hsql]
      exact .exists_ _ hbindings) h.exists_
  have hranges := map_reordered (f := fun x : Range => .range x.field x.low x.high)
    (fun x y hxy => by
      obtain ⟨hfield, hlow, hhigh⟩ := Range.of_reordered hxy
      rw [hfield]
      exact .range _ hlow hhigh) h.ranges
  simp only [List.append_assoc]
  refine .append (.refl _) ?_
  refine .append (.of_forall₂ hframed) ?_
  refine .append (filter_reordered h.filter) ?_
  refine .append hfragments ?_
  refine .append (.refl _) ?_
  refine .append (.of_forall₂ hconditions) ?_
  refine .append hranges ?_
  refine .append (.refl _) ?_
  refine .append (.refl _) ?_
  refine .append (sought_reordered .isIn .swapIn h.isIn) ?_
  refine .append (sought_reordered .notIn .swapNotIn h.notIn) ?_
  refine .append hexists ?_
  refine .append (.of_forall₂ (List.rel_flatten hgroups)) ?_
  refine .append (.refl _) ?_
  refine .append (.of_forall₂ hhaving) ?_
  refine .append (.refl _) ?_
  exact .append (limit_reordered h.limit) (.refl _)

/-! ## Queries -/

/-- Two compilations, whatever they log, whose operations are the same but for the order of keys and
entries. -/
abbrev CompileAlike (x y : Logged (List Operation)) : Prop := Compile OperationsReordered x y

theorem tables_reordered {ts us : List (TableExpr Query)}
    (h : List.Forall₂ (fun t u => t.toValue.Reordered u.toValue) ts us)
    (hcompile : TablesHold (fun q => ∀ r : Query, q.toValue.Reordered r.toValue →
      CompileAlike q.compile r.compile) ts) :
    CompileAlike (compileTables ts) (compileTables us) := by
  induction h with
  | nil =>
    simp only [compileTables]
    exact .pure .nil
  | @cons t u ts us htu _ ih =>
    obtain ⟨ht, hts⟩ := List.forall_mem_cons.mp hcompile
    obtain ⟨name, q, columns, table⟩ := t
    obtain ⟨name', r, columns', table'⟩ := u
    obtain ⟨rfl, hquery, rfl, rfl⟩ := TableExpr.of_reordered htu
    simp only [compileTables]
    refine .checked fun name => (ht r hquery).bind fun os ps hos => ?_
    refine (ih hts).bind fun os' ps' hos' => ?_
    exact .pure (.cons (.table name columns table hos) hos')

theorem recursiveTables_reordered {ts us : List (RecursiveExpr Query)}
    (h : List.Forall₂ (fun t u => t.toValue.Reordered u.toValue) ts us)
    (hcompile : RecursiveTablesHold (fun q => ∀ r : Query, q.toValue.Reordered r.toValue →
      CompileAlike q.compile r.compile) ts) :
    CompileAlike (compileRecursiveTables ts) (compileRecursiveTables us) := by
  induction h with
  | nil =>
    simp only [compileRecursiveTables]
    exact .pure .nil
  | @cons t u ts us htu _ ih =>
    obtain ⟨⟨hinitial, hrecursive⟩, hts⟩ := List.forall_mem_cons.mp hcompile
    obtain ⟨name, q, q', repeats, columns, table, source, next⟩ := t
    obtain ⟨name', r, r', repeats', columns', table', source', next'⟩ := u
    obtain ⟨rfl, hqr, hqr', rfl, rfl, rfl, rfl, rfl⟩ := RecursiveExpr.of_reordered htu
    have hrest (name' : String) := (hinitial r hqr).bind fun os ps hos =>
      (hrecursive r' hqr').bind fun os' ps' hos' => (ih hts).bind fun ts us hts =>
        Pairs.pure (S := fun _ _ => True) (OperationsReordered.cons
          (.recursiveTable name' repeats columns table source next hos hos') hts)
    have hchecked := Pairs.checked (x := checkIdentifier name) hrest
    simp only [compileRecursiveTables]
    split <;> split
    · exact Compile.logging_right (Compile.logging_left hchecked _ _ _) _ _ _
    · exact Compile.logging_left hchecked _ _ _
    · exact Compile.logging_right hchecked _ _ _
    · exact hchecked

/-- Queries whose maps differ in the order of keys only are compiled to operations that are the same
but for the order of keys inside values and of the entries of maps. -/
theorem compile_reordered {q r : Query} (h : q.toValue.Reordered r.toValue) :
    CompileAlike q.compile r.compile := by
  induction q using Query.nested_induction generalizing r with
  | step q htables hrecursive =>
    have hclauses := Query.clausesReordered h
    have hnames {α : Type} {ts us : List α} {value : α → Value} {name : α → String}
        (hname : ∀ t u, (value t).Reordered (value u) → name t = name u)
        (hts : List.Forall₂ (fun t u => (value t).Reordered (value u)) ts us) :
        ts.map name = us.map name := by
      rw [← List.forall₂_eq_eq_eq, List.forall₂_map_left_iff, List.forall₂_map_right_iff]
      exact hts.imp hname
    have hchecked : q.checkNames = r.checkNames := by
      unfold Query.checkNames
      rw [hclauses.windows,
        hnames (fun _ _ h => (FramedWindow.of_reordered h).1) hclauses.framedWindows,
        hnames (fun _ _ h => (TableExpr.of_reordered h).1) hclauses.tables,
        hnames (fun _ _ h => (RecursiveExpr.of_reordered h).1) hclauses.recursiveTables]
    rw [compile_eq, compile_eq, hchecked]
    refine .checked fun _ => ?_
    refine (tables_reordered hclauses.tables fun t ht r hr => htables t ht hr).bind
      fun ts us hts => ?_
    refine (recursiveTables_reordered hclauses.recursiveTables fun t ht =>
      ⟨fun r hr => (hrecursive t ht).1 hr, fun r hr => (hrecursive t ht).2 hr⟩).bind
        fun ts' us' hts' => ?_
    refine (Pairs.lift (clauses_reordered hclauses)).bind fun os ps hos => .pure ?_
    exact (hts.append hts').append hos

end RowGate
