import Mathlib
import RowGate.Query.Reader
import RowGate.Proofs.Json.Values
import RowGate.Proofs.Sequence
/-!
How queries are read. Main statements: table expressions and their queries are read from what is
under their keys, and what reading makes of the parts of a query holds of all queries inside it.
-/
namespace RowGate

open Read

/-! ## What is under a key -/

theorem Record.get_cons (k : String) (v : Value) (r : Record) (key : String) :
    Record.get ((k, v) :: r) key = if k = key then v else Record.get r key := by
  unfold Record.get
  by_cases hk : k = key
  · rw [if_pos hk, hk, List.lookup_cons_self]
    rfl
  · have hne : (key == k) = false := by simpa using Ne.symm hk
    rw [if_neg hk, List.lookup_cons, hne]

theorem Record.get_mem {r : Record} {key : String} :
    r.get key = .null ∨ (key, r.get key) ∈ r := by
  unfold Record.get
  cases hlookup : r.lookup key with
  | none => exact .inl rfl
  | some v =>
    obtain ⟨before, after, hsplit, -⟩ := List.lookup_eq_some_iff.mp hlookup
    right
    rw [hsplit]
    simp

theorem membersUnder_eq (place : String) (r : Record) :
    membersUnder place r = memberList place (r.get "clauses") := by
  induction r with
  | nil => rfl
  | cons f r ih =>
    obtain ⟨k, v⟩ := f
    rw [membersUnder, Record.get_cons]
    split
    · rfl
    · exact ih

theorem tablesUnder_eq (r : Record) : tablesUnder r = tableList (r.get "ctes") := by
  induction r with
  | nil => rfl
  | cons f r ih =>
    obtain ⟨k, v⟩ := f
    rw [tablesUnder, Record.get_cons]
    split
    · rfl
    · exact ih

theorem recursiveTablesUnder_eq (r : Record) :
    recursiveTablesUnder r = recursiveTableList (r.get "recursiveCtes") := by
  induction r with
  | nil => rfl
  | cons f r ih =>
    obtain ⟨k, v⟩ := f
    rw [recursiveTablesUnder, Record.get_cons]
    split
    · rfl
    · exact ih

theorem queryUnder_eq (r : Record) : queryUnder r =
    if (r.get "query").truthy then readNested (r.get "query") else .ok (.empty none) := by
  induction r with
  | nil => rfl
  | cons f r ih =>
    obtain ⟨k, v⟩ := f
    rw [queryUnder, Record.get_cons]
    split
    · rfl
    · exact ih

theorem requiredQuery_eq (key place : String) (r : Record) : requiredQuery key place r =
    if (r.get key).isNull then .error (.violation (.required place key))
    else readNested (r.get key) := by
  induction r with
  | nil => rfl
  | cons f r ih =>
    obtain ⟨k, v⟩ := f
    rw [requiredQuery, Record.get_cons]
    split
    · rfl
    · exact ih

/-- A query without parameters of its own is read as it is. -/
theorem readNested_eq {r : Record} (h : "params" ∉ r.map (·.1)) :
    readNested (.map r) = Query.read none (.map r) := by
  rw [Query.read]
  unfold readNested
  dsimp only
  split
  · rename_i k v
    have hk : k ≠ "params" := by
      rintro rfl
      exact h (by simp)
    rw [if_neg hk]
  · rfl

/-! ## Items and optional parts -/

namespace Read

variable {β : Type} {r : Record} {key : String}

/-- The items of a list are parts of it. -/
theorem mem_parts_of_list {v : Value} {place : String} {vs : List Value}
    (h : list v place = .ok vs) : ∀ w ∈ vs, w ∈ v.parts := by
  cases v with
  | null =>
    rw [← Except.ok.inj h]
    exact List.forall_mem_nil _
  | list items | tuple items =>
    rw [← Except.ok.inj h]
    exact fun _ hw => hw
  | _ => cases h

/-- What holds of whatever is read from the parts of a list holds of each item. -/
theorem forall_of_items {read : Value → String → Reading β} {xs : List β} {P : β → Prop}
    (h : items r key read = .ok xs)
    (hP : ∀ v ∈ (Record.get r key).parts, ∀ place x, read v place = .ok x → P x) : ∀ x ∈ xs, P x := by
  have heach (i : Nat) (vs : List Value)
      (hvs : ∀ v ∈ vs, ∀ place x, read v place = .ok x → P x) {xs : List β}
      (h : eachAt (fun i v => read v (indexed key i)) i vs = .ok xs) : ∀ x ∈ xs, P x := by
    induction vs generalizing i xs with
    | nil =>
      rw [← Except.ok.inj h]
      exact List.forall_mem_nil _
    | cons v vs ih =>
      obtain ⟨hv, hvs⟩ := List.forall_mem_cons.mp hvs
      obtain ⟨x, hx, hrest⟩ := sequence_eq_ok.mp h
      obtain ⟨rest, hothers, hxs⟩ := sequence_eq_ok.mp hrest
      rw [← pure_answers.mp hxs]
      exact List.forall_mem_cons.mpr ⟨hv _ _ hx, ih _ hvs hothers⟩
  obtain ⟨vs, hvs, hitems⟩ := sequence_eq_ok.mp h
  exact heach 0 vs (fun v hv => hP v (mem_parts_of_list hvs v hv)) hitems

/-- What is read unless it is false has been read from somewhere. -/
theorem read_of_unlessFalse {v : Value} {read : Value → Reading β} {o : Option β}
    (h : unlessFalse v read = .ok o) : ∀ x ∈ o, read v = .ok x := by
  intro x hx
  unfold unlessFalse at h
  split at h
  · cases hread : read v with
    | error f =>
      rw [hread] at h
      cases h
    | ok y =>
      rw [hread] at h
      obtain rfl := Except.ok.inj h
      exact congrArg Except.ok (Option.some.inj hx)
  · rw [← Except.ok.inj h] at hx
    cases hx

end Read

/-! ## Members of groups -/

section

variable {W : Value → Prop} {P : GroupMember → Prop}

theorem forall_of_membersAt {vs : List Value} {place : String} {i : Nat} {ms : List GroupMember}
    (h : ∀ v ∈ vs, ∀ place m, GroupMember.read place v = .ok m → P m)
    (hread : membersAt place i vs = .ok ms) : ∀ m ∈ ms, P m := by
  induction vs generalizing i ms with
  | nil =>
    rw [← Except.ok.inj hread]
    exact List.forall_mem_nil _
  | cons v vs ih =>
    obtain ⟨m, hm, hrest⟩ := sequence_eq_ok.mp hread
    obtain ⟨rest, hothers, hms⟩ := sequence_eq_ok.mp hrest
    rw [← pure_answers.mp hms]
    exact List.forall_mem_cons.mpr ⟨h v List.mem_cons_self _ m hm,
      ih (fun w hw => h w (List.mem_cons_of_mem v hw)) hothers⟩

/-- What holds of the conditions that are read, and of a group where it holds of its members, holds of
every member, whether a value is read as one or as a list of them. -/
theorem members_hold (hparts : ∀ v, W v → ∀ w ∈ v.parts, W w)
    (hcondition : ∀ v place c, W v → Condition.read v place = .ok c → P (.condition c))
    (hgroup : ∀ connective ms joiner, (∀ m ∈ ms, P m) → P (.group connective ms joiner))
    (v : Value) (hv : W v) : (∀ place m, GroupMember.read place v = .ok m → P m) ∧
      ∀ place ms, memberList place v = .ok ms → ∀ m ∈ ms, P m := by
  induction v using Value.parts_induction with
  | step v ih =>
  have hpart (w : Value) (hw : w ∈ v.parts) := ih w hw (hparts v hv w hw)
  have hsingle {place m} (h : (do return GroupMember.condition (← Condition.read v place)) =
      (.ok m : Reading GroupMember)) : P m := by
    obtain ⟨c, hc, hm⟩ := sequence_eq_ok.mp h
    rw [← pure_answers.mp hm]
    exact hcondition v place c hv hc
  cases v with
  | map r =>
    refine ⟨fun place m hread => ?_, fun place ms hread => by cases hread⟩
    rw [GroupMember.read] at hread
    split at hread
    · rw [membersUnder_eq] at hread
      obtain ⟨members, hmembers, hrest⟩ := sequence_eq_ok.mp hread
      simp only [sequence_eq_ok, pure_answers] at hrest
      obtain ⟨own, -, joiner, -, rfl⟩ := hrest
      refine hgroup _ _ _ ?_
      have hclauses : Record.get r "clauses" = .null ∨ ("clauses", Record.get r "clauses") ∈ r :=
        Record.get_mem
      rcases hclauses with hnull | hmem
      · rw [hnull] at hmembers
        rw [← Except.ok.inj hmembers]
        exact List.forall_mem_nil _
      · exact (hpart _ (List.mem_map.mpr ⟨_, hmem, rfl⟩)).2 place members hmembers
    · exact hsingle hread
  | list items | tuple items =>
    refine ⟨fun place m hread => hsingle hread, fun place ms hread => ?_⟩
    exact forall_of_membersAt (fun v hv => (hpart v hv).1) hread
  | null =>
    refine ⟨fun place m hread => hsingle hread, fun place ms hread => ?_⟩
    rw [← Except.ok.inj hread]
    exact List.forall_mem_nil _
  | _ => exact ⟨fun place m hread => hsingle hread, fun place ms hread => by cases hread⟩

end

/-! ## The parts of a query -/

/-- The positive integer under a key, if there is one. -/
def positiveUnder (r : Record) (key : String) : Option Int := (integer? (r.get key)).filter (0 < ·)

/-- The clauses and settings of a query are read from a record. -/
structure Query.ReadFrom (limit : Option Value) (r : Record) (q : Query) : Prop where
  filter : object (orEmpty (Record.get r "filter")) "filter" = .ok q.filter
  conditions : items r "whereRaw" Condition.read = .ok q.conditions
  ranges : items r "whereBetween" Range.read = .ok q.ranges
  nulls : texts (Record.get r "whereNull") "whereNull" = .ok q.nulls
  notNulls : texts (Record.get r "whereNotNull") "whereNotNull" = .ok q.notNulls
  isIn : valueLists r "whereIn" = .ok q.isIn
  notIn : valueLists r "whereNotIn" = .ok q.notIn
  exists_ : items r "whereExists" Fragment.read = .ok q.exists_
  groups : items r "whereGroups" Group.read = .ok q.groups
  groupBy : texts (Record.get r "groupBy") "groupBy" = .ok q.groupBy
  having : items r "having" HavingTerm.read = .ok q.having
  orderBy : items r "orderBy" OrderTerm.read = .ok q.orderBy
  aggregates : items r "aggregates" Aggregate.read = .ok q.aggregates
  fragments : items r "rawExpressions" Fragment.read = .ok q.fragments
  windows : items r "windowFunctions" Window.read = .ok q.windows
  framedWindows : items r "advancedWindows" FramedWindow.read = .ok q.framedWindows
  transforms : unlessFalse (Record.get r "transforms") (Transforms.read · "transforms") =
    .ok q.transforms
  cache : unlessFalse (Record.get r "cache") (CacheSettings.read · "cache") = .ok q.cache
  limits : unlessFalse (Record.get r "validation") (Limits.read · "validation") = .ok q.limits
  limit : q.limit = ((positiveUnder r "limit").map .int).or limit
  offset : q.offset = (positiveUnder r "offset").getD 0

/-- A query is put together exactly if each of its parts is read. -/
theorem Query.assemble_eq_ok {limit : Option Value} {r : Record}
    {tables : Reading (List (TableExpr Query))}
    {recursiveTables : Reading (List (RecursiveExpr Query))} {q : Query} :
    Query.assemble limit r tables recursiveTables = .ok q ↔
      tables = .ok q.tables ∧ recursiveTables = .ok q.recursiveTables ∧ q.ReadFrom limit r := by
  constructor
  · intro h
    simp only [Query.assemble, sequence_eq_ok, pure_answers] at h
    obtain ⟨filter, h₁, conditions, h₂, ranges, h₃, nulls, h₄, notNulls, h₅, isIn, h₆, notIn, h₇,
      exists_, h₈, groups, h₉, groupBy, h₁₀, having', h₁₁, orderBy, h₁₂, aggregates, h₁₃,
      fragments, h₁₄, windows, h₁₅, framedWindows, h₁₆, ts, h₁₇, rs, h₁₈, transforms, h₁₉,
      cache, h₂₀, limits, h₂₁, rfl⟩ := h
    exact ⟨h₁₇, h₁₈, h₁, h₂, h₃, h₄, h₅, h₆, h₇, h₈, h₉, h₁₀, h₁₁, h₁₂, h₁₃, h₁₄, h₁₅, h₁₆, h₁₉, h₂₀,
      h₂₁, rfl, rfl⟩
  · rintro ⟨htables, hrecursive, h⟩
    simp only [Query.assemble, h.filter, h.conditions, h.ranges, h.nulls, h.notNulls, h.isIn,
      h.notIn, h.exists_, h.groups, h.groupBy, h.having, h.orderBy, h.aggregates, h.fragments,
      h.windows, h.framedWindows, htables, hrecursive, h.transforms, h.cache, h.limits,
      ok_sequence, pure_answers]
    have hlimit := h.limit
    have hoffset := h.offset
    unfold positiveUnder at hlimit hoffset
    rw [← hlimit, ← hoffset]
    cases q
    rfl

/-- A query without any clause is read from an empty record. -/
theorem Query.readFrom_empty (limit : Option Value) : (Query.empty limit).ReadFrom limit [] :=
  have hread : Query.assemble limit [] (.ok []) (.ok []) = .ok (.empty limit) := rfl
  (Query.assemble_eq_ok (q := .empty limit)).mp hread |>.2.2

/-! ## Queries inside queries -/

/-- Something that holds of every query of a list of table expressions. -/
def TablesHold (P : Query → Prop) (ts : List (TableExpr Query)) : Prop := ∀ t ∈ ts, P t.query

/-- Something that holds of both queries of all recursive table expressions of a list. -/
def RecursiveTablesHold (P : Query → Prop) (ts : List (RecursiveExpr Query)) : Prop :=
  ∀ t ∈ ts, P t.initial ∧ P t.recursive

/-- What holds of a query if it holds of the queries of its table expressions holds of all queries. -/
theorem Query.nested_induction {P : Query → Prop}
    (step : ∀ q, TablesHold P q.tables → RecursiveTablesHold P q.recursiveTables → P q) (q : Query) :
    P q :=
  step q (fun t _ => nested_induction step t.query)
    fun t _ => ⟨nested_induction step t.initial, nested_induction step t.recursive⟩
termination_by sizeOf q
decreasing_by
  all_goals
    have hlt := List.sizeOf_lt_of_mem ‹_›
    cases q
    cases t
    simp at hlt ⊢
    omega

section

variable {W : Value → Prop} {L : Option Value → Prop} {P : Query → Prop}

/-- What holds of the queries that are read from a value in any of the ways in which queries and
table expressions are read. -/
structure ReadsHold (L : Option Value → Prop) (P : Query → Prop) (v : Value) : Prop where
  query : ∀ limit q, L limit → Query.read limit v = .ok q → P q
  nested : ∀ q, readNested v = .ok q → P q
  table : ∀ place t, readTable place v = .ok t → P t.query
  recursiveTable : ∀ place t, readRecursiveTable place v = .ok t → P t.initial ∧ P t.recursive
  tables : ∀ ts, tableList v = .ok ts → TablesHold P ts
  recursiveTables : ∀ ts, recursiveTableList v = .ok ts → RecursiveTablesHold P ts

theorem tablesHold_tablesAt {vs : List Value} (h : ∀ v ∈ vs, ReadsHold L P v) {i : Nat}
    {ts : List (TableExpr Query)} (hread : tablesAt i vs = .ok ts) : TablesHold P ts := by
  induction vs generalizing i ts with
  | nil =>
    obtain rfl := Except.ok.inj hread
    exact List.forall_mem_nil _
  | cons v vs ih =>
    obtain ⟨t, ht, hrest⟩ := sequence_eq_ok.mp hread
    obtain ⟨rest, hothers, hts⟩ := sequence_eq_ok.mp hrest
    obtain rfl := pure_answers.mp hts
    refine List.forall_mem_cons.mpr ⟨(h v List.mem_cons_self).table _ _ ht, ?_⟩
    exact ih (fun w hw => h w (List.mem_cons_of_mem v hw)) hothers

theorem recursiveTablesHold_recursiveTablesAt {vs : List Value} (h : ∀ v ∈ vs, ReadsHold L P v)
    {i : Nat} {ts : List (RecursiveExpr Query)} (hread : recursiveTablesAt i vs = .ok ts) :
    RecursiveTablesHold P ts := by
  induction vs generalizing i ts with
  | nil =>
    obtain rfl := Except.ok.inj hread
    exact List.forall_mem_nil _
  | cons v vs ih =>
    obtain ⟨t, ht, hrest⟩ := sequence_eq_ok.mp hread
    obtain ⟨rest, hothers, hts⟩ := sequence_eq_ok.mp hrest
    obtain rfl := pure_answers.mp hts
    refine List.forall_mem_cons.mpr ⟨(h v List.mem_cons_self).recursiveTable _ _ ht, ?_⟩
    exact ih (fun w hw => h w (List.mem_cons_of_mem v hw)) hothers

variable (hparts : ∀ v, W v → ∀ w ∈ v.parts, W w) (hmap : W (.map [])) (hnone : L none)
  (hstep : ∀ {limit r q}, L limit → W (.map r) → TablesHold P q.tables →
    RecursiveTablesHold P q.recursiveTables → q.ReadFrom limit r → P q)

include hparts hmap hnone hstep in
/-- What holds of a query that is put together where it holds of the queries of its table expressions
holds of every query that is read. -/
theorem readsHold (v : Value) (hv : W v) : ReadsHold L P v := by
  have hempty (limit : Option Value) (hlimit : L limit) : P (.empty limit) :=
    hstep hlimit hmap (List.forall_mem_nil _) (List.forall_mem_nil _) (Query.readFrom_empty limit)
  induction v using Value.parts_induction with
  | step v ih =>
  have hpart : ∀ w ∈ v.parts, ReadsHold L P w := fun w hw => ih w hw (hparts v hv w hw)
  cases v with
  | map r =>
    have hfield (key : String) :
        Record.get r key = .null ∨ ReadsHold L P (Record.get r key) :=
      Record.get_mem.imp_right fun hmem => hpart _ (List.mem_map.mpr ⟨_, hmem, rfl⟩)
    have hassembled {limit q} (hlimit : L limit)
        (hread : Query.assemble limit r (tablesUnder r) (recursiveTablesUnder r) = .ok q) :
        P q := by
      obtain ⟨htables, hrecursive, hfrom⟩ := Query.assemble_eq_ok.mp hread
      refine hstep hlimit hv ?_ ?_ hfrom
      · rw [tablesUnder_eq] at htables
        rcases hfield "ctes" with hnull | hholds
        · rw [hnull] at htables
          rw [← Except.ok.inj htables]
          exact List.forall_mem_nil _
        · exact hholds.tables _ htables
      · rw [recursiveTablesUnder_eq] at hrecursive
        rcases hfield "recursiveCtes" with hnull | hholds
        · rw [hnull] at hrecursive
          rw [← Except.ok.inj hrecursive]
          exact List.forall_mem_nil _
        · exact hholds.recursiveTables _ hrecursive
    have hunder (key : String) {q} (hread : readNested (Record.get r key) = .ok q) : P q := by
      rcases hfield key with hnull | hholds
      · rw [hnull] at hread
        rw [← Except.ok.inj hread]
        exact hempty none hnone
      · exact hholds.nested q hread
    refine ⟨fun limit q hlimit hread => ?_, fun q hread => ?_, fun place t hread => ?_,
      fun place t hread => ?_, fun ts hread => ?_, fun ts hread => ?_⟩
    · rw [Query.read] at hread
      exact hassembled hlimit hread
    · unfold readNested at hread
      dsimp only at hread
      split at hread
      · rename_i k w
        split at hread
        · exact (hpart w (by simp [Value.parts])).query none q hnone hread
        · exact hassembled hnone hread
      · exact hassembled hnone hread
    · rw [readTable, queryUnder_eq] at hread
      simp only [sequence_eq_ok, pure_answers] at hread
      obtain ⟨name, -, q, hquery, columns, -, rfl⟩ := hread
      split at hquery
      · exact hunder "query" hquery
      · rw [← Except.ok.inj hquery]
        exact hempty none hnone
    · rw [readRecursiveTable, requiredQuery_eq, requiredQuery_eq] at hread
      simp only [sequence_eq_ok, pure_answers] at hread
      obtain ⟨name, -, initial, hinitial, recursive, hrecursive, columns, -, others, -, rfl⟩ := hread
      split at hinitial
      · cases hinitial
      split at hrecursive
      · cases hrecursive
      exact ⟨hunder "initialQuery" hinitial, hunder "recursiveQuery" hrecursive⟩
    · cases hread
    · cases hread
  | list items | tuple items =>
    refine ⟨fun limit q _ hread => ?_, fun q hread => ?_, fun place t hread => ?_,
      fun place t hread => ?_, fun ts hread => ?_, fun ts hread => ?_⟩
    · cases hread
    · cases hread
    · cases hread
    · cases hread
    · exact tablesHold_tablesAt hpart hread
    · exact recursiveTablesHold_recursiveTablesAt hpart hread
  | null =>
    refine ⟨fun limit q hlimit hread => ?_, fun q hread => ?_, fun place t hread => ?_,
      fun place t hread => ?_, fun ts hread => ?_, fun ts hread => ?_⟩
    · rw [← Except.ok.inj hread]
      exact hempty limit hlimit
    · rw [← Except.ok.inj hread]
      exact hempty none hnone
    · cases hread
    · cases hread
    · rw [← Except.ok.inj hread]
      exact List.forall_mem_nil _
    · rw [← Except.ok.inj hread]
      exact List.forall_mem_nil _
  | _ =>
    refine ⟨fun limit q _ hread => ?_, fun q hread => ?_, fun place t hread => ?_,
      fun place t hread => ?_, fun ts hread => ?_, fun ts hread => ?_⟩
    all_goals cases hread

end

end RowGate
