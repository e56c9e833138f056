import RowGate.Proofs.Query.Reading
/-!
How readings of queries fail. Main statements: a reading is refused with violations unless a bound on
complexity is no number, in the query or in one inside it, and then no query is read.
-/
namespace RowGate

open Read

/-! ## Lists of parts -/

theorem membersAt_eq (place : String) (i : Nat) (vs : List Value) : membersAt place i vs =
    eachAt (fun i => GroupMember.read (indexed (place ++ ".clauses") i)) i vs := by
  induction vs generalizing i with
  | nil => rfl
  | cons v vs ih => rw [membersAt, eachAt, ih]

theorem tablesAt_eq (i : Nat) (vs : List Value) :
    tablesAt i vs = eachAt (fun i => readTable (indexed "ctes" i)) i vs := by
  induction vs generalizing i with
  | nil => rfl
  | cons v vs ih => rw [tablesAt, eachAt, ih]

theorem recursiveTablesAt_eq (i : Nat) (vs : List Value) :
    recursiveTablesAt i vs = eachAt (fun i => readRecursiveTable (indexed "recursiveCtes" i)) i vs := by
  induction vs generalizing i with
  | nil => rfl
  | cons v vs ih => rw [recursiveTablesAt, eachAt, ih]

theorem memberList_eq (place : String) (v : Value) : memberList place v =
    list v place >>= eachAt (fun i => GroupMember.read (indexed (place ++ ".clauses") i)) 0 := by
  cases v with
  | list items | tuple items => exact membersAt_eq place 0 items
  | _ => rfl

theorem tableList_eq (v : Value) :
    tableList v = list v "ctes" >>= eachAt (fun i => readTable (indexed "ctes" i)) 0 := by
  cases v with
  | list items | tuple items => exact tablesAt_eq 0 items
  | _ => rfl

theorem recursiveTableList_eq (v : Value) : recursiveTableList v =
    list v "recursiveCtes" >>= eachAt (fun i => readRecursiveTable (indexed "recursiveCtes" i)) 0 := by
  cases v with
  | list items | tuple items => exact recursiveTablesAt_eq 0 items
  | _ => rfl

/-- Whoever reads the items of a list has read each part. -/
theorem ok_of_eachOf {β : Type} {read : Nat → Value → Reading β} {v : Value} {place : String}
    {bs : List β} (h : list v place >>= eachAt read 0 = .ok bs) :
    ∀ w ∈ v.parts, ∃ i b, read i w = .ok b := by
  have hat (vs : List Value) (i : Nat) {bs : List β} (h : eachAt read i vs = .ok bs) :
      ∀ w ∈ vs, ∃ i b, read i w = .ok b := by
    induction vs generalizing i bs with
    | nil => exact List.forall_mem_nil _
    | cons w vs ih =>
      obtain ⟨b, hb, hrest⟩ := sequence_eq_ok.mp h
      obtain ⟨rest, hothers, -⟩ := sequence_eq_ok.mp hrest
      exact List.forall_mem_cons.mpr ⟨⟨i, b, hb⟩, ih (i + 1) hothers⟩
  obtain ⟨vs, hvs, hitems⟩ := sequence_eq_ok.mp h
  cases v with
  | null => exact List.forall_mem_nil _
  | list items | tuple items =>
    rw [← Except.ok.inj hvs] at hitems
    exact hat items 0 hitems
  | _ => cases hvs

/-! ## Refusals -/

/-- Whether a failure carries violations. -/
def Fault.IsRefusal : Fault → Prop
  | .invalid _ _ => True
  | _ => False

/-- Every failure is a refusal, or one of some others. -/
def Refuses {α : Type} (others : Fault → Prop) (x : Reading α) : Prop :=
  ∀ f, x = .error f → f.IsRefusal ∨ others f

namespace Refuses

variable {α β : Type} {others : Fault → Prop}

@[simp] theorem ok (a : α) : Refuses others (.ok a) := nofun

@[simp] theorem pure (a : α) : Refuses others (pure a) := nofun

@[simp] theorem error_iff {f : Fault} :
    Refuses others (.error f : Reading α) ↔ f.IsRefusal ∨ others f :=
  ⟨fun h => h f rfl, fun h _ hf => Except.error.inj hf ▸ h⟩

theorem violation (v : Violation) : Refuses others (.error (.violation v) : Reading α) :=
  error_iff.mpr (.inl trivial)

theorem mono {some : Fault → Prop} {x : Reading α} (h : Refuses some x)
    (hsub : ∀ f, some f → others f) : Refuses others x :=
  fun f hf => (h f hf).imp_right (hsub f)

/-- The failures of a sequence are those of its first part and those of its second after the first. -/
@[simp] theorem sequence_iff {x : Reading α} {g : α → Reading β} :
    Refuses others (x >>= g) ↔ Refuses others x ∧ ∀ a, x = .ok a → Refuses others (g a) := by
  cases x with
  | error e =>
    rw [error_sequence, error_iff, error_iff]
    exact ⟨fun h => ⟨h, nofun⟩, fun h => h.1⟩
  | ok a =>
    refine ⟨fun h => ⟨ok a, ?_⟩, fun h => h.2 a rfl⟩
    rintro b ⟨⟩
    exact h

theorem sequence {x : Reading α} {g : α → Reading β} (hx : Refuses others x)
    (hg : ∀ a, Refuses others (g a)) : Refuses others (x >>= g) :=
  sequence_iff.mpr ⟨hx, fun a _ => hg a⟩

@[simp] theorem map_iff {x : Reading α} {g : α → β} :
    Refuses others (g <$> x) ↔ Refuses others x := by
  cases x with
  | error e => exact error_iff.trans error_iff.symm
  | ok a => exact iff_of_true (ok _) (ok _)

/-- Items that are gone through fail as one of them does. -/
@[simp] theorem mapM {read : α → Reading β} {as : List α} (h : ∀ a ∈ as, Refuses others (read a)) :
    Refuses others (as.mapM read) := by
  induction as with
  | nil => exact pure []
  | cons a as ih =>
    obtain ⟨ha, has⟩ := List.forall_mem_cons.mp h
    rw [List.mapM_cons]
    exact sequence ha fun _ => sequence (ih has) fun _ => pure _

end Refuses

section

variable {β : Type} {others : Fault → Prop} (v : Value) (r : Record) (key place : String)

namespace Read

@[simp] theorem refuses_required : Refuses others (required r key place) := by
  unfold required
  split
  · exact .violation _
  · exact .ok _

@[simp] theorem refuses_object : Refuses others (object v place) := by
  cases v <;> first | exact .ok _ | exact .violation _

@[simp] theorem refuses_list : Refuses others (list v place) := by
  cases v <;> first | exact .ok _ | exact .violation _

@[simp] theorem refuses_texts : Refuses others (texts v place) := by
  simp [texts]

@[simp] theorem refuses_joining : Refuses others (joining v place) := by
  unfold joining
  split
  · exact .ok _
  · split
    · exact .ok _
    · exact .ok _
    · exact .violation _

theorem refuses_eachAt {α : Type} {read : Nat → α → Reading β} {as : List α}
    (h : ∀ a ∈ as, ∀ i, Refuses others (read i a)) (i : Nat) :
    Refuses others (eachAt read i as) := by
  induction as generalizing i with
  | nil => exact .ok []
  | cons a as ih =>
    obtain ⟨ha, has⟩ := List.forall_mem_cons.mp h
    exact .sequence (ha i) fun _ => .sequence (ih has (i + 1)) fun _ => .pure _

/-- The items of a list fail as one of them does. -/
theorem refuses_eachOf {read : Nat → Value → Reading β}
    (h : ∀ w ∈ v.parts, ∀ i, Refuses others (read i w)) :
    Refuses others (list v place >>= eachAt read 0) := by
  refine Refuses.sequence_iff.mpr ⟨refuses_list v place, fun vs hvs => refuses_eachAt ?_ 0⟩
  exact fun w hw => h w (mem_parts_of_list hvs w hw)

@[simp] theorem refuses_items {read : Value → String → Reading β}
    (h : ∀ v place, Refuses others (read v place)) : Refuses others (items r key read) :=
  refuses_eachOf _ _ fun w _ _ => h w _

@[simp] theorem refuses_unlessFalse {read : Value → Reading β} (h : Refuses others (read v)) :
    Refuses others (unlessFalse v read) := by
  unfold unlessFalse
  split
  · exact Refuses.map_iff.mpr h
  · exact .ok none

end Read

/-! ## The clauses -/

@[simp] theorem OrderTerm.refuses_read : Refuses others (OrderTerm.read v place) := by
  simp [OrderTerm.read]

@[simp] theorem Condition.refuses_read : Refuses others (Condition.read v place) := by
  simp [Condition.read]

@[simp] theorem Range.refuses_read : Refuses others (Range.read v place) := by
  refine .sequence (refuses_object v place) fun r => .sequence (refuses_required _ _ _) fun w =>
    .sequence (refuses_list w place) fun bounds => ?_
  split
  · simp
  · exact .violation _

@[simp] theorem Fragment.refuses_read : Refuses others (Fragment.read v place) := by
  simp [Fragment.read]

/-- A value is refused as a member of a group and as a list of members. -/
theorem refuses_members : (∀ place, Refuses others (GroupMember.read place v)) ∧
    ∀ place, Refuses others (memberList place v) := by
  induction v using Value.parts_induction with
  | step v ih =>
  have hcondition (place : String) :
      Refuses others (do return GroupMember.condition (← Condition.read v place)) :=
    .sequence (Condition.refuses_read v place) fun _ => .pure _
  cases v with
  | map r =>
    refine ⟨fun place => ?_, fun place => .violation _⟩
    rw [GroupMember.read]
    split
    · have hmembers : Refuses others (membersUnder place r) := by
        rw [membersUnder_eq]
        have hget : Record.get r "clauses" = .null ∨ ("clauses", Record.get r "clauses") ∈ r :=
          Record.get_mem
        rcases hget with hnull | hmem
        · rw [hnull]
          exact .ok []
        · exact (ih _ (List.mem_map.mpr ⟨_, hmem, rfl⟩)).2 place
      simp [hmembers]
    · exact hcondition place
  | _ =>
    refine ⟨hcondition, fun place => ?_⟩
    rw [memberList_eq]
    exact refuses_eachOf _ _ fun w hw _ => (ih w hw).1 _

@[simp] theorem refuses_membersUnder : Refuses others (membersUnder place r) := by
  rw [membersUnder_eq]
  exact (refuses_members _).2 place

@[simp] theorem Group.refuses_read : Refuses others (Group.read v place) := by
  simp [Group.read]

@[simp] theorem HavingTerm.refuses_read : Refuses others (HavingTerm.read v place) := by
  simp [HavingTerm.read]

@[simp] theorem Aggregate.refuses_read : Refuses others (Aggregate.read v place) := by
  simp [Aggregate.read]

@[simp] theorem Window.refuses_read : Refuses others (Window.read v place) := by
  simp [Window.read]

@[simp] theorem Frame.refuses_read : Refuses others (Frame.read v place) := by
  simp [Frame.read]

@[simp] theorem FramedWindow.refuses_read : Refuses others (FramedWindow.read v place) := by
  simp [FramedWindow.read]

@[simp] theorem Pivot.refuses_read : Refuses others (Pivot.read v place) := by
  simp [Pivot.read]

@[simp] theorem Transforms.refuses_read : Refuses others (Transforms.read v place) := by
  simp [Transforms.read]

@[simp] theorem CacheSettings.refuses_read : Refuses others (CacheSettings.read v place) := by
  refine .sequence (refuses_object v place) fun r => .sequence (refuses_required _ _ _) fun ttl => ?_
  split
  · exact .violation _
  · simp

@[simp] theorem refuses_valueLists : Refuses others (valueLists r key) := by
  simp [valueLists]

end

/-! ## Limits -/

/-- Where the limits of the query with some map stand: in a map of rules, or next to its place. -/
def Record.limitFields (r : Record) : Option Record :=
  match r.get "validation" with
  | .map outer =>
    match Record.get? outer "rules" with
    | some (.map inner) => some inner
    | some _ => none
    | none => some outer
  | _ => none

/-- The value that bounds the complexity of the query with some map. -/
def Record.complexityBound (r : Record) : Option Value :=
  r.limitFields.bind fun s => (s.get "maxComplexity").toOption

/-- Limits from the fields where they stand. -/
def Limits.ofFields (s : Record) (suggestions : Bool) : Reading Limits := do
  let required ← texts (s.get "requiredFields") "validation"
  let disallowed ← texts (s.get "disallowedFields") "validation"
  let complexity ← match (s.get "maxComplexity").toOption with
    | some v => v.toFloat.map some
    | none => pure none
  return ⟨integer? (s.get "maxLimit"), required, disallowed, complexity, suggestions⟩

/-- Limits are read from where they stand; without such a place they are refused. -/
theorem Limits.read_cases (r : Record) :
    (∃ s suggestions, r.limitFields = some s ∧
      Limits.read (r.get "validation") "validation" = ofFields s suggestions) ∨
    r.limitFields = none ∧
      ∃ v, Limits.read (r.get "validation") "validation" = .error (.violation v) := by
  unfold Record.limitFields
  cases r.get "validation" with
  | map outer =>
    dsimp only
    cases hrules : Record.get? outer "rules" with
    | none =>
      refine .inl ⟨outer, (Record.get outer "suggestions").truthy, rfl, ?_⟩
      simp only [Limits.read, object, hrules, ok_sequence, pure_bind]
      rfl
    | some w =>
      cases w with
      | map inner =>
        refine .inl ⟨inner, (Record.get outer "suggestions").truthy, rfl, ?_⟩
        simp only [Limits.read, object, hrules, ok_sequence]
        rfl
      | _ =>
        refine .inr ⟨rfl, ?_⟩
        simp [Limits.read, object, hrules]
  | _ => exact .inr ⟨rfl, _, rfl⟩

/-- What is no number is not refused with violations. -/
theorem Value.not_isRefusal_of_toFloat {v : Value} {f : Fault} (h : v.toFloat = .error f) :
    ¬ f.IsRefusal := by
  unfold Value.toFloat at h
  split at h
  · rename_i s _
    cases hs : Number.parseFloat? s with
    | none =>
      rw [hs] at h
      cases h
      exact id
    | some x =>
      rw [hs] at h
      cases h
  · rename_i n _ _
    unfold Number.lift Except.mapError at h
    split at h
    · rename_i e _
      cases h
      cases e <;> exact id
    · cases h
  · cases h
    exact id

/-- Limits are refused unless the bound is no number. -/
theorem Limits.refuses_read (r : Record) :
    Refuses (fun f => ∃ c, r.complexityBound = some c ∧ c.toFloat = .error f)
      (Limits.read (r.get "validation") "validation") := by
  rcases read_cases r with ⟨s, suggestions, hs, hread⟩ | ⟨-, v, hread⟩
  · rw [hread, Record.complexityBound, hs, Option.bind_some]
    refine .sequence (refuses_texts _ _) fun _ => .sequence (refuses_texts _ _) fun _ => ?_
    cases (s.get "maxComplexity").toOption with
    | none => exact .pure _
    | some c => exact .sequence (Refuses.map_iff.mpr fun f hf => .inr ⟨c, rfl, hf⟩) fun _ => .pure _
  · rw [hread]
    exact .violation v

/-- Limits are read only where the bound is a number. -/
theorem Limits.toFloat_of_read {r : Record} {l : Limits} {c : Value}
    (h : Limits.read (r.get "validation") "validation" = .ok l) (hc : r.complexityBound = some c) :
    ∃ x, c.toFloat = .ok x := by
  rcases read_cases r with ⟨s, suggestions, hs, hread⟩ | ⟨-, v, hread⟩
  · rw [Record.complexityBound, hs, Option.bind_some] at hc
    rw [hread, ofFields, hc] at h
    obtain ⟨_, -, h⟩ := sequence_eq_ok.mp h
    obtain ⟨_, -, h⟩ := sequence_eq_ok.mp h
    obtain ⟨_, hbound, -⟩ := sequence_eq_ok.mp h
    cases hx : c.toFloat with
    | error f =>
      rw [hx] at hbound
      cases hbound
    | ok x => exact ⟨x, rfl⟩
  · rw [hread] at h
    cases h

/-! ## Queries -/

/-- The fields of a map. -/
def Value.fields : Value → Record
  | .map fields => fields
  | _ => []

/-- The map of a query that is read inside another one: it may stand in a map of its own under the key
of parameters. -/
def nestedFields : Value → Record
  | .map [(k, v)] => if k = "params" then v.fields else [(k, v)]
  | v => v.fields

/-- A query inside another one is the one of its map, unless it is refused for having none. -/
theorem readNested_cases (v : Value) :
    readNested v = Query.read none (.map (nestedFields v)) ∨
      ∃ w, readNested v = .error (.violation w) := by
  cases v with
  | map fields =>
    match fields with
    | [(k, v)] =>
      simp only [readNested, nestedFields]
      split
      · cases v <;> first | exact .inl rfl | exact .inr ⟨_, rfl⟩
      · exact .inl rfl
    | [] | _ :: _ :: _ => exact .inl rfl
  | _ => first | exact .inl rfl | exact .inr ⟨_, rfl⟩

/-- A query inside another one that counts as empty has an empty map. -/
theorem nestedFields_of_not_truthy {v : Value} (h : v.truthy = false) : nestedFields v = [] := by
  cases v with
  | map fields =>
    obtain rfl : fields = [] := by simpa [Value.truthy] using h
    rfl
  | _ => rfl

/-- Maps of queries that stand in the map of a query. -/
inductive Inside (r : Record) : Record → Prop
  | table {t : Record} : .map t ∈ (r.get "ctes").parts → Inside r (nestedFields (t.get "query"))
  | recursiveTable {t : Record} {key : String} : .map t ∈ (r.get "recursiveCtes").parts →
      key = "initialQuery" ∨ key = "recursiveQuery" → Inside r (nestedFields (t.get key))

theorem sizeOf_fields_le (v : Value) : sizeOf v.fields ≤ sizeOf v := by
  cases v <;> simp [Value.fields]

theorem sizeOf_nestedFields_le (v : Value) : sizeOf (nestedFields v) ≤ sizeOf v := by
  unfold nestedFields
  split
  · rename_i k v
    have hfields := sizeOf_fields_le v
    split
    · simp
      omega
    · simp
  · exact sizeOf_fields_le v

theorem Record.sizeOf_get_lt (r : Record) (key : String) :
    sizeOf (r.get key) < sizeOf (Value.map r) := by
  have hget : r.get key = .null ∨ (key, r.get key) ∈ r := Record.get_mem
  rcases hget with hnull | hmem
  · rw [hnull]
    cases r <;> simp
  · exact Value.sizeOf_of_mem_parts (List.mem_map.mpr ⟨_, hmem, rfl⟩)

/-- Queries stand inside one another only to some depth. -/
theorem Inside.sizeOf_lt {r s : Record} (h : Inside r s) : sizeOf s < sizeOf r := by
  have hpart {t : Record} {list key : String} (ht : .map t ∈ (r.get list).parts) :
      sizeOf (nestedFields (t.get key)) < sizeOf r := by
    have hnested := sizeOf_nestedFields_le (t.get key)
    have hget := Record.sizeOf_get_lt t key
    have hmember := Value.sizeOf_of_mem_parts ht
    have hlist := Record.sizeOf_get_lt r list
    simp only [Value.map.sizeOf_spec] at hlist hget
    simp only [Value.map.sizeOf_spec] at hmember
    omega
  cases h with
  | table ht => exact hpart ht
  | recursiveTable ht _ => exact hpart ht

/-- What holds of a map if it holds of the maps of queries inside it holds of all maps. -/
@[elab_as_elim]
theorem Inside.induction {motive : Record → Prop}
    (step : ∀ r, (∀ s, Inside r s → motive s) → motive r) (r : Record) : motive r :=
  step r fun s _ => induction step s
termination_by sizeOf r
decreasing_by exact Inside.sizeOf_lt ‹_›

/-- Map of a query, or of one inside it. -/
abbrev Within : Record → Record → Prop := Relation.ReflTransGen Inside

/-- A failure of a bound on complexity, in the query with some map or in one inside it, that is no
number. -/
def BoundFails (r : Record) (f : Fault) : Prop :=
  ∃ s c, Within r s ∧ s.complexityBound = some c ∧ c.toFloat = .error f

section

variable {others : Fault → Prop}

theorem refuses_assemble {limit : Option Value} {r : Record}
    {tables : Reading (List (TableExpr Query))}
    {recursiveTables : Reading (List (RecursiveExpr Query))} (htables : Refuses others tables)
    (hrecursive : Refuses others recursiveTables)
    (hlimits : Refuses others (Limits.read (r.get "validation") "validation")) :
    Refuses others (Query.assemble limit r tables recursiveTables) := by
  simp [Query.assemble, htables, hrecursive, hlimits]

/-- Table expressions are refused unless a query of theirs fails otherwise. -/
theorem refuses_tableList {v : Value}
    (h : ∀ t : Record, .map t ∈ v.parts → Refuses others (queryUnder t)) :
    Refuses others (tableList v) := by
  rw [tableList_eq]
  refine refuses_eachOf v _ fun w hw i => ?_
  cases w with
  | map t => simp [readTable, h t hw]
  | _ => exact .violation _

/-- Recursive table expressions are refused unless a query of theirs fails otherwise. -/
theorem refuses_recursiveTableList {v : Value}
    (h : ∀ (t : Record) key place, .map t ∈ v.parts →
      key = "initialQuery" ∨ key = "recursiveQuery" → Refuses others (requiredQuery key place t)) :
    Refuses others (recursiveTableList v) := by
  rw [recursiveTableList_eq]
  refine refuses_eachOf v _ fun w hw i => ?_
  cases w with
  | map t => simp [readRecursiveTable, h t _ _ hw]
  | _ => exact .violation _

end

/-- A query is refused unless a bound on complexity, of its own or of a query inside it, is no
number. -/
theorem Query.refuses_read (limit : Option Value) (r : Record) :
    Refuses (BoundFails r) (Query.read limit (.map r)) := by
  induction r using Inside.induction generalizing limit with
  | step r ih =>
  have hnested {v : Value} (hv : Inside r (nestedFields v)) :
      Refuses (BoundFails r) (readNested v) := by
    rcases readNested_cases v with hread | ⟨w, hread⟩
    · rw [hread]
      refine (ih _ hv none).mono ?_
      rintro f ⟨s, c, hs, hc⟩
      exact ⟨s, c, .head hv hs, hc⟩
    · rw [hread]
      exact .violation w
  rw [Query.read, tablesUnder_eq, recursiveTablesUnder_eq]
  refine refuses_assemble (refuses_tableList fun t ht => ?_)
    (refuses_recursiveTableList fun t key place ht hkey => ?_) ?_
  · rw [queryUnder_eq]
    split
    · exact hnested (.table ht)
    · exact .ok _
  · rw [requiredQuery_eq]
    split
    · exact .violation _
    · exact hnested (.recursiveTable ht hkey)
  · refine (Limits.refuses_read r).mono ?_
    rintro f ⟨c, hc, hf⟩
    exact ⟨r, c, .refl, hc, hf⟩

/-! ## What is read -/

/-- Whoever reads a query has read the queries inside it. -/
theorem ok_of_inside {limit : Option Value} {r s : Record} {q : Query}
    (h : Query.read limit (.map r) = .ok q) (hs : Inside r s) :
    ∃ p, Query.read none (.map s) = .ok p := by
  have hnested {v : Value} {p : Query} (hread : readNested v = .ok p) :
      ∃ p, Query.read none (.map (nestedFields v)) = .ok p := by
    rcases readNested_cases v with hsame | ⟨w, herror⟩
    · exact ⟨p, hsame ▸ hread⟩
    · rw [herror] at hread
      cases hread
  rw [Query.read, tablesUnder_eq, recursiveTablesUnder_eq, tableList_eq, recursiveTableList_eq] at h
  obtain ⟨htables, hrecursive, -⟩ := Query.assemble_eq_ok.mp h
  cases hs with
  | @table t ht =>
    obtain ⟨i, e, he⟩ := ok_of_eachOf htables _ ht
    rw [readTable, queryUnder_eq] at he
    obtain ⟨_, -, he⟩ := sequence_eq_ok.mp he
    obtain ⟨p, hp, -⟩ := sequence_eq_ok.mp he
    split at hp
    · exact hnested hp
    · rename_i hfalse
      rw [nestedFields_of_not_truthy (Bool.eq_false_of_not_eq_true hfalse)]
      exact ⟨.empty none, rfl⟩
  | @recursiveTable t key ht hkey =>
    obtain ⟨i, e, he⟩ := ok_of_eachOf hrecursive _ ht
    rw [readRecursiveTable, requiredQuery_eq, requiredQuery_eq] at he
    simp only [sequence_eq_ok] at he
    obtain ⟨_, -, initial, hinitial, recursive, hrecursive, -⟩ := he
    rcases hkey with rfl | rfl
    · split at hinitial
      · cases hinitial
      · exact hnested hinitial
    · split at hrecursive
      · cases hrecursive
      · exact hnested hrecursive

/-- A query has the limits that are read for it, or there is nothing where they would stand. -/
theorem limits_of_readFrom {limit : Option Value} {r : Record} {q : Query} (h : q.ReadFrom limit r) :
    (∃ l, q.limits = some l ∧ Limits.read (r.get "validation") "validation" = .ok l) ∨
      q.limits = none ∧ ∀ s ∈ r.limitFields, s = [] := by
  have hlimits := h.limits
  simp only [unlessFalse] at hlimits
  split at hlimits
  · cases hread : Limits.read (r.get "validation") "validation" with
    | error f =>
      rw [hread] at hlimits
      cases hlimits
    | ok l =>
      rw [hread] at hlimits
      exact .inl ⟨l, (Except.ok.inj hlimits).symm, rfl⟩
  · rename_i hfalse
    refine .inr ⟨(Except.ok.inj hlimits).symm, fun s hs => ?_⟩
    unfold Record.limitFields at hs
    split at hs
    · rename_i outer hmap
      rw [hmap] at hfalse
      obtain rfl : outer = [] := by simpa [Value.truthy] using hfalse
      exact (Option.some.inj hs).symm
    · cases hs

/-- A query has only bounds on its complexity that are numbers. -/
theorem toFloat_of_readFrom {limit : Option Value} {r : Record} {q : Query} {c : Value}
    (h : q.ReadFrom limit r) (hc : r.complexityBound = some c) : ∃ x, c.toFloat = .ok x := by
  rcases limits_of_readFrom h with ⟨l, -, hread⟩ | ⟨-, hnone⟩
  · exact Limits.toFloat_of_read hread hc
  · obtain ⟨s, hs, hbound⟩ := Option.bind_eq_some_iff.mp hc
    rw [hnone s hs] at hbound
    cases hbound

/-- Where a bound on complexity is no number, no query is read. -/
theorem not_ok_of_boundFails {limit : Option Value} {r : Record} {f : Fault} (h : BoundFails r f) :
    ∀ q, Query.read limit (.map r) ≠ .ok q := by
  obtain ⟨s, c, hs, hc, hf⟩ := h
  intro q hq
  induction hs using Relation.ReflTransGen.head_induction_on generalizing limit q with
  | refl =>
    rw [Query.read] at hq
    obtain ⟨-, -, hfrom⟩ := Query.assemble_eq_ok.mp hq
    obtain ⟨x, hx⟩ := toFloat_of_readFrom hfrom hc
    rw [hf] at hx
    cases hx
  | head hstep _ ih =>
    obtain ⟨p, hp⟩ := ok_of_inside hq hstep
    exact ih p hp

end RowGate
