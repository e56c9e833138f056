import RowGate.Access.Rule
import RowGate.Proofs.Access.Answered
import RowGate.Proofs.Json.Interchange
import RowGate.Proofs.Query.Written
import RowGate.Proofs.Text.Collection
import RowGate.Proofs.Value.Texts
/-!
Rules of access read back from the maps that they are written as. Labels and teams are sets, which
writing puts in order. Main statement: the rules of a table that are read from the interchange format
are written in it, and what is read back is the same up to the order of those sets.
-/
namespace RowGate

open Access (upper_name ofName?_name)

/-! ## The same rules -/

/-- Equality of rules: in labels and teams, the order does not count. -/
inductive Rule.Same : Rule → Rule → Prop
  | refl (r : Rule) : Same r r
  | labels {xs ys : List String} (h : ∀ x, x ∈ xs ↔ x ∈ ys) : Same (.labels xs) (.labels ys)
  | teams {xs ys : List String} (h : ∀ x, x ∈ xs ↔ x ∈ ys) : Same (.teams xs) (.teams ys)

/-- Equality of the rules of tables: the same operations with the same rules, in order. -/
def Permissions.Same (p q : Permissions) : Prop :=
  List.Forall₂ (fun a b => a.1 = b.1 ∧ List.Forall₂ Rule.Same a.2 b.2) p.entries q.entries

/-! ## Field checks -/

/-- What a field is compared with where that is read from the interchange format. -/
inductive Operand.IsRead : Operand → Prop
  | context (name : String) : IsRead (.context name)
  | tuple {vs : List Value} (h : (Value.list vs).IsInterchange) : IsRead (.literal (.tuple vs))
  | literal {v : Value} (h : v.IsInterchange) (hlist : ∀ vs, v ≠ .list vs) : IsRead (.literal v)

namespace FieldCheck

/-- A field check that is read from the interchange format. -/
def IsRead (c : FieldCheck) : Prop := c.field ≠ "" ∧ c.operand.IsRead

theorem operandOf_isRead {r : Record} (h : (r.get "value").IsInterchange) :
    (operandOf r).IsRead := by
  unfold operandOf
  split
  · exact .context _
  · rename_i vs _ hvalue
    exact .tuple (hvalue ▸ h)
  · rename_i hlist _
    exact .literal h fun vs hvs => hlist vs hvs

theorem isRead {v : Value} (hv : v.IsInterchange) {c : FieldCheck} (h : FieldCheck.read v = .ok c) :
    c.IsRead := by
  cases v with
  | map r =>
    change FieldCheck.ofRecord (r : Record) = _ at h
    obtain ⟨operator, -, hchecked⟩ := sequence_eq_ok.mp h
    split at hchecked
    · rename_i hviolations
      rw [← pure_answers.mp hchecked]
      have hfield : (Record.get r "field").truthy = true := by
        simp only [violations, List.append_eq_nil_iff] at hviolations
        simpa using hviolations.1.1.1
      exact ⟨Value.plain_ne_empty hfield, operandOf_isRead (hv.get "value")⟩
    · cases hchecked
  | _ => cases h

theorem read_toValue {c : FieldCheck} (h : c.IsRead) : FieldCheck.read c.toValue = .ok c := by
  obtain ⟨field, operator, operand⟩ := c
  obtain ⟨hfield, hoperand⟩ := h
  have htruthy : (Value.text field).truthy = true := by simpa [Value.truthy] using hfield
  have hsign := CheckOperator.ofSign?_sign operator
  cases hoperand with
  | context name | tuple h =>
    simp [toValue, FieldCheck.read, ofRecord, Record.get_eq, operatorOf, violations, operandOf,
      htruthy, hsign]
  | @literal v h hlist =>
    obtain ⟨j, -, rfl⟩ := h
    cases j with
    | list items => exact absurd rfl (hlist _)
    | _ => 
      simp [toValue, FieldCheck.read, ofRecord, Record.get_eq, operatorOf, violations, operandOf,
        htruthy, hsign, Json.toValue]

theorem isInterchange_toValue {c : FieldCheck} (h : c.IsRead) : c.toValue.IsInterchange := by
  obtain ⟨field, operator, operand⟩ := c
  have hfields {source : String} {v : Value} (hv : v.IsInterchange) :
      (Value.map [("field", .text field), ("operator", .text operator.sign),
        ("valueType", .text source), ("value", v)]).IsInterchange := by
    refine Value.isInterchange_map.mpr ⟨?_, ?_⟩
    · change ["field", "operator", "valueType", "value"].Nodup
      decide
    · simp [hv, Value.isInterchange_text]
  cases h.2 with
  | context name => exact hfields (Value.isInterchange_text name)
  | tuple hv => exact hfields hv
  | literal hv hlist =>
    obtain ⟨j, hj, rfl⟩ := hv
    cases j <;> exact hfields ⟨_, hj, rfl⟩

end FieldCheck

/-! ## Rules -/

namespace Rule

/-- A rule that is read from the interchange format. -/
def IsRead : Rule → Prop
  | .labels names | .teams names => names.Nodup
  | .field check => check.IsRead
  | .template sql => (Text.strip sql).isEmpty = false
  | .unknown _ => False
  | _ => True

/-- A rule with its sets in order. -/
def inOrder : Rule → Rule
  | .labels names => .labels (Text.sorted names)
  | .teams names => .teams (Text.sorted names)
  | r => r

theorem same_inOrder (r : Rule) : r.Same r.inOrder := by
  cases r with
  | labels names => exact .labels fun x => Text.mem_sorted.symm
  | teams names => exact .teams fun x => Text.mem_sorted.symm
  | _ => exact .refl _

theorem isRead {v : Value} (hv : v.IsInterchange) {r : Rule} (h : Rule.read v = .ok r) :
    r.IsRead := by
  cases v with
  | map fields =>
    change Rule.ofRecord fields = _ at h
    unfold ofRecord at h
    split at h
    case h_6 | h_7 =>
      obtain ⟨names, -, hnames⟩ := sequence_eq_ok.mp h
      rw [← pure_answers.mp hnames]
      exact Text.nodup_distinct names
    case h_9 =>
      obtain ⟨check, hcheck, hfield⟩ := sequence_eq_ok.mp h
      rw [← pure_answers.mp hfield]
      exact FieldCheck.isRead (hv.get "fieldCheck") hcheck
    case h_8 =>
      split at h
      · rw [← pure_answers.mp h]
        trivial
      · cases h
    case h_10 =>
      split at h
      · split at h
        · cases h
        · rename_i hsql
          rw [← pure_answers.mp h]
          simpa [IsRead] using hsql
      · cases h
    case h_3 =>
      obtain ⟨roles, -, hroles⟩ := sequence_eq_ok.mp h
      rw [← pure_answers.mp hroles]
      trivial
    case h_11 => cases h
    all_goals
      rw [← pure_answers.mp h]
      trivial
  | _ => cases h

/-- Texts are read back under their key, behind the kind of a rule. -/
@[simp] theorem textsUnder_texts (kind : Value) {key : String} (hkey : "allow" ≠ key)
    (xs : List String) : textsUnder [("allow", kind), (key, .texts xs)] key = .ok xs := by
  have hget : Record.get [("allow", kind), (key, .texts xs)] key = .texts xs := by
    simp [Record.get_eq, hkey]
  rw [textsUnder, hget]
  cases xs with
  | nil => rfl
  | cons x xs => exact congrArg Except.ok (Value.map_plain_text (x :: xs))

theorem read_toValue {r : Rule} (h : r.IsRead) : Rule.read r.toValue = .ok r.inOrder := by
  cases r with
  | labels names | teams names =>
    have hsorted : (Text.sorted names).Nodup := Text.nodup_sorted h
    simp [toValue, Rule.read, ofRecord, Record.get_eq, kind, payload, inOrder,
      Text.distinct_of_nodup hsorted]
  | role roles =>
    simp [toValue, Rule.read, ofRecord, Record.get_eq, kind, payload, inOrder]
  | field check =>
    simp [toValue, Rule.read, ofRecord, Record.get_eq, kind, payload, inOrder,
      FieldCheck.read_toValue h]
  | template sql =>
    have hsql : (Text.strip sql).isEmpty = false := h
    simp [toValue, Rule.read, ofRecord, Record.get_eq, kind, payload, inOrder, hsql]
  | unknown got => cases h
  | _ => simp [toValue, Rule.read, ofRecord, Record.get_eq, kind, payload, inOrder]

theorem isInterchange_texts (xs : List String) : (Value.texts xs).IsInterchange :=
  Value.isInterchange_list.mpr fun v hv => by
    obtain ⟨s, -, rfl⟩ := List.mem_map.mp hv
    exact Value.isInterchange_text s

theorem isInterchange_toValue {r : Rule} (h : r.IsRead) : r.toValue.IsInterchange := by
  have hpayload : ∀ f ∈ r.payload, f.1 ≠ "allow" ∧ f.2.IsInterchange := by
    cases r with
    | role xs | labels xs | teams xs => simp [payload, isInterchange_texts]
    | constant b => simp [payload, Value.isInterchange_bool]
    | field check => simp [payload, FieldCheck.isInterchange_toValue h]
    | template sql => simp [payload, Value.isInterchange_text]
    | _ => exact List.forall_mem_nil _
  have hnodup : (Record.keys r.payload).Nodup := by cases r <;> simp [payload, Record.keys]
  refine Value.isInterchange_map.mpr ⟨List.nodup_cons.mpr ⟨fun hmem => ?_, hnodup⟩,
    List.forall_mem_cons.mpr ⟨Value.isInterchange_text _, fun f hf => (hpayload f hf).2⟩⟩
  obtain ⟨f, hf, hkey⟩ := List.mem_map.mp hmem
  exact (hpayload f hf).1 hkey

end Rule

/-! ## The rules of a table -/

namespace Permissions

/-- Rules by operation that are read from the interchange format. -/
def IsRead (p : Permissions) : Prop :=
  (p.entries.map (·.1)).Nodup ∧ ∀ e ∈ p.entries, ∀ r ∈ e.2, Rule.IsRead r

/-- Rules by operation with the sets of each rule in order. -/
def inOrder (p : Permissions) : Permissions :=
  ⟨p.entries.map fun e => (e.1, e.2.map Rule.inOrder)⟩

theorem same_inOrder (p : Permissions) : p.Same p.inOrder := by
  refine List.forall₂_map_right_iff.mpr (List.forall₂_same.mpr fun e _ => ⟨rfl, ?_⟩)
  exact List.forall₂_map_right_iff.mpr (List.forall₂_same.mpr fun r _ => r.same_inOrder)

theorem put_of_notMem {rules : List Rule} {a : Action} {es : List (Action × List Rule)}
    (h : a ∉ es.map (·.1)) : put rules a es = es ++ [(a, rules)] := by
  induction es with
  | nil => rfl
  | cons e es ih =>
    obtain ⟨b, old⟩ := e
    rw [List.map_cons, List.mem_cons, not_or] at h
    rw [put, if_neg (Ne.symm h.1), ih h.2, List.cons_append]

theorem put_of_mem {rules : List Rule} {a : Action} {es : List (Action × List Rule)}
    (h : a ∈ es.map (·.1)) : (put rules a es).map (·.1) = es.map (·.1) := by
  induction es with
  | nil => cases h
  | cons e es ih =>
    obtain ⟨b, old⟩ := e
    rw [put]
    split
    · rename_i hb
      rw [List.map_cons, List.map_cons, hb]
    · rename_i hb
      have hrest := (List.mem_cons.mp h).resolve_left (Ne.symm hb)
      rw [List.map_cons, List.map_cons, ih hrest]

theorem mem_put {rules : List Rule} {a : Action} {es : List (Action × List Rule)}
    {e : Action × List Rule} (h : e ∈ put rules a es) : e = (a, rules) ∨ e ∈ es := by
  induction es with
  | nil => exact .inl (List.mem_singleton.mp h)
  | cons f es ih =>
    obtain ⟨b, old⟩ := f
    rw [put] at h
    split at h
    · exact (List.mem_cons.mp h).imp_right (List.mem_cons_of_mem _)
    · rcases List.mem_cons.mp h with rfl | h
      · exact .inr List.mem_cons_self
      · exact (ih h).imp_right (List.mem_cons_of_mem _)

/-- An operation that is put in place of another keeps rules as they are read. -/
theorem isRead_put {rules : List Rule} {a : Action} {es : List (Action × List Rule)}
    (hrules : ∀ r ∈ rules, Rule.IsRead r) (h : IsRead ⟨es⟩) : IsRead ⟨put rules a es⟩ := by
  refine ⟨?_, fun e he => ?_⟩
  · by_cases ha : a ∈ es.map (·.1)
    · exact (put_of_mem ha).symm ▸ h.1
    · rw [put_of_notMem ha, List.map_append]
      refine List.nodup_append.mpr ⟨h.1, List.nodup_singleton a, fun b hb c hc hbc => ?_⟩
      rw [hbc, List.mem_singleton.mp hc] at hb
      exact ha hb
  · rcases mem_put he with rfl | he
    · exact hrules
    · exact h.2 e he

theorem isRead_readEntries {r : Record} (hr : ∀ f ∈ r, f.2.IsInterchange)
    {es es' : List (Action × List Rule)} (h : readEntries es r = .ok es') (hes : IsRead ⟨es⟩) :
    IsRead ⟨es'⟩ := by
  induction r generalizing es with
  | nil =>
    rw [← Except.ok.inj h]
    exact hes
  | cons f r ih =>
    obtain ⟨name, v⟩ := f
    obtain ⟨hv, hrest⟩ := List.forall_mem_cons.mp hr
    unfold readEntries at h
    split at h
    · cases h
    · split at h
      · exact ih hrest h hes
      case h_2 | h_3 =>
        obtain ⟨rules, hrules, hothers⟩ := sequence_eq_ok.mp h
        refine ih hrest hothers (isRead_put (forall_of_mapM hrules fun w hw r hread => ?_) hes)
        exact Rule.isRead (hv.of_mem_parts hw) hread
      · cases h

/-- Rules that are read from the interchange format. -/
theorem isRead {v : Value} (hv : v.IsInterchange) {p : Permissions}
    (h : Permissions.read v = .ok p) : p.IsRead := by
  cases v with
  | map fields =>
    change Permissions.ofRecord fields = _ at h
    unfold ofRecord at h
    split at h
    · rename_i operations hoperations
      obtain ⟨es, hes, hp⟩ := sequence_eq_ok.mp h
      rw [← pure_answers.mp hp]
      refine isRead_readEntries (fun f hf => ?_) hes ⟨List.nodup_nil, List.forall_mem_nil _⟩
      have hmap : (Value.map operations).IsInterchange := by
        cases hfound : Record.get? fields "operations" with
        | none =>
          rw [hfound] at hoperations
          exact hoperations ▸ Value.isInterchange_map.mpr ⟨List.nodup_nil, List.forall_mem_nil _⟩
        | some v =>
          rw [hfound] at hoperations
          have hvalue := hv.get "operations"
          rw [Record.get_eq, hfound] at hvalue
          exact hoperations ▸ hvalue
      exact (Value.isInterchange_map.mp hmap).2 f hf
    · cases h
  | _ => cases h

/-- The entries of a table as the fields of a map. -/
def fields (es : List (Action × List Rule)) : Record :=
  es.map fun e => (e.1.name, .list (e.2.map Rule.toValue))

theorem mapM_read {rules : List Rule} (h : ∀ r ∈ rules, Rule.IsRead r) :
    (rules.map Rule.toValue).mapM Rule.read = .ok (rules.map Rule.inOrder) :=
  mapM_eq_ok_iff.mpr (List.forall₂_map_left_iff.mpr (List.forall₂_map_right_iff.mpr
    (List.forall₂_same.mpr fun r hr => Rule.read_toValue (h r hr))))

theorem readEntries_cons (done : List (Action × List Rule)) (a : Action) (vs : List Value)
    (r : Record) : readEntries done ((a.name, .list vs) :: r) =
      (vs.mapM Rule.read >>= fun rules => readEntries (put rules a done) r) := by
  rw [readEntries, upper_name, ofName?_name]

/-- Entries that are read behind others are put behind them. -/
theorem readEntries_fields (done : List (Action × List Rule)) {es : List (Action × List Rule)}
    (hnodup : (done.map (·.1) ++ es.map (·.1)).Nodup)
    (h : ∀ e ∈ es, ∀ r ∈ e.2, Rule.IsRead r) :
    readEntries done (fields es) = .ok (done ++ es.map fun e => (e.1, e.2.map Rule.inOrder)) := by
  induction es generalizing done with
  | nil => simp [fields, readEntries]
  | cons e es ih =>
    obtain ⟨a, rules⟩ := e
    obtain ⟨hrules, hes⟩ := List.forall_mem_cons.mp h
    have hnew : a ∉ done.map (·.1) := fun hmem =>
      (List.nodup_append.mp hnodup).2.2 a hmem a List.mem_cons_self rfl
    have hrest := ih (done ++ [(a, rules.map Rule.inOrder)]) (by simpa using hnodup) hes
    rw [fields, List.map_cons, ← fields, readEntries_cons, mapM_read hrules, ok_sequence,
      put_of_notMem hnew, hrest]
    simp

/-- The rules of a table are read back from their map with their sets in order. -/
theorem read_toValue {p : Permissions} (h : p.IsRead) :
    Permissions.read p.toValue = .ok p.inOrder := by
  have hentries := readEntries_fields [] (by simpa using h.1) h.2
  change (readEntries [] (fields p.entries) >>= fun es => pure (Permissions.mk es)) = _
  rw [hentries]
  rfl

theorem name_injective : Function.Injective Action.name := fun a b h =>
  Option.some.inj (ofName?_name a ▸ ofName?_name b ▸ congrArg Action.ofName? h)

theorem isInterchange_toValue {p : Permissions} (h : p.IsRead) : p.toValue.IsInterchange := by
  have hkeys : Record.keys (fields p.entries) = (p.entries.map (·.1)).map Action.name := by
    simp [Record.keys, fields]
  have hfields : (Value.map (fields p.entries)).IsInterchange := by
    refine Value.isInterchange_map.mpr ⟨hkeys ▸ h.1.map name_injective, fun f hf => ?_⟩
    obtain ⟨e, he, rfl⟩ := List.mem_map.mp hf
    refine Value.isInterchange_list.mpr fun v hv => ?_
    obtain ⟨r, hr, rfl⟩ := List.mem_map.mp hv
    exact Rule.isInterchange_toValue (h.2 e he r hr)
  exact Value.isInterchange_map.mpr
    ⟨List.nodup_singleton _, List.forall_mem_singleton.mpr hfields⟩

end Permissions
end RowGate
