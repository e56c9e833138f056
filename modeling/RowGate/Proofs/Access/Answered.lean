import RowGate.Proofs.Access.Reads
import RowGate.Proofs.Script.Answered
import RowGate.Proofs.Sequence
/-!
Access control under fixed answers: a store of rules and a compiler of templates that answer the
same question in the same way. Main statements: what the gate answers for reads and for writes, in
terms of what the rules say of each record.
-/
namespace RowGate.Access

variable (o : (q : Question) → q.Answer)

@[simp] theorem result_logAll (es : List LogEntry) : Asking.result o (logAll es) = .ok () := by
  induction es with
  | nil => rfl
  | cons e es ih => exact ih

@[simp] theorem result_audit (c : Config) (es : List LogEntry) :
    Asking.result o (audit c es) = .ok () := by
  unfold audit
  split <;> simp

/-- What rules say of a user and a row. -/
def ruled (rules : List Rule) (u : User) (row : Option Record) : Except Fault Bool :=
  Asking.result o (evaluate rules u row)

/-- What is decided about a record: no rules allow everything, rules that compare fields look at the
record, and others are asked without one. -/
def decided (rules : List Rule) (u : User) (r : Record) : Except Fault Bool :=
  if rules.isEmpty then .ok true
  else ruled o rules u (if hasFieldCheck rules then some r else none)

/-- Whether a record is permitted. -/
def permits (rules : List Rule) (u : User) (r : Record) : Bool :=
  match decided o rules u r with
  | .ok b => b
  | .error _ => false

/-- The rules that are stored for an action on a table. -/
def stored? (table : String) (a : Action) : Option (List Rule) :=
  match o (.permissions table) with
  | .ok (some p) => p.entries.lookup a
  | _ => none

variable {o}

theorem permits_iff {rules : List Rule} {u : User} {r : Record} :
    permits o rules u r = true ↔ decided o rules u r = .ok true := by
  unfold permits
  cases decided o rules u r with
  | error f => simp
  | ok b => simp

theorem permits_of_decided {rules : List Rule} {u : User} {r : Record} {b : Bool}
    (h : decided o rules u r = .ok b) : permits o rules u r = b := by
  unfold permits
  rw [h]

/-- Logging does not change what the rules say. -/
@[simp] theorem result_isAllowed (c : Config) (table operation : String) (rules : List Rule)
    (u : User) (row : Option Record) :
    Asking.result o (isAllowed c table operation rules u row) = ruled o rules u row := by
  unfold isAllowed ruled evaluate
  simp only [Asking.result_bind, result_audit, ok_sequence, Asking.result_pure]

/-- Rows are judged one by one: the answer is there if all of them can be judged. -/
theorem result_allowedRows {c : Config} {table operation : String} {rules : List Rule} {u : User}
    {rows kept : List Record} :
    Asking.result o (allowedRows c table operation rules u rows) = .ok kept ↔
      (∀ r ∈ rows, ∃ b, ruled o rules u (some r) = .ok b) ∧
        kept = rows.filter fun r => ruled o rules u (some r) matches .ok true := by
  induction rows generalizing kept with
  | nil => simp [allowedRows, eq_comm]
  | cons r rows ih =>
    simp only [allowedRows, Asking.result_bind, result_isAllowed, Asking.result_pure,
      sequence_eq_ok, ih,       List.forall_mem_cons, List.filter_cons]
    constructor
    · rintro ⟨b, hb, others, ⟨hall, rfl⟩, hkept⟩
      refine ⟨⟨⟨b, hb⟩, hall⟩, ?_⟩
      cases b <;> simpa [hb, eq_comm] using hkept
    · rintro ⟨⟨⟨b, hb⟩, hall⟩, rfl⟩
      refine ⟨b, hb, _, ⟨hall, rfl⟩, ?_⟩
      cases b <;> simp [hb]

theorem upper_name (a : Action) : Text.upper a.name = a.name := by
  cases a <;> rfl

theorem ofName?_name (a : Action) : Action.ofName? a.name = some a := by
  cases a <;> rfl

/-- The rules for an action are those that are stored; without an entry there are none. -/
theorem result_rulesFor {c : Config} {table : String} {a : Action} {u : User} {rules : List Rule} :
    Asking.result o (rulesFor c table a.name (some u)) = .ok rules ↔
      stored? o table a = some rules := by
  have hask : Asking.result o (permissionsOf table) = o (.permissions table) := rfl
  have hlook (p : Permissions) : p.rulesFor a.name = p.entries.lookup a := by
    simp [Permissions.rulesFor, upper_name, ofName?_name]
  unfold rulesFor stored?
  simp only [upper_name, ofName?_name, Asking.result_bind, hask]
  cases o (.permissions table) with
  | error f => simp
  | ok entry =>
    cases entry with
    | none => simp [Asking.result_bind]
    | some p =>
      simp only [ok_sequence, Option.bind_some, hlook]
      cases p.entries.lookup a with
      | none => simp [Asking.result_bind]
      | some found => simp

/-- Rows that are read go through the rules that are stored for reading. -/
theorem result_authorizeRows {table : String} {a : Action} {rules : List Rule}
    (h : stored? o table a = some rules) (c : Config) (rows : List Record) (u : User) :
    Asking.result o (authorizeRows c table a.name rows u) =
      Asking.result o (checkRules c table a.name rules rows u) := by
  unfold authorizeRows
  rw [upper_name, Asking.result_bind, result_rulesFor.mpr h, ok_sequence]

/-- A comparison of fields looks at the record. -/
theorem decided_of_hasFieldCheck {rules : List Rule} (h : hasFieldCheck rules = true) (u : User)
    (r : Record) : decided o rules u r = ruled o rules u (some r) := by
  cases rules with
  | nil => cases h
  | cons rule rules => simp [decided, h]

/-- Rules judge rows one by one if they compare fields; otherwise one answer stands for all rows. -/
theorem result_checkRules_eq (c : Config) (table operation : String) (rules : List Rule)
    (rows : List Record) (u : User) :
    Asking.result o (checkRules c table operation rules rows u) =
      if rules.isEmpty then .ok rows
      else if hasFieldCheck rules then
        Asking.result o (allowedRows c table operation rules u rows)
      else ruled o rules u none >>= fun b =>
        if b then .ok rows else .error (.denied table operation u.shown none) := by
  unfold checkRules
  split
  · simp [Asking.result_map]
  split
  · simp only [Asking.result_bind, result_audit, ok_sequence, Asking.result_pure]
    cases Asking.result o (allowedRows c table operation rules u rows) <;> rfl
  · rw [Asking.result_bind, result_isAllowed]
    cases ruled o rules u none with
    | error f => rfl
    | ok b => cases b <;> simp [Asking.result_bind, Asking.result_map]

/-- Where all records are permitted, all of them are kept. -/
theorem all_kept {rules : List Rule} {u : User} {rows kept : List Record}
    (h : ∀ r, decided o rules u r = .ok true) :
    (Except.ok rows : Except Fault (List Record)) = .ok kept ↔
      (∀ r ∈ rows, ∃ b, decided o rules u r = .ok b) ∧ kept = rows.filter (permits o rules u) ∧
        (hasFieldCheck rules = false → kept = rows) := by
  rw [List.filter_eq_self.mpr fun r _ => permits_of_decided (h r)]
  constructor
  · intro hkept
    obtain rfl := Except.ok.inj hkept
    exact ⟨fun r _ => ⟨true, h r⟩, rfl, fun _ => rfl⟩
  · rintro ⟨-, rfl, -⟩
    rfl

/-- A batch with a record in it goes through the rules if each record can be judged; what is kept
are the permitted records, and without a comparison of fields that has to be all of them. -/
theorem result_checkRules {c : Config} {table operation : String} {rules : List Rule} {u : User}
    {rows kept : List Record} (hrows : rows ≠ []) :
    Asking.result o (checkRules c table operation rules rows u) = .ok kept ↔
      (∀ r ∈ rows, ∃ b, decided o rules u r = .ok b) ∧ kept = rows.filter (permits o rules u) ∧
        (hasFieldCheck rules = false → kept = rows) := by
  rw [result_checkRules_eq]
  by_cases hempty : rules.isEmpty
  · have hruled (r : Record) : decided o rules u r = .ok true := if_pos hempty
    rw [if_pos hempty]
    exact all_kept hruled
  rw [if_neg hempty]
  by_cases hfield : hasFieldCheck rules
  · have hruled (r : Record) : decided o rules u r = ruled o rules u (some r) :=
      decided_of_hasFieldCheck hfield u r
    have hpermits : permits o rules u = fun r => ruled o rules u (some r) matches .ok true := by
      funext r
      unfold permits
      rw [hruled]
      cases ruled o rules u (some r) with
      | error f => rfl
      | ok b => cases b <;> rfl
    rw [if_pos hfield, result_allowedRows]
    simp [hruled, hpermits, hfield]
  -- one answer stands for all records
  · have hruled (r : Record) : decided o rules u r = ruled o rules u none := by
      simp [decided, hempty, hfield]
    rw [if_neg hfield]
    obtain ⟨r, hr⟩ := List.exists_mem_of_ne_nil rows hrows
    cases hnone : ruled o rules u none with
    | error f =>
      refine iff_of_false (by simp) fun h => ?_
      obtain ⟨b, hb⟩ := h.1 r hr
      simp [hruled, hnone] at hb
    | ok b =>
      cases b with
      | true => exact all_kept fun r => (hruled r).trans hnone
      | false =>
        refine iff_of_false (by simp) fun ⟨_, hkept, hall⟩ => ?_
        rw [hall (by simpa using hfield)] at hkept
        have hpermits := List.filter_eq_self.mp hkept.symm r hr
        rw [permits_of_decided ((hruled r).trans hnone)] at hpermits
        cases hpermits

/-- What a user may write of a batch with a record in it: the permitted records, where rules are
stored and each record can be judged. All of them have to be permitted where denials are raised, and
where no fields are compared. -/
theorem result_authorizeWrite {c : Config} {table : String} {a : Action} {u : User}
    {records kept : List Record} (hrecords : records ≠ []) :
    Asking.result o (authorizeWrite c table a.name records u) = .ok kept ↔
      ∃ rules, stored? o table a = some rules ∧
        (∀ r ∈ records, ∃ b, decided o rules u r = .ok b) ∧
        kept = records.filter (permits o rules u) ∧
        (hasFieldCheck rules = false ∨ c.writeMode = .raise → kept = records) := by
  unfold authorizeWrite
  simp only [upper_name, Asking.result_bind, sequence_eq_ok, result_rulesFor,
    result_checkRules hrecords]
  refine exists_congr fun rules => and_congr_right fun _ => ?_
  constructor
  · rintro ⟨allowed, ⟨hall, rfl, hsame⟩, hdone⟩
    split at hdone
    · simp at hdone
    · rename_i hmode
      obtain rfl : records.filter (permits o rules u) = kept := by simpa using hdone
      refine ⟨hall, rfl, ?_⟩
      rintro (hfield | hraise)
      · exact hsame hfield
      · have hlength : records.length ≤ (records.filter (permits o rules u)).length := by
          have hnone : records.length - (records.filter (permits o rules u)).length = 0 := by
            simpa [hraise] using hmode
          omega
        exact List.filter_sublist.eq_of_length_le hlength
  · rintro ⟨hall, rfl, hsame⟩
    refine ⟨_, ⟨hall, rfl, fun h => hsame (.inl h)⟩, ?_⟩
    split
    · rename_i hmode
      obtain ⟨hdenied, hraise⟩ : records.length - (records.filter (permits o rules u)).length ≠ 0 ∧
          c.writeMode = .raise := by simpa using hmode
      rw [hsame (.inr hraise)] at hdenied
      omega
    · rfl

/-- A batch may be written in full if and only if each of its records is permitted. -/
theorem written_in_full {c : Config} {table : String} {a : Action} {u : User}
    {records : List Record}
    (hrecords : records ≠ []) :
    (∃ kept, Asking.result o (authorizeWrite c table a.name records u) = .ok kept ∧
        ¬ kept.length < records.length) ↔
      ∃ rules, stored? o table a = some rules ∧ ∀ r ∈ records, permits o rules u r = true := by
  simp only [result_authorizeWrite hrecords]
  constructor
  · rintro ⟨kept, ⟨rules, hrules, -, rfl, -⟩, hlength⟩
    have hkept := List.filter_sublist.eq_of_length_le (Nat.le_of_not_lt hlength)
    exact ⟨rules, hrules, List.filter_eq_self.mp hkept⟩
  · rintro ⟨rules, hrules, hall⟩
    have hjudged (r : Record) (hr : r ∈ records) : ∃ b, decided o rules u r = .ok b :=
      ⟨true, permits_iff.mp (hall r hr)⟩
    have hkept := (List.filter_eq_self.mpr hall).symm
    exact ⟨records, ⟨rules, hrules, hjudged, hkept, fun _ => rfl⟩, Nat.lt_irrefl _⟩

end RowGate.Access
