import RowGate.Access.Rule
import RowGate.Proofs.Query.Refusal
import RowGate.Query.Params
/-!
How readings of requests fail. Main statement: a query, parameters, a rule and the rules of a table are
read or refused with violations, apart from a bound on complexity that is no number and an operator
that cannot be looked up.
-/
namespace RowGate

/-- A rule whose field check has an operator that cannot be looked up. -/
inductive OddOperator : Value → Prop
  | intro {rule check : Record} : rule.get "allow" = .text "fieldCheck" →
      rule.get "fieldCheck" = .map check → (check.get "operator").isHashable = false →
      OddOperator (.map rule)

/-- Rules that are listed in the rules of a table. -/
inductive Listed : Value → Value → Prop
  | intro {table operations : Record} {name : String} {rules rule : Value} :
      table.get? "operations" = some (.map operations) → (name, rules) ∈ operations →
      rule ∈ rules.parts → Listed (.map table) rule

/-! ## Rules -/

/-- An operator is looked up unless it is a list or a map. -/
theorem FieldCheck.operatorOf_cases (v : Value) :
    (∃ o, operatorOf v = .ok o) ∨ operatorOf v = .error .wrongType ∧ v.isHashable = false := by
  cases v with
  | text s => exact .inl ⟨_, rfl⟩
  | _ =>
    simp only [operatorOf]
    split
    · exact .inl ⟨_, rfl⟩
    · exact .inr ⟨rfl, Bool.eq_false_of_not_eq_true ‹_›⟩

theorem FieldCheck.operatorOf_of_not_isHashable {v : Value} (h : v.isHashable = false) :
    operatorOf v = .error .wrongType := by
  cases v with
  | text s => cases h
  | _ =>
    simp only [operatorOf]
    rw [h]
    rfl

theorem FieldCheck.refuses_ofRecord (r : Record) :
    Refuses (fun f => f = .wrongType ∧ (r.get "operator").isHashable = false) (ofRecord r) := by
  rcases operatorOf_cases (r.get "operator") with ⟨o, ho⟩ | ⟨herror, hodd⟩
  · rw [ofRecord, ho, ok_sequence]
    split
    · exact .pure _
    · exact Refuses.error_iff.mpr (.inl trivial)
  · rw [ofRecord, herror, error_sequence]
    exact Refuses.error_iff.mpr (.inr ⟨rfl, hodd⟩)

@[simp] theorem Rule.refuses_textsUnder {others : Fault → Prop} (r : Record) (key : String) :
    Refuses others (textsUnder r key) := by
  unfold textsUnder
  dsimp only
  split
  · exact .ok []
  · split <;> first | exact .ok _ | exact .violation _

/-- A rule is refused unless it has an operator that cannot be looked up. -/
theorem Rule.refuses_read (v : Value) :
    Refuses (fun f => f = .wrongType ∧ OddOperator v) (Rule.read v) := by
  cases v with
  | map r =>
    have hcheck (hallow : Record.get r "allow" = .text "fieldCheck") :
        Refuses (fun f => f = .wrongType ∧ OddOperator (.map r))
          (FieldCheck.read (Record.get r "fieldCheck")) := by
      cases hfields : Record.get r "fieldCheck" with
      | map check =>
        refine (FieldCheck.refuses_ofRecord check).mono ?_
        rintro f ⟨hf, hodd⟩
        exact ⟨hf, hallow, hfields, hodd⟩
      | _ => exact .violation _
    rw [Rule.read, ofRecord]
    split
    case h_8 =>
      split
      · exact .pure _
      · exact .violation _
    case h_9 hallow => exact .sequence (hcheck hallow) fun _ => .pure _
    case h_10 =>
      split
      · split
        · exact .violation _
        · exact .pure _
      · exact .violation _
    case h_11 => exact .violation _
    all_goals simp
  | _ => exact .violation _

/-- An operator that cannot be looked up leaves a rule unread. -/
theorem Rule.read_of_oddOperator {v : Value} (h : OddOperator v) :
    Rule.read v = .error .wrongType := by
  obtain ⟨hallow, hfields, hodd⟩ := h
  rw [Rule.read, ofRecord, hallow]
  simp only [hfields, FieldCheck.read, FieldCheck.ofRecord,
    FieldCheck.operatorOf_of_not_isHashable hodd, error_sequence]

/-! ## Rules of a table -/

namespace Permissions

theorem refuses_readEntries {others : Fault → Prop} {operations : Record}
    (h : ∀ entry ∈ operations, ∀ rule ∈ entry.2.parts, Refuses others (Rule.read rule))
    (entries : List (Action × List Rule)) : Refuses others (readEntries entries operations) := by
  induction operations generalizing entries with
  | nil => exact .ok entries
  | cons entry operations ih =>
    obtain ⟨name, v⟩ := entry
    obtain ⟨hrules, hrest⟩ := List.forall_mem_cons.mp h
    rw [readEntries]
    split
    · exact .violation _
    · split
      · exact ih hrest entries
      · exact .sequence (.mapM hrules) fun _ => ih hrest _
      · exact .sequence (.mapM hrules) fun _ => ih hrest _
      · exact .violation _

/-- The rules of a table are refused unless one of them has an operator that cannot be looked up. -/
theorem refuses_read (v : Value) :
    Refuses (fun f => f = .wrongType ∧ ∃ rule, Listed v rule ∧ OddOperator rule)
      (Permissions.read v) := by
  cases v with
  | map table =>
    rw [Permissions.read, ofRecord]
    split
    · rename_i operations hoperations
      refine .sequence (refuses_readEntries (fun entry hentry rule hrule => ?_) []) fun _ => .pure _
      refine (Rule.refuses_read rule).mono ?_
      rintro f ⟨hf, hodd⟩
      refine ⟨hf, rule, .intro ?_ hentry hrule, hodd⟩
      cases hunder : Record.get? table "operations" with
      | none =>
        rw [hunder] at hoperations
        cases hoperations
        cases hentry
      | some w =>
        rw [hunder] at hoperations
        exact congrArg some hoperations
    · exact .violation _
  | _ => exact .violation _

theorem ok_of_readEntries {operations : Record} {entries es : List (Action × List Rule)}
    (h : readEntries entries operations = .ok es) :
    ∀ entry ∈ operations, ∀ rule ∈ entry.2.parts, ∃ x, Rule.read rule = .ok x := by
  have hall {vs : List Value} {rules : List Rule} (h : vs.mapM Rule.read = .ok rules) :
      ∀ rule ∈ vs, ∃ x, Rule.read rule = .ok x := by
    have hall := mapM_eq_ok_iff.mp h
    clear h
    induction hall with
    | nil => exact List.forall_mem_nil _
    | cons hrule _ ih => exact List.forall_mem_cons.mpr ⟨⟨_, hrule⟩, ih⟩
  induction operations generalizing entries with
  | nil => exact List.forall_mem_nil _
  | cons entry operations ih =>
    obtain ⟨name, v⟩ := entry
    rw [readEntries] at h
    split at h
    · cases h
    · split at h
      · exact List.forall_mem_cons.mpr ⟨List.forall_mem_nil _, ih h⟩
      · obtain ⟨rules, hrules, h⟩ := sequence_eq_ok.mp h
        exact List.forall_mem_cons.mpr ⟨hall hrules, ih h⟩
      · obtain ⟨rules, hrules, h⟩ := sequence_eq_ok.mp h
        exact List.forall_mem_cons.mpr ⟨hall hrules, ih h⟩
      · cases h

/-- An operator that cannot be looked up leaves the rules of a table unread. -/
theorem not_ok_of_oddOperator {v rule : Value} (hlisted : Listed v rule) (hodd : OddOperator rule) :
    ∀ p, Permissions.read v ≠ .ok p := by
  intro p hp
  obtain ⟨hoperations, hentry, hrule⟩ := hlisted
  rw [Permissions.read, ofRecord, hoperations] at hp
  obtain ⟨es, hes, -⟩ := sequence_eq_ok.mp hp
  obtain ⟨x, hx⟩ := ok_of_readEntries hes _ hentry rule hrule
  rw [Rule.read_of_oddOperator hodd] at hx
  cases hx

end Permissions

/-! ## Requests -/

/-- The map that parameters are decoded to. -/
def decoded (params : List (String × String)) : Record :=
  params.filterMap fun (k, s) => (decodeParam k (.text s)).map (k, ·)

/-- A reading is refused unless it fails in one of some other ways; where there is one of these, nothing
is read. -/
structure ReadOrRefused {α : Type} (others : Fault → Prop) (x : Reading α) : Prop where
  refuses : Refuses others x
  other : ∀ f, others f → ¬ f.IsRefusal ∧ ∀ a, x ≠ .ok a

/-- A query is read or refused, whatever value it is read from. -/
theorem Query.readOrRefused (limit : Option Value) (v : Value) :
    ReadOrRefused (BoundFails v.fields) (Query.read limit v) := by
  have hempty : Query.read none (.map []) = .ok (.empty none) := rfl
  have hnone (f : Fault) : ¬ BoundFails [] f := fun hf => not_ok_of_boundFails hf _ hempty
  cases v with
  | map r =>
    refine ⟨refuses_read limit r, fun f hf => ⟨?_, not_ok_of_boundFails hf⟩⟩
    obtain ⟨s, c, -, -, hc⟩ := hf
    exact Value.not_isRefusal_of_toFloat hc
  | null => exact ⟨.ok _, fun f hf => absurd hf (hnone f)⟩
  | _ => exact ⟨.violation _, fun f hf => absurd hf (hnone f)⟩

/-- Requests in the interchange format are read or refused with violations, whatever they are made of,
unless a bound on the complexity of a query, or of one inside it, is no number or a field check has an
operator that cannot be looked up; and then they are not read. -/
theorem requests_read_or_refused (limit : Option Value) (j : Json)
    (params : List (String × String)) :
    ReadOrRefused (BoundFails j.toValue.fields) (Query.read limit j.toValue) ∧
    ReadOrRefused (BoundFails (decoded params))
      (Query.ofParams limit (params.map fun (k, s) => (k, .text s))) ∧
    ReadOrRefused (fun f => f = .wrongType ∧ OddOperator j.toValue) (Rule.read j.toValue) ∧
    ReadOrRefused (fun f => f = .wrongType ∧ ∃ rule, Listed j.toValue rule ∧ OddOperator rule)
      (Permissions.read j.toValue) := by
  refine ⟨Query.readOrRefused limit _, ?_, ⟨Rule.refuses_read _, ?_⟩, Permissions.refuses_read _, ?_⟩
  · have hdecoded : Query.ofParams limit (params.map fun (k, s) => (k, .text s)) =
        Query.read limit (.map (decoded params)) := by
      rw [Query.ofParams, List.filterMap_map]
      rfl
    rw [hdecoded]
    exact Query.readOrRefused limit (.map (decoded params))
  · rintro f ⟨rfl, hodd⟩
    refine ⟨id, fun rule hrule => ?_⟩
    rw [Rule.read_of_oddOperator hodd] at hrule
    cases hrule
  · rintro f ⟨rfl, rule, hlisted, hodd⟩
    exact ⟨id, Permissions.not_ok_of_oddOperator hlisted hodd⟩

/-- A bound that is a list and an operator that is one escape as failures of another kind. -/
theorem listed_bound_and_operator_escape :
    Query.read (some (.int 10)) (Json.toValue
        (.object [("validation", .object [("maxComplexity", .list [])])])) = .error .wrongType ∧
      Rule.read (Json.toValue (.object [("allow", .text "fieldCheck"),
        ("fieldCheck", .object [("field", .text "owner"), ("operator", .list [])])])) =
          .error .wrongType ∧
      ¬ Fault.wrongType.IsRefusal :=
  ⟨rfl, rfl, id⟩

end RowGate
