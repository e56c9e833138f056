import RowGate.Proofs.Json.Values
import RowGate.Proofs.Query.Reading
/-!
The values that texts of the interchange format stand for: what a value of the format stands for if
that is read back from its text. Main statements: lists and maps are such values exactly if their
parts are, and each of them has a text from which it is read back.
-/
namespace RowGate

/-- A value that is read from a text of the interchange format. -/
def Value.IsInterchange (v : Value) : Prop := ∃ j : Json, j.isReadable = true ∧ j.toValue = v

/-- Items have the forms that they come from. -/
theorem listToJson?_toValues {how : Json.Fallback} {js : List Json}
    (h : ∀ j ∈ js, j.toValue.toJson? how = some j) :
    listToJson? how (Json.toValues js) = some js := by
  induction js with
  | nil => rfl
  | cons j js ih =>
    obtain ⟨hj, hjs⟩ := List.forall_mem_cons.mp h
    exact listToJson?_cons.mpr ⟨j, js, hj, ih hjs, rfl⟩

/-- Fields have the forms that they come from. -/
theorem recordToJson?_toRecord {how : Json.Fallback} {fs : List (String × Json)}
    (h : ∀ f ∈ fs, f.2.toValue.toJson? how = some f.2) :
    recordToJson? how (Json.toRecord fs) = some fs := by
  induction fs with
  | nil => rfl
  | cons f fs ih =>
    obtain ⟨hf, hfs⟩ := List.forall_mem_cons.mp h
    exact recordToJson?_cons.mpr ⟨f.2, fs, hf, ih hfs, rfl⟩

/-- What a value of the format stands for has that form, whatever is done about other values. -/
theorem toJson?_toValue (how : Json.Fallback) {j : Json} (h : j.isReadable = true) :
    j.toValue.toJson? how = some j := by
  generalize hv : j.toValue = v
  induction v using Value.parts_induction generalizing j with
  | step v ih =>
  subst hv
  cases j with
  | null | bool b | float x | text s => rfl
  | int n => exact if_pos h
  | list items =>
    have hitems := Json.allReadable_iff.mp h
    have hparts : ∀ j ∈ items, j.toValue.toJson? how = some j := fun j hj =>
      ih j.toValue (by rw [Json.toValue, toValues_eq]; exact List.mem_map_of_mem hj) (hitems j hj) rfl
    exact Option.map_eq_some_iff.mpr ⟨items, listToJson?_toValues hparts, rfl⟩
  | object fields =>
    have hfields := Json.fieldsReadable_iff.mp ((Bool.and_eq_true _ _).mp h).2
    have hparts : ∀ f ∈ fields, f.2.toValue.toJson? how = some f.2 := fun f hf =>
      ih f.2.toValue
        (by rw [Json.toValue, toRecord_eq, Value.parts, List.map_map]; exact List.mem_map_of_mem hf)
        (hfields f hf) rfl
    exact Option.map_eq_some_iff.mpr ⟨fields, recordToJson?_toRecord hparts, rfl⟩

namespace Value

variable {v : Value} {vs : List Value} {r : Record}

theorem isInterchange_null : null.IsInterchange := ⟨.null, rfl, rfl⟩

theorem isInterchange_bool (b : Bool) : (bool b).IsInterchange := ⟨.bool b, rfl, rfl⟩

theorem isInterchange_text (s : String) : (text s).IsInterchange := ⟨.text s, rfl, rfl⟩

theorem isInterchange_list : (list vs).IsInterchange ↔ ∀ v ∈ vs, v.IsInterchange := by
  constructor
  · rintro ⟨j, hj, hv⟩ v hmem
    cases j with
    | list items =>
      rw [Json.toValue, toValues_eq, list.injEq] at hv
      subst hv
      obtain ⟨i, hi, rfl⟩ := List.mem_map.mp hmem
      exact ⟨i, Json.allReadable_iff.mp hj i hi, rfl⟩
    | _ => cases hv
  · intro h
    obtain ⟨items, hread, rfl⟩ : ∃ items : List Json,
        (∀ j ∈ items, j.isReadable = true) ∧ items.map Json.toValue = vs := by
      induction vs with
      | nil => exact ⟨[], List.forall_mem_nil _, rfl⟩
      | cons v vs ih =>
        obtain ⟨⟨j, hj, rfl⟩, hvs⟩ := List.forall_mem_cons.mp h
        obtain ⟨items, hitems, rfl⟩ := ih hvs
        exact ⟨j :: items, List.forall_mem_cons.mpr ⟨hj, hitems⟩, rfl⟩
    exact ⟨.list items, Json.allReadable_iff.mpr hread, congrArg list (toValues_eq items)⟩

theorem isInterchange_map : (map r).IsInterchange ↔
    r.keys.Nodup ∧ ∀ f ∈ r, f.2.IsInterchange := by
  constructor
  · rintro ⟨j, hj, hv⟩
    cases j with
    | object fields =>
      rw [Json.toValue, toRecord_eq, map.injEq] at hv
      subst hv
      obtain ⟨hnodup, hfields⟩ := (Bool.and_eq_true _ _).mp hj
      refine ⟨?_, fun f hf => ?_⟩
      · have hkeys : Record.keys (fields.map fun f => (f.1, f.2.toValue)) = fields.map (·.1) := by
          simp [Record.keys]
        rw [hkeys]
        exact of_decide_eq_true hnodup
      · obtain ⟨g, hg, rfl⟩ := List.mem_map.mp hf
        exact ⟨g.2, Json.fieldsReadable_iff.mp hfields g hg, rfl⟩
    | _ => cases hv
  · rintro ⟨hnodup, h⟩
    obtain ⟨fields, hread, rfl⟩ : ∃ fields : List (String × Json),
        (∀ f ∈ fields, f.2.isReadable = true) ∧ (fields.map fun f => (f.1, f.2.toValue)) = r := by
      clear hnodup
      induction r with
      | nil => exact ⟨[], List.forall_mem_nil _, rfl⟩
      | cons f r ih =>
        obtain ⟨k, v⟩ := f
        obtain ⟨⟨j, hj, hv⟩, hr⟩ := List.forall_mem_cons.mp h
        obtain ⟨fields, hfields, rfl⟩ := ih hr
        exact ⟨(k, j) :: fields, List.forall_mem_cons.mpr ⟨hj, hfields⟩, by simpa using hv⟩
    refine ⟨.object fields, (Bool.and_eq_true _ _).mpr ⟨?_, Json.fieldsReadable_iff.mpr hread⟩,
      congrArg map (toRecord_eq fields)⟩
    have hkeys : Record.keys (fields.map fun f => (f.1, f.2.toValue)) = fields.map (·.1) := by
      simp [Record.keys]
    exact decide_eq_true (hkeys ▸ hnodup)

/-- Parts of such values are such values. -/
theorem IsInterchange.of_mem_parts (h : v.IsInterchange) {w : Value} (hw : w ∈ v.parts) :
    w.IsInterchange := by
  cases v with
  | list items => exact isInterchange_list.mp h w hw
  | map fields =>
    obtain ⟨f, hf, rfl⟩ := List.mem_map.mp hw
    exact (isInterchange_map.mp h).2 f hf
  | tuple items | set items =>
    obtain ⟨j, -, hj⟩ := h
    cases j <;> cases hj
  | _ => cases hw

theorem IsInterchange.get (h : (map r).IsInterchange) (key : String) : (r.get key).IsInterchange := by
  rcases Record.get_mem with hnull | hmem
  · rw [hnull]
    exact isInterchange_null
  · exact (isInterchange_map.mp h).2 _ hmem

/-- Such a value has a text, from which it is read back. -/
theorem IsInterchange.written (h : v.IsInterchange) (how : Json.Fallback) :
    ∃ j : Json, v.toJson? how = some j ∧ Json.parse? j.render = some j ∧ j.toValue = v := by
  obtain ⟨j, hj, rfl⟩ := h
  exact ⟨j, toJson?_toValue how hj, Json.parse?_render hj, rfl⟩

end Value
end RowGate
