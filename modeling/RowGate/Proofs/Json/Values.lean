import Mathlib
import RowGate.Proofs.Json.RoundTrip
import RowGate.Value.Equality
/-!
Values through the interchange format. Main statements: the form of a value is read back from its
text, and it stands for the value itself exactly if that is native: made of null, truth values,
integers, floats, texts, lists and maps.
-/
namespace RowGate

namespace Value

/-- The values that a value is made of. -/
def parts : Value → List Value
  | .list items | .tuple items | .set items => items
  | .map fields => fields.map (·.2)
  | _ => []

theorem sizeOf_of_mem_parts {v w : Value} (h : w ∈ v.parts) : sizeOf w < sizeOf v := by
  cases v with
  | list items | tuple items | set items =>
    have hlt : sizeOf w < sizeOf items := List.sizeOf_lt_of_mem h
    simp only [list.sizeOf_spec, tuple.sizeOf_spec, set.sizeOf_spec]
    omega
  | map fields =>
    obtain ⟨f, hf, rfl⟩ := List.mem_map.mp h
    have hlt := List.sizeOf_lt_of_mem hf
    obtain ⟨k, w⟩ := f
    simp only [map.sizeOf_spec, Prod.mk.sizeOf_spec] at hlt ⊢
    omega
  | _ => cases h

/-- What holds of a value if it holds of its parts holds of all values. -/
@[elab_as_elim]
theorem parts_induction {motive : Value → Prop} (step : ∀ v, (∀ w ∈ v.parts, motive w) → motive v)
    (v : Value) : motive v :=
  step v fun w _ => parts_induction step w
termination_by sizeOf v
decreasing_by exact sizeOf_of_mem_parts ‹_›

end Value

mutual

/-- Whether no map in a value has a key twice. -/
def Value.isProper : Value → Bool
  | .list items | .tuple items | .set items => allProper items
  | .map fields => decide (fields.map (·.1)).Nodup && fieldsProper fields
  | _ => true

/-- Whether all values of a list are proper. -/
def allProper : List Value → Bool
  | [] => true
  | v :: vs => v.isProper && allProper vs

/-- Whether the values of all fields are proper. -/
def fieldsProper : List (String × Value) → Bool
  | [] => true
  | (_, v) :: fs => v.isProper && fieldsProper fs

end

mutual

/-- Whether a value is of the kinds that the interchange format has. -/
def Value.isNative : Value → Bool
  | .null | .bool _ | .text _ | .number (.int _) | .number (.float _) => true
  | .list items => allNative items
  | .map fields => fieldsNative fields
  | _ => false

/-- Whether all values of a list are native. -/
def allNative : List Value → Bool
  | [] => true
  | v :: vs => v.isNative && allNative vs

/-- Whether the values of all fields are native. -/
def fieldsNative : List (String × Value) → Bool
  | [] => true
  | (_, v) :: fs => v.isNative && fieldsNative fs

end

theorem allProper_iff {vs : List Value} : allProper vs = true ↔ ∀ v ∈ vs, v.isProper = true := by
  induction vs with
  | nil => simp [allProper]
  | cons v vs ih => simp [allProper, ih]

theorem fieldsNative_iff {fs : Record} :
    fieldsNative fs = true ↔ ∀ f ∈ fs, f.2.isNative = true := by
  induction fs with
  | nil => simp [fieldsNative]
  | cons f fs ih => simp [fieldsNative, ih]

theorem fieldsProper_iff {fs : Record} :
    fieldsProper fs = true ↔ ∀ f ∈ fs, f.2.isProper = true := by
  induction fs with
  | nil => simp [fieldsProper]
  | cons f fs ih => simp [fieldsProper, ih]

namespace Json

theorem allReadable_iff {js : List Json} :
    allReadable js = true ↔ ∀ j ∈ js, j.isReadable = true := by
  induction js with
  | nil => simp [allReadable]
  | cons j js ih => simp [allReadable, ih]

theorem fieldsReadable_iff {fs : List (String × Json)} :
    fieldsReadable fs = true ↔ ∀ f ∈ fs, f.2.isReadable = true := by
  induction fs with
  | nil => simp [fieldsReadable]
  | cons f fs ih => simp [fieldsReadable, ih]

end Json

section

variable {how : Json.Fallback}

theorem listToJson?_cons {v : Value} {vs : List Value} {js : List Json} :
    listToJson? how (v :: vs) = some js ↔
      ∃ j rest, v.toJson? how = some j ∧ listToJson? how vs = some rest ∧ js = j :: rest := by
  rw [listToJson?]
  constructor
  · intro h
    obtain ⟨j, hj, hrest⟩ := Option.bind_eq_some_iff.mp h
    obtain ⟨rest, hrest, hpair⟩ := Option.bind_eq_some_iff.mp hrest
    exact ⟨j, rest, hj, hrest, (Option.some.inj hpair).symm⟩
  · rintro ⟨j, rest, hj, hrest, rfl⟩
    rw [hj, hrest]
    rfl

theorem recordToJson?_cons {k : String} {v : Value} {fs : Record} {js : List (String × Json)} :
    recordToJson? how ((k, v) :: fs) = some js ↔
      ∃ j rest, v.toJson? how = some j ∧ recordToJson? how fs = some rest ∧ js = (k, j) :: rest := by
  rw [recordToJson?]
  constructor
  · intro h
    obtain ⟨j, hj, hrest⟩ := Option.bind_eq_some_iff.mp h
    obtain ⟨rest, hrest, hpair⟩ := Option.bind_eq_some_iff.mp hrest
    exact ⟨j, rest, hj, hrest, (Option.some.inj hpair).symm⟩
  · rintro ⟨j, rest, hj, hrest, rfl⟩
    rw [hj, hrest]
    rfl

/-- The forms of the items of a list are those of its values. -/
theorem mem_listToJson? {vs : List Value} {js : List Json} (h : listToJson? how vs = some js) :
    ∀ j ∈ js, ∃ v ∈ vs, v.toJson? how = some j := by
  induction vs generalizing js with
  | nil =>
    cases h
    nofun
  | cons v vs ih =>
    obtain ⟨j, rest, hj, hrest, rfl⟩ := listToJson?_cons.mp h
    intro i hi
    rcases List.mem_cons.mp hi with rfl | hi
    · exact ⟨v, List.mem_cons_self, hj⟩
    · obtain ⟨w, hw, hform⟩ := ih hrest i hi
      exact ⟨w, List.mem_cons_of_mem v hw, hform⟩

/-- The forms of the fields of a map are those of its values. -/
theorem mem_recordToJson? {fs : Record} {js : List (String × Json)}
    (h : recordToJson? how fs = some js) : ∀ f ∈ js, ∃ v, (f.1, v) ∈ fs ∧ v.toJson? how = some f.2 := by
  induction fs generalizing js with
  | nil =>
    cases h
    nofun
  | cons f fs ih =>
    obtain ⟨k, v⟩ := f
    obtain ⟨j, rest, hj, hrest, rfl⟩ := recordToJson?_cons.mp h
    intro g hg
    rcases List.mem_cons.mp hg with rfl | hg
    · exact ⟨v, List.mem_cons_self, hj⟩
    · obtain ⟨w, hw, hform⟩ := ih hrest g hg
      exact ⟨w, List.mem_cons_of_mem _ hw, hform⟩

/-- Fields keep their names in the interchange format. -/
theorem names_recordToJson? {fs : Record} {js : List (String × Json)}
    (h : recordToJson? how fs = some js) : js.map (·.1) = fs.map (·.1) := by
  induction fs generalizing js with
  | nil =>
    cases h
    rfl
  | cons f fs ih =>
    obtain ⟨k, v⟩ := f
    obtain ⟨j, rest, -, hrest, rfl⟩ := recordToJson?_cons.mp h
    rw [List.map_cons, List.map_cons, ih hrest]

/-- Items that are ordered by texts are some of the items. -/
theorem mem_of_mem_sortByText {α : Type} {items : List (String × α)} {a : α}
    (h : a ∈ sortByText items) : ∃ s, (s, a) ∈ items := by
  obtain ⟨⟨s, b⟩, hb, rfl⟩ := List.mem_map.mp h
  exact ⟨s, (List.mergeSort_perm items _).subset hb⟩

/-- The form of a proper value is read back from its text. -/
theorem readable_of_toJson? {v : Value} {j : Json} (hproper : v.isProper = true)
    (h : v.toJson? how = some j) : j.isReadable = true := by
  induction v using Value.parts_induction generalizing j with
  | step v ih =>
  have hitems {vs : List Value} {js : List Json} (hparts : vs = v.parts)
      (hall : allProper vs = true) (hjs : listToJson? how vs = some js) :
      ∀ i ∈ js, i.isReadable = true := by
    intro i hi
    obtain ⟨w, hw, hform⟩ := mem_listToJson? hjs i hi
    exact ih w (hparts ▸ hw) (allProper_iff.mp hall w hw) hform
  cases v with
  | null | bool b | text s =>
    cases h
    rfl
  | number n =>
    cases n with
    | int n =>
      rw [Value.toJson?] at h
      split at h
      · rename_i hwritten
        cases h
        exact hwritten
      · cases h
    | float x =>
      cases h
      rfl
    | decimal d =>
      obtain ⟨s, -, rfl⟩ := Option.map_eq_some_iff.mp h
      rfl
  | list items | tuple items =>
    obtain ⟨js, hjs, rfl⟩ := Option.map_eq_some_iff.mp h
    exact Json.allReadable_iff.mpr (hitems rfl hproper hjs)
  | map fields =>
    obtain ⟨js, hjs, rfl⟩ := Option.map_eq_some_iff.mp h
    obtain ⟨hnodup, hfields⟩ := (Bool.and_eq_true _ _).mp hproper
    refine (Bool.and_eq_true _ _).mpr ⟨?_, Json.fieldsReadable_iff.mpr fun f hf => ?_⟩
    · rwa [names_recordToJson? hjs]
    · obtain ⟨w, hw, hform⟩ := mem_recordToJson? hjs f hf
      exact ih w (List.mem_map.mpr ⟨_, hw, rfl⟩) (fieldsProper_iff.mp hfields _ hw) hform
  | set items =>
    rw [Value.toJson?] at h
    split at h
    · cases h
      rfl
    · obtain ⟨js, hjs, rfl⟩ := Option.map_eq_some_iff.mp h
      refine Json.allReadable_iff.mpr fun i hi => ?_
      obtain ⟨s, hs⟩ := mem_of_mem_sortByText hi
      exact hitems rfl hproper hjs i (List.of_mem_zip hs).2
    · cases h
  | bytes data | moment m | uuid n | formula f | foreign =>
    obtain ⟨s, -, rfl⟩ := Option.map_eq_some_iff.mp h
    rfl

/-! What forms stand for -/

theorem toValues_eq (js : List Json) : Json.toValues js = js.map Json.toValue := by
  induction js with
  | nil => rfl
  | cons j js ih => rw [Json.toValues, ih, List.map_cons]

theorem toRecord_eq (fs : List (String × Json)) :
    Json.toRecord fs = fs.map fun f => (f.1, f.2.toValue) := by
  induction fs with
  | nil => rfl
  | cons f fs ih => rw [Json.toRecord, ih, List.map_cons]

theorem toValues_eq_iff {vs : List Value} {js : List Json} (h : listToJson? how vs = some js)
    (hparts : ∀ v ∈ vs, ∀ j, v.toJson? how = some j → (j.toValue = v ↔ v.isNative = true)) :
    Json.toValues js = vs ↔ allNative vs = true := by
  induction vs generalizing js with
  | nil =>
    cases h
    simp [Json.toValues, allNative]
  | cons v vs ih =>
    obtain ⟨j, rest, hj, hrest, rfl⟩ := listToJson?_cons.mp h
    obtain ⟨hv, hvs⟩ := List.forall_mem_cons.mp hparts
    rw [Json.toValues, allNative, List.cons.injEq, Bool.and_eq_true, hv j hj, ih hrest hvs]

theorem toRecord_eq_iff {fs : Record} {js : List (String × Json)}
    (h : recordToJson? how fs = some js)
    (hparts : ∀ f ∈ fs, ∀ j, f.2.toJson? how = some j → (j.toValue = f.2 ↔ f.2.isNative = true)) :
    Json.toRecord js = fs ↔ fieldsNative fs = true := by
  induction fs generalizing js with
  | nil =>
    cases h
    simp [Json.toRecord, fieldsNative]
  | cons f fs ih =>
    obtain ⟨k, v⟩ := f
    obtain ⟨j, rest, hj, hrest, rfl⟩ := recordToJson?_cons.mp h
    obtain ⟨hv, hvs⟩ := List.forall_mem_cons.mp hparts
    rw [Json.toRecord, fieldsNative, List.cons.injEq, Prod.mk.injEq, Bool.and_eq_true, hv j hj,
      ih hrest hvs]
    simp

/-- A value is what its form stands for exactly if it is native. -/
theorem toValue_eq_iff {v : Value} {j : Json} (h : v.toJson? how = some j) :
    j.toValue = v ↔ v.isNative = true := by
  induction v using Value.parts_induction generalizing j with
  | step v ih =>
  cases v with
  | null | bool b | text s =>
    cases h
    simp [Json.toValue, Value.isNative]
  | number n =>
    cases n with
    | int n =>
      rw [Value.toJson?] at h
      split at h
      · cases h
        simp [Json.toValue, Value.isNative]
      · cases h
    | float x =>
      cases h
      simp [Json.toValue, Value.isNative]
    | decimal d =>
      obtain ⟨s, -, rfl⟩ := Option.map_eq_some_iff.mp h
      simp [Json.toValue, Value.isNative]
  | list items =>
    obtain ⟨js, hjs, rfl⟩ := Option.map_eq_some_iff.mp h
    rw [Json.toValue, Value.isNative, Value.list.injEq]
    exact toValues_eq_iff hjs fun w hw i hi => ih w hw hi
  | map fields =>
    obtain ⟨js, hjs, rfl⟩ := Option.map_eq_some_iff.mp h
    rw [Json.toValue, Value.isNative, Value.map.injEq]
    exact toRecord_eq_iff hjs fun f hf i hi => ih f.2 (List.mem_map_of_mem hf) hi
  | tuple items =>
    obtain ⟨js, hjs, rfl⟩ := Option.map_eq_some_iff.mp h
    simp [Json.toValue, Value.isNative]
  | set items =>
    rw [Value.toJson?] at h
    split at h
    · cases h
      simp [Json.toValue, Value.isNative]
    · obtain ⟨js, hjs, rfl⟩ := Option.map_eq_some_iff.mp h
      simp [Json.toValue, Value.isNative]
    · cases h
  | bytes data | moment m | uuid n | formula f | foreign =>
    obtain ⟨s, -, rfl⟩ := Option.map_eq_some_iff.mp h
    simp [Json.toValue, Value.isNative]

/-- What a form stands for has a kind. -/
theorem isSome_kind?_toValue (j : Json) : j.toValue.kind?.isSome := by
  cases j <;> rfl

theorem allNative_of_sameAll {vs : List Value} {js : List Json} (h : listToJson? how vs = some js)
    (hparts : ∀ v ∈ vs, ∀ j, v.toJson? how = some j → v.same j.toValue = true →
      v.isNative = true)
    (hsame : sameAll vs (Json.toValues js) = true) : allNative vs = true := by
  induction vs generalizing js with
  | nil => rfl
  | cons v vs ih =>
    obtain ⟨j, rest, hj, hrest, rfl⟩ := listToJson?_cons.mp h
    obtain ⟨hv, hvs⟩ := List.forall_mem_cons.mp hparts
    rw [Json.toValues, sameAll, Bool.and_eq_true] at hsame
    rw [allNative, Bool.and_eq_true]
    exact ⟨hv j hj hsame.1, ih hrest hvs hsame.2⟩

/-- Fields that are the same in other ones, where they stand for themselves. -/
theorem same_of_sameFields {fs gs : Record} (h : sameFields fs gs = true) :
    ∀ f ∈ fs, ∃ w, gs.lookup f.1 = some w ∧ f.2.same w = true := by
  induction fs with
  | nil => nofun
  | cons f fs ih =>
    obtain ⟨k, v⟩ := f
    rw [sameFields, Bool.and_eq_true] at h
    obtain ⟨hfirst, hothers⟩ := h
    intro g hg
    rcases List.mem_cons.mp hg with rfl | hg
    · cases hlookup : gs.lookup k with
      | none =>
        rw [hlookup] at hfirst
        cases hfirst
      | some w =>
        rw [hlookup] at hfirst
        exact ⟨w, rfl, hfirst⟩
    · exact ih hothers g hg

/-- If no name is there twice, each field has its form under its name. -/
theorem lookup_toRecord {fs : Record} {js : List (String × Json)}
    (h : recordToJson? how fs = some js) (hnodup : (fs.map (·.1)).Nodup) :
    ∀ f ∈ fs, ∃ j, f.2.toJson? how = some j ∧
      (Json.toRecord js).lookup f.1 = some j.toValue := by
  induction fs generalizing js with
  | nil => nofun
  | cons f fs ih =>
    obtain ⟨k, v⟩ := f
    obtain ⟨j, rest, hj, hrest, rfl⟩ := recordToJson?_cons.mp h
    obtain ⟨hk, hnodup⟩ := List.nodup_cons.mp hnodup
    intro g hg
    rcases List.mem_cons.mp hg with rfl | hg
    · exact ⟨j, hj, List.lookup_cons_self⟩
    · obtain ⟨i, hi, hlookup⟩ := ih hrest hnodup g hg
      have hother : g.1 ≠ k := fun hsame => hk (hsame ▸ List.mem_map.mpr ⟨g, hg, rfl⟩)
      refine ⟨i, hi, ?_⟩
      rw [Json.toRecord, List.lookup_cons, beq_eq_false_iff_ne.mpr hother]
      exact hlookup

/-- Only native values are the same as what their forms stand for. -/
theorem isNative_of_same {v : Value} {j : Json} (hproper : v.isProper = true)
    (h : v.toJson? how = some j) (hsame : v.same j.toValue = true) : v.isNative = true := by
  induction v using Value.parts_induction generalizing j with
  | step v ih =>
  cases v with
  | null | bool b | text s => rfl
  | number n =>
    cases n with
    | int n => rfl
    | float x => rfl
    | decimal d =>
      obtain ⟨s, -, rfl⟩ := Option.map_eq_some_iff.mp h
      simp [Json.toValue, Value.same] at hsame
  | list items =>
    obtain ⟨js, hjs, rfl⟩ := Option.map_eq_some_iff.mp h
    rw [Json.toValue, Value.same] at hsame
    refine allNative_of_sameAll hjs (fun w hw i hi => ?_) hsame
    exact ih w hw (allProper_iff.mp hproper w hw) hi
  | map fields =>
    obtain ⟨js, hjs, rfl⟩ := Option.map_eq_some_iff.mp h
    obtain ⟨hnodup, hfields⟩ := (Bool.and_eq_true _ _).mp hproper
    have hfields := fieldsProper_iff.mp hfields
    rw [Json.toValue, Value.same, Bool.and_eq_true] at hsame
    have hall := same_of_sameFields hsame.2
    refine fieldsNative_iff.mpr fun f hf => ?_
    obtain ⟨w, hw, hsame⟩ := hall f hf
    obtain ⟨i, hi, hlookup⟩ := lookup_toRecord hjs (of_decide_eq_true hnodup) f hf
    rw [hlookup] at hw
    obtain rfl := Option.some.inj hw
    exact ih f.2 (List.mem_map_of_mem hf) (hfields f hf) hi hsame
  | tuple items =>
    obtain ⟨js, hjs, rfl⟩ := Option.map_eq_some_iff.mp h
    simp [Json.toValue, Value.same] at hsame
  | set items =>
    rw [Value.toJson?] at h
    split at h
    · cases h
      simp [Json.toValue, Value.same] at hsame
    · obtain ⟨js, hjs, rfl⟩ := Option.map_eq_some_iff.mp h
      simp [Json.toValue, Value.same] at hsame
    · cases h
  | bytes data | moment m | uuid n | formula f | foreign =>
    obtain ⟨s, -, rfl⟩ := Option.map_eq_some_iff.mp h
    simp [Json.toValue, Value.same] at hsame

/-- A field stands for what its value does; one that is missing is null on both sides. -/
theorem get_toRecord {fs : Record} {js : List (String × Json)}
    (h : recordToJson? how fs = some js) (key : String) :
    ∃ j, (fs.get key).toJson? how = some j ∧ (Record.get (Json.toRecord js) key) = j.toValue := by
  induction fs generalizing js with
  | nil =>
    cases h
    exact ⟨.null, rfl, rfl⟩
  | cons f fs ih =>
    obtain ⟨k, v⟩ := f
    obtain ⟨j, rest, hj, hrest, rfl⟩ := recordToJson?_cons.mp h
    by_cases hkey : key = k
    · refine ⟨j, ?_, ?_⟩
      · simpa [Record.get, hkey] using hj
      · simp [Record.get, Json.toRecord, hkey]
    · have hother : (key == k) = false := by simpa using hkey
      obtain ⟨i, hi, hvalue⟩ := ih hrest
      refine ⟨i, ?_, ?_⟩
      · simpa [Record.get, List.lookup_cons, hother] using hi
      · simpa [Record.get, Json.toRecord, List.lookup_cons, hother] using hvalue

end
end RowGate
