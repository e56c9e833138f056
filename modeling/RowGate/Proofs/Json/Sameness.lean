import Mathlib
import RowGate.Proofs.Json.Values
/-!
Sameness of values of the interchange format: truth values, numbers, texts and null differ from one
another at every depth. Main statements: equality within a kind, which asks for the kind at the top
only, holds wherever two values are the same, and it is sameness with a value exactly if nothing
inside of that value is a truth value or a number that one counts as.
-/
namespace RowGate

theorem sameAll_iff {xs ys : List Value} :
    sameAll xs ys = true ↔ List.Forall₂ (fun x y => x.same y = true) xs ys := by
  induction xs generalizing ys with
  | nil => cases ys <;> simp [sameAll]
  | cons x xs ih => cases ys <;> simp [sameAll, ih]

theorem sameFields_iff {fs gs : Record} : sameFields fs gs = true ↔
    ∀ f ∈ fs, ∃ w, gs.lookup f.1 = some w ∧ f.2.same w = true := by
  refine ⟨same_of_sameFields, fun h => ?_⟩
  induction fs with
  | nil => rw [sameFields]
  | cons f fs ih =>
    obtain ⟨⟨w, hlookup, hsame⟩, hfs⟩ := List.forall_mem_cons.mp h
    rw [sameFields, hlookup, Bool.and_eq_true]
    exact ⟨hsame, ih hfs⟩

namespace Json

mutual

/-- Whether two values are the same: numbers by exact value, lists in order, objects without. -/
def same : Json → Json → Bool
  | .null, .null => true
  | .bool a, .bool b => a == b
  | .int m, .int n => (Number.int m).same (.int n)
  | .int m, .float y => (Number.int m).same (.float y)
  | .float x, .int n => (Number.float x).same (.int n)
  | .float x, .float y => (Number.float x).same (.float y)
  | .text s, .text t => s == t
  | .list js, .list ks => allSame js ks
  | .object fs, .object gs => fs.length == gs.length && fieldsSame fs gs
  | _, _ => false

/-- Whether two lists have the same items in order. -/
def allSame : List Json → List Json → Bool
  | [], [] => true
  | j :: js, k :: ks => j.same k && allSame js ks
  | _, _ => false

/-- Whether all fields of an object are the same in another. -/
def fieldsSame : List (String × Json) → List (String × Json) → Bool
  | [], _ => true
  | (name, j) :: fs, gs =>
    (match gs.lookup name with
      | some k => j.same k
      | none => false) && fieldsSame fs gs

end

mutual

/-- Whether there is neither a truth value in a value nor a number that one counts as. -/
def isPlain : Json → Bool
  | .bool _ => false
  | .int n => !(Number.int 0).same (.int n) && !(Number.int 1).same (.int n)
  | .float x => !(Number.int 0).same (.float x) && !(Number.int 1).same (.float x)
  | .null | .text _ => true
  | .list js => allPlain js
  | .object fs => fieldsPlain fs

/-- Whether all items of a list are plain. -/
def allPlain : List Json → Bool
  | [] => true
  | j :: js => j.isPlain && allPlain js

/-- Whether the values of all fields are plain. -/
def fieldsPlain : List (String × Json) → Bool
  | [] => true
  | (_, j) :: fs => j.isPlain && fieldsPlain fs

end

mutual

/-- A value with numbers in place of its truth values, and truth values in place of the numbers that
these count as. -/
def swapped : Json → Json
  | .bool b => .int (if b then 1 else 0)
  | .int n =>
    if (Number.int 0).same (.int n) then .bool false
    else if (Number.int 1).same (.int n) then .bool true else .int n
  | .float x =>
    if (Number.int 0).same (.float x) then .bool false
    else if (Number.int 1).same (.float x) then .bool true else .float x
  | .list js => .list (allSwapped js)
  | .object fs => .object (fieldsSwapped fs)
  | j => j

/-- A list with all items swapped. -/
def allSwapped : List Json → List Json
  | [] => []
  | j :: js => j.swapped :: allSwapped js

/-- An object with the values of all fields swapped. -/
def fieldsSwapped : List (String × Json) → List (String × Json)
  | [] => []
  | (name, j) :: fs => (name, j.swapped) :: fieldsSwapped fs

end

/-- The values inside of a value. -/
def parts : Json → List Json
  | .list js => js
  | .object fs => fs.map (·.2)
  | _ => []

/-- Equality within a kind: of the same kind at the top, and loosely the same. -/
def meets (j k : Json) : Bool :=
  j.toValue.kind? == k.toValue.kind? && j.toValue.same k.toValue

theorem sizeOf_of_mem_parts {j k : Json} (h : k ∈ j.parts) : sizeOf k < sizeOf j := by
  cases j with
  | list js =>
    have hlt : sizeOf k < sizeOf js := List.sizeOf_lt_of_mem h
    simp only [list.sizeOf_spec]
    omega
  | object fs =>
    obtain ⟨f, hf, rfl⟩ := List.mem_map.mp h
    have hlt := List.sizeOf_lt_of_mem hf
    obtain ⟨name, k⟩ := f
    simp only [object.sizeOf_spec, Prod.mk.sizeOf_spec] at hlt ⊢
    omega
  | _ => cases h

/-- What holds of a value if it holds of the values inside of it holds of all values. -/
@[elab_as_elim]
theorem parts_induction {motive : Json → Prop} (step : ∀ j, (∀ k ∈ j.parts, motive k) → motive j)
    (j : Json) : motive j :=
  step j fun k _ => parts_induction step k
termination_by sizeOf j
decreasing_by exact sizeOf_of_mem_parts ‹_›

section

variable {j k : Json} {js ks : List Json} {fs gs : List (String × Json)} {name : String}

theorem allSame_iff :
    allSame js ks = true ↔ List.Forall₂ (fun j k => j.same k = true) js ks := by
  induction js generalizing ks with
  | nil => cases ks <;> simp [allSame]
  | cons j js ih => cases ks <;> simp [allSame, ih]

theorem fieldsSame_iff : fieldsSame fs gs = true ↔
    ∀ f ∈ fs, ∃ k, gs.lookup f.1 = some k ∧ f.2.same k = true := by
  induction fs with
  | nil => simp [fieldsSame]
  | cons f fs ih =>
    rw [fieldsSame, Bool.and_eq_true, ih, List.forall_mem_cons]
    cases gs.lookup f.1 <;> simp

theorem allPlain_iff : allPlain js = true ↔ ∀ j ∈ js, j.isPlain = true := by
  induction js with
  | nil => simp [allPlain]
  | cons j js ih => simp [allPlain, ih]

theorem fieldsPlain_iff : fieldsPlain fs = true ↔ ∀ f ∈ fs, f.2.isPlain = true := by
  induction fs with
  | nil => simp [fieldsPlain]
  | cons f fs ih => simp [fieldsPlain, ih]

theorem allSwapped_eq : allSwapped js = js.map swapped := by
  induction js with
  | nil => rfl
  | cons j js ih => rw [allSwapped, ih, List.map_cons]

theorem fieldsSwapped_eq : fieldsSwapped fs = fs.map fun f => (f.1, f.2.swapped) := by
  induction fs with
  | nil => rfl
  | cons f fs ih => rw [fieldsSwapped, ih, List.map_cons]

theorem lookup_map_toValue :
    (toRecord fs).lookup name = (fs.lookup name).map toValue := by
  rw [toRecord_eq]
  induction fs with
  | nil => rfl
  | cons f fs ih =>
    rw [List.map_cons, List.lookup_cons, List.lookup_cons]
    cases name == f.1 with
    | true => rfl
    | false => exact ih

theorem mem_of_lookup (h : gs.lookup name = some k) : (name, k) ∈ gs := by
  obtain ⟨before, behind, rfl, -⟩ := List.lookup_eq_some_iff.mp h
  exact List.mem_append_right before List.mem_cons_self

theorem lookup_of_nodup (hnodup : (gs.map (·.1)).Nodup) {g : String × Json} (hg : g ∈ gs) :
    gs.lookup g.1 = some g.2 := by
  obtain ⟨before, behind, rfl⟩ := List.append_of_mem hg
  refine List.lookup_eq_some_iff.mpr ⟨before, behind, rfl, fun f hf => ?_⟩
  rw [List.map_append, List.map_cons] at hnodup
  have hfresh := (List.nodup_middle.mp hnodup).notMem
  rw [bne_iff_ne]
  intro heq
  exact hfresh (List.mem_append_left _ (heq ▸ List.mem_map_of_mem hf))

theorem forall₂_of_mem {α β : Type} {R S : α → β → Prop} {as : List α} {bs : List β}
    (h : List.Forall₂ R as bs) (hRS : ∀ a ∈ as, ∀ b ∈ bs, R a b → S a b) :
    List.Forall₂ S as bs := by
  obtain ⟨hlength, hzip⟩ := List.forall₂_iff_zip.mp h
  refine List.forall₂_iff_zip.mpr ⟨hlength, fun {a b} hmem => ?_⟩
  obtain ⟨ha, hb⟩ := List.of_mem_zip hmem
  exact hRS a ha b hb (hzip hmem)

theorem mem_parts_list (h : j ∈ js) : j ∈ (Json.list js).parts := h

theorem mem_parts_object {f : String × Json} (h : f ∈ fs) : f.2 ∈ (Json.object fs).parts :=
  List.mem_map_of_mem h

theorem same_list : (Json.list js).toValue.same (Json.list ks).toValue = true ↔
    List.Forall₂ (fun j k => j.toValue.same k.toValue = true) js ks := by
  rw [toValue, toValue, Value.same, sameAll_iff, toValues_eq, toValues_eq,
    List.forall₂_map_left_iff, List.forall₂_map_right_iff]

theorem same_object : (Json.object fs).toValue.same (Json.object gs).toValue = true ↔
    fs.length = gs.length ∧
      ∀ f ∈ fs, ∃ k, gs.lookup f.1 = some k ∧ f.2.toValue.same k.toValue = true := by
  rw [toValue, toValue, Value.same, Bool.and_eq_true, beq_iff_eq, sameFields_iff]
  simp only [lookup_map_toValue, Option.map_eq_some_iff]
  simp only [toRecord_eq, List.length_map, List.forall_mem_map, exists_exists_and_eq_and]

/-- The same values are loosely the same. -/
theorem toValue_same (h : j.same k = true) : j.toValue.same k.toValue = true := by
  induction j using parts_induction generalizing k with
  | step j ih =>
  cases j with
  | list js =>
    cases k with
    | list ks =>
      refine same_list.mpr (forall₂_of_mem (allSame_iff.mp h) fun j hj k _ hsame => ?_)
      exact ih j (mem_parts_list hj) hsame
    | _ => cases h
  | object fs =>
    cases k with
    | object gs =>
      obtain ⟨hlength, hfields⟩ := (Bool.and_eq_true _ _).mp h
      refine same_object.mpr ⟨beq_iff_eq.mp hlength, fun f hf => ?_⟩
      obtain ⟨k, hlookup, hsame⟩ := fieldsSame_iff.mp hfields f hf
      exact ⟨k, hlookup, ih f.2 (mem_parts_object hf) hsame⟩
    | _ => cases h
  | _ =>
    clear ih
    cases k <;> simp_all [same, toValue, Value.same]

/-- What is loosely the same as a plain value is the same. -/
theorem same_of_isPlain (hplain : k.isPlain = true) (h : j.toValue.same k.toValue = true) :
    j.same k = true := by
  induction j using parts_induction generalizing k with
  | step j ih =>
  cases j with
  | list js =>
    cases k with
    | list ks =>
      refine allSame_iff.mpr (forall₂_of_mem (same_list.mp h) fun j hj k hk hsame => ?_)
      exact ih j (mem_parts_list hj) (allPlain_iff.mp hplain k hk) hsame
    | _ => simp [toValue, Value.same] at h
  | object fs =>
    cases k with
    | object gs =>
      obtain ⟨hlength, hfields⟩ := same_object.mp h
      refine (Bool.and_eq_true _ _).mpr ⟨beq_iff_eq.mpr hlength, fieldsSame_iff.mpr fun f hf => ?_⟩
      obtain ⟨k, hlookup, hsame⟩ := hfields f hf
      have hk : k.isPlain = true := fieldsPlain_iff.mp hplain _ (mem_of_lookup hlookup)
      exact ⟨k, hlookup, ih f.2 (mem_parts_object hf) hk hsame⟩
    | _ => simp [toValue, Value.same] at h
  | bool b =>
    -- no plain number is what a truth value counts as
    clear ih
    cases b <;> cases k <;> simp_all [toValue, Value.same, isPlain]
  | _ =>
    clear ih
    cases k <;> simp_all [same, toValue, Value.same, isPlain]

theorem isProper_list :
    (Json.list ks).toValue.isProper = true ↔ ∀ k ∈ ks, k.toValue.isProper = true := by
  rw [toValue, Value.isProper, allProper_iff, toValues_eq, List.forall_mem_map]

theorem isProper_object : (Json.object gs).toValue.isProper = true ↔
    (gs.map (·.1)).Nodup ∧ ∀ g ∈ gs, g.2.toValue.isProper = true := by
  rw [toValue, Value.isProper, Bool.and_eq_true, decide_eq_true_eq, fieldsProper_iff, toRecord_eq,
    List.map_map, List.forall_mem_map]
  rfl

theorem same_of_self (hnodup : (gs.map (·.1)).Nodup)
    (hself : (Json.object gs).toValue.same (Json.object gs).toValue = true) :
    ∀ g ∈ gs, g.2.toValue.same g.2.toValue = true := by
  intro g hg
  obtain ⟨k, hlookup, hsame⟩ := (same_object.mp hself).2 g hg
  rw [lookup_of_nodup hnodup hg] at hlookup
  obtain rfl := Option.some.inj hlookup
  exact hsame

/-- What is loosely itself is loosely so with its truth values and their numbers swapped. -/
theorem swapped_same (hproper : k.toValue.isProper = true)
    (hself : k.toValue.same k.toValue = true) : k.swapped.toValue.same k.toValue = true := by
  induction k using parts_induction with
  | step k ih =>
  cases k with
  | list ks =>
    have hitems := List.forall₂_same.mp (same_list.mp hself)
    rw [swapped, allSwapped_eq, same_list, List.forall₂_map_left_iff, List.forall₂_same]
    intro k hk
    exact ih k (mem_parts_list hk) (isProper_list.mp hproper k hk) (hitems k hk)
  | object gs =>
    obtain ⟨hnodup, hfields⟩ := isProper_object.mp hproper
    have hvalues := same_of_self hnodup hself
    rw [swapped, fieldsSwapped_eq, same_object, List.length_map, List.forall_mem_map]
    refine ⟨rfl, fun g hg => ⟨g.2, lookup_of_nodup hnodup hg, ?_⟩⟩
    exact ih g.2 (mem_parts_object hg) (hfields g hg) (hvalues g hg)
  | bool b => cases b <;> simp [swapped, toValue, Value.same] <;> decide
  | int n | float x =>
    rw [swapped]
    split
    · rename_i hzero
      simpa [toValue, Value.same] using hzero
    split
    · rename_i hone
      simpa [toValue, Value.same] using hone
    · exact hself
  | _ => exact hself

/-- Only a plain value is the same with its truth values and their numbers swapped. -/
theorem isPlain_of_swapped (hproper : k.toValue.isProper = true) (h : k.swapped.same k = true) :
    k.isPlain = true := by
  induction k using parts_induction with
  | step k ih =>
  cases k with
  | list ks =>
    rw [swapped, allSwapped_eq, same, allSame_iff, List.forall₂_map_left_iff,
      List.forall₂_same] at h
    refine allPlain_iff.mpr fun k hk => ?_
    exact ih k (mem_parts_list hk) (isProper_list.mp hproper k hk) (h k hk)
  | object gs =>
    obtain ⟨hnodup, hproper⟩ := isProper_object.mp hproper
    rw [swapped, fieldsSwapped_eq, same, Bool.and_eq_true, fieldsSame_iff,
      List.forall_mem_map] at h
    refine fieldsPlain_iff.mpr fun g hg => ?_
    obtain ⟨k, hlookup, hsame⟩ := h.2 g hg
    rw [lookup_of_nodup hnodup hg] at hlookup
    obtain rfl := Option.some.inj hlookup
    exact ih g.2 (mem_parts_object hg) (hproper g hg) hsame
  | bool b => cases h
  | int n | float x =>
    rw [swapped] at h
    split at h
    · cases h
    rename_i hzero
    split at h
    · cases h
    rename_i hone
    simp [isPlain, hzero, hone]
  | _ => rfl

theorem kind_same (h : j.same k = true) : j.toValue.kind? = k.toValue.kind? := by
  cases j <;> cases k <;> first | rfl | cases h

theorem meets_of_same (h : j.same k = true) : j.meets k = true :=
  (Bool.and_eq_true _ _).mpr ⟨beq_iff_eq.mpr (kind_same h), toValue_same h⟩

theorem meets_eq_same (hplain : ∀ part ∈ k.parts, part.isPlain = true) (j : Json) :
    j.meets k = j.same k := by
  rw [Bool.eq_iff_iff]
  refine ⟨fun h => ?_, meets_of_same⟩
  obtain ⟨hkind, hsame⟩ := (Bool.and_eq_true _ _).mp h
  have hkind := beq_iff_eq.mp hkind
  cases k with
  | list ks => exact same_of_isPlain (allPlain_iff.mpr hplain) hsame
  | object gs =>
    exact same_of_isPlain (fieldsPlain_iff.mpr (List.forall_mem_map.mp hplain)) hsame
  | _ =>
    clear hplain h
    cases j <;> simp_all [same, toValue, Value.same, Value.kind?]

/-- Equality within a kind is sameness with a value exactly if everything in the value is plain. -/
theorem meets_eq_same_iff (hproper : k.toValue.isProper = true)
    (hself : k.toValue.same k.toValue = true) :
    (∀ j, Json.meets j k = j.same k) ↔ ∀ part ∈ k.parts, part.isPlain = true := by
  refine ⟨fun h => ?_, meets_eq_same⟩
  -- the value with its truth values and their numbers swapped tells both apart
  have hswapped : k.toValue.kind? = k.swapped.toValue.kind? → k.isPlain = true := by
    intro hkind
    apply isPlain_of_swapped hproper
    rw [← h]
    exact (Bool.and_eq_true _ _).mpr ⟨beq_iff_eq.mpr hkind.symm, swapped_same hproper hself⟩
  cases k with
  | list ks => exact allPlain_iff.mp (hswapped rfl)
  | object gs => exact List.forall_mem_map.mpr (fieldsPlain_iff.mp (hswapped rfl))
  | _ => exact nofun

end

end Json
end RowGate
