import RowGate.Json.Writer
import RowGate.Proofs.Json.Interchange
import RowGate.Proofs.Query.Written
/-!
Values that differ in the order of keys only. Main statements: what such maps have under a key, and
two values of the interchange format are such values exactly if they have one text with sorted keys.
-/
namespace RowGate

/-- Equality but for the order of keys: maps have the same keys, and the same values under them. -/
inductive Value.Reordered : Value → Value → Prop
  | refl (v : Value) : Reordered v v
  | list {vs ws : List Value} (hlength : vs.length = ws.length)
      (h : ∀ v w, (v, w) ∈ vs.zip ws → Reordered v w) : Reordered (.list vs) (.list ws)
  | map {r s : Record} (hkeys : r.keys.Perm s.keys)
      (h : ∀ key v w, (key, v) ∈ r → (key, w) ∈ s → Reordered v w) : Reordered (.map r) (.map s)

/-! ## Lists of pairs by key -/

section

variable {α β : Type} {fs gs : List (α × β)}

/-- A key that does not repeat has one value. -/
theorem value_unique (hnodup : (fs.map (·.1)).Nodup) {key : α} {v w : β} (hv : (key, v) ∈ fs)
    (hw : (key, w) ∈ fs) : v = w :=
  congrArg Prod.snd (List.inj_on_of_nodup_map hnodup hv hw rfl)

/-- Lists with the same keys are matched key by key. -/
theorem matched_of_keys (hkeys : (fs.map (·.1)).Perm (gs.map (·.1))) :
    ∃ hs, hs.Perm gs ∧ List.Forall₂ (fun f h => f.1 = h.1) fs hs := by
  have hgs : List.Forall₂ (fun key g => key = g.1) (gs.map (·.1)) gs := by
    rw [List.forall₂_map_left_iff]
    exact List.forall₂_same.mpr fun _ _ => rfl
  obtain ⟨hs, hmatched, hperm⟩ := List.perm_comp_forall₂ hkeys hgs
  exact ⟨hs, hperm, List.forall₂_map_left_iff.mp hmatched⟩

/-- Pairs whose keys do not repeat are the same but for their order exactly if they have the same keys
and the same values under them. -/
theorem perm_iff_of_keys (hnodup : (fs.map (·.1)).Nodup) : fs.Perm gs ↔
    (fs.map (·.1)).Perm (gs.map (·.1)) ∧
      ∀ key v w, (key, v) ∈ fs → (key, w) ∈ gs → v = w := by
  constructor
  · intro h
    exact ⟨h.map _, fun key v w hv hw => value_unique hnodup hv (h.mem_iff.mpr hw)⟩
  · rintro ⟨hkeys, h⟩
    obtain ⟨hs, hperm, hmatched⟩ := matched_of_keys hkeys
    have hsame : fs = hs := by
      rw [← List.forall₂_eq_eq_eq, List.forall₂_iff_zip] at *
      refine ⟨hmatched.1, fun {f g} hzip => ?_⟩
      obtain ⟨hf, hg⟩ := List.of_mem_zip hzip
      have hkey : f.1 = g.1 := hmatched.2 hzip
      refine Prod.ext hkey (h f.1 f.2 g.2 hf ?_)
      rw [hkey]
      exact hperm.mem_iff.mp hg
    exact hsame ▸ hperm

end

/-- Pairs whose keys do not repeat are sorted by their keys to one list exactly if they are the same
but for their order. -/
theorem mergeSort_eq_iff {β : Type} {fs gs : List (String × β)} (hfs : (fs.map (·.1)).Nodup) :
    (fs.mergeSort fun a b => a.1 ≤ b.1) = (gs.mergeSort fun a b => a.1 ≤ b.1) ↔ fs.Perm gs := by
  have hsorted (xs : List (String × β)) :
      (xs.mergeSort fun a b => a.1 ≤ b.1).Pairwise fun a b => a.1 ≤ b.1 := by
    have htrans (a b c : String × β) (hab : decide (a.1 ≤ b.1) = true)
        (hbc : decide (b.1 ≤ c.1) = true) : decide (a.1 ≤ c.1) = true :=
      decide_eq_true (String.le_trans (of_decide_eq_true hab) (of_decide_eq_true hbc))
    have htotal (a b : String × β) : (decide (a.1 ≤ b.1) || decide (b.1 ≤ a.1)) = true := by
      simpa using String.le_total a.1 b.1
    have h := List.pairwise_mergeSort htrans htotal xs
    exact h.imp of_decide_eq_true
  constructor
  · intro h
    exact (List.mergeSort_perm fs _).symm.trans (h ▸ List.mergeSort_perm gs _)
  · intro h
    have hperm := (List.mergeSort_perm fs fun a b => a.1 ≤ b.1).trans
      (h.trans (List.mergeSort_perm gs fun a b => a.1 ≤ b.1).symm)
    refine List.Perm.eq_of_pairwise ?_ (hsorted fs) (hsorted gs) hperm
    intro a b ha hb hab hba
    have hkey : a.1 = b.1 := String.le_antisymm hab hba
    have hafs : a ∈ fs := (List.mergeSort_perm fs _).mem_iff.mp ha
    have hbfs : b ∈ fs := h.mem_iff.mpr ((List.mergeSort_perm gs _).mem_iff.mp hb)
    exact List.inj_on_of_nodup_map hfs hafs hbfs hkey

namespace Value.Reordered

variable {v w : Value} {vs ws : List Value} {r s : Record}

theorem list_iff : (Value.list vs).Reordered (.list ws) ↔ List.Forall₂ Value.Reordered vs ws := by
  constructor
  · intro h
    cases h with
    | refl => exact List.forall₂_same.mpr fun v _ => .refl v
    | list hlength h => exact List.forall₂_iff_zip.mpr ⟨hlength, h _ _⟩
  · intro h
    obtain ⟨hlength, hzip⟩ := List.forall₂_iff_zip.mp h
    exact .list hlength fun _ _ => hzip

@[simp] theorem text_iff {s : String} : (text s).Reordered w ↔ .text s = w := by
  constructor
  · intro h
    cases h
    rfl
  · rintro rfl
    exact .refl _

@[simp] theorem bool_iff {b : Bool} : (bool b).Reordered w ↔ .bool b = w := by
  constructor
  · intro h
    cases h
    rfl
  · rintro rfl
    exact .refl _

@[simp] theorem number_iff {n : Number} : (number n).Reordered w ↔ .number n = w := by
  constructor
  · intro h
    cases h
    rfl
  · rintro rfl
    exact .refl _

/-- Maps without repeated keys differ in the order of keys only exactly if they have the same keys and
under each of them values that do so. -/
theorem map_iff (hr : r.keys.Nodup) : (Value.map r).Reordered (.map s) ↔
    r.keys.Perm s.keys ∧ ∀ key v w, (key, v) ∈ r → (key, w) ∈ s → Value.Reordered v w := by
  constructor
  · intro h
    cases h with
    | refl => exact ⟨.refl _, fun _ _ _ hv hw => value_unique hr hv hw ▸ .refl _⟩
    | map hkeys h => exact ⟨hkeys, h⟩
  · rintro ⟨hkeys, h⟩
    exact .map hkeys h

/-- A map without repeated keys may be put into another order. -/
theorem of_perm (hr : r.keys.Nodup) (h : r.Perm s) : (Value.map r).Reordered (.map s) :=
  .map (h.map _) fun _ _ _ hv hw => value_unique hr hv (h.mem_iff.mpr hw) ▸ .refl _

/-- The value under a key may be replaced by one that differs in the order of keys only. -/
theorem replaced {key : String} (hr : (key :: r.keys).Nodup) (h : v.Reordered w) :
    (Value.map ((key, v) :: r)).Reordered (.map ((key, w) :: r)) := by
  obtain ⟨hkey, hrest⟩ := List.nodup_cons.mp hr
  have habsent {u : Value} : (key, u) ∉ r := fun hu => hkey (List.mem_map.mpr ⟨_, hu, rfl⟩)
  refine .map (.refl _) fun name v' w' hv hw => ?_
  rcases List.mem_cons.mp hv with heq | hv <;> rcases List.mem_cons.mp hw with heq' | hw
  · cases heq
    cases heq'
    exact h
  · cases heq
    exact absurd hw habsent
  · cases heq'
    exact absurd hv habsent
  · exact value_unique hrest hv hw ▸ .refl _

/-- Under each key there is the same on both sides, or nothing. -/
theorem get? (h : (Value.map r).Reordered (.map s)) (key : String) :
    Option.Rel Value.Reordered (r.get? key) (s.get? key) := by
  cases h with
  | refl =>
    cases r.get? key with
    | none => exact .none
    | some v => exact .some (.refl v)
  | map hkeys h =>
    have hmem (t : Record) {v : Value} (hv : t.get? key = some v) : (key, v) ∈ t := by
      obtain ⟨before, after, rfl, -⟩ := List.lookup_eq_some_iff.mp hv
      simp
    cases hv : r.get? key with
    | none =>
      have habsent : s.get? key = none := by
        rw [Record.get?_eq_none] at hv ⊢
        exact fun hmem => hv (hkeys.mem_iff.mpr hmem)
      rw [habsent]
      exact .none
    | some v =>
      cases hw : s.get? key with
      | none =>
        have hkey : key ∈ r.keys := List.mem_map.mpr ⟨_, hmem r hv, rfl⟩
        exact absurd (hkeys.mem_iff.mp hkey) (Record.get?_eq_none.mp hw)
      | some w => exact .some (h key v w (hmem r hv) (hmem s hw))

/-- The fields on one side are matched by those on the other, in some order. -/
theorem matched (h : (Value.map r).Reordered (.map s)) :
    ∃ t, t.Perm s ∧ List.Forall₂ (fun f g => f.1 = g.1 ∧ f.2.Reordered g.2) r t := by
  cases h with
  | refl => exact ⟨r, .refl r, List.forall₂_same.mpr fun f _ => ⟨rfl, .refl f.2⟩⟩
  | map hkeys h =>
    obtain ⟨t, hperm, hmatched⟩ := matched_of_keys hkeys
    refine ⟨t, hperm, List.forall₂_iff_zip.mpr ?_⟩
    obtain ⟨hlength, hzip⟩ := List.forall₂_iff_zip.mp hmatched
    refine ⟨hlength, fun {f g} hfg => ⟨hzip hfg, ?_⟩⟩
    obtain ⟨hf, hg⟩ := List.of_mem_zip hfg
    refine h f.1 f.2 g.2 hf ?_
    rw [hzip hfg]
    exact hperm.mem_iff.mp hg

end Value.Reordered

/-! ## Sorted keys -/

namespace Json

theorem sortKeysList_eq (js : List Json) : sortKeysList js = js.map sortKeys := by
  induction js with
  | nil => rfl
  | cons j js ih => rw [sortKeysList, List.map_cons, ih]

theorem sortKeysFields_eq (fs : List (String × Json)) :
    sortKeysFields fs = fs.map fun f => (f.1, f.2.sortKeys) := by
  induction fs with
  | nil => rfl
  | cons f fs ih =>
    obtain ⟨k, j⟩ := f
    rw [sortKeysFields, List.map_cons, ih]

/-- Values of the format that stand for the same are the same. -/
theorem toValue_inj {j k : Json} (hj : j.isReadable = true) (hk : k.isReadable = true)
    (h : j.toValue = k.toValue) : j = k := by
  have hform := toJson?_toValue ⟨fun _ => none, none⟩ hj
  rw [h, toJson?_toValue _ hk] at hform
  exact (Option.some.inj hform).symm

section

variable {js ks : List Json} {fs gs : List (String × Json)}

theorem reordered_list_iff
    (h : ∀ j ∈ js, ∀ k ∈ ks, j.toValue.Reordered k.toValue ↔ j.sortKeys = k.sortKeys) :
    (list js).toValue.Reordered (list ks).toValue ↔ (list js).sortKeys = (list ks).sortKeys := by
  rw [toValue, toValue, toValues_eq, toValues_eq, Value.Reordered.list_iff, sortKeys, sortKeys,
    list.injEq, sortKeysList_eq, sortKeysList_eq, ← List.forall₂_eq_eq_eq]
  simp only [List.forall₂_map_left_iff, List.forall₂_map_right_iff]
  simp only [List.forall₂_iff_zip]
  refine and_congr_right fun _ => forall_congr' fun j => forall_congr' fun k => ?_
  exact forall_congr' fun hzip => h j (List.of_mem_zip hzip).1 k (List.of_mem_zip hzip).2

theorem reordered_object_iff (hfs : (fs.map (·.1)).Nodup)
    (h : ∀ f ∈ fs, ∀ g ∈ gs, f.2.toValue.Reordered g.2.toValue ↔ f.2.sortKeys = g.2.sortKeys) :
    (object fs).toValue.Reordered (object gs).toValue ↔
      (object fs).sortKeys = (object gs).sortKeys := by
  have hvalues (fs : List (String × Json)) :
      Record.keys (fs.map fun f => (f.1, f.2.toValue)) = fs.map (·.1) := by
    simp [Record.keys]
  have hsorted (fs : List (String × Json)) :
      (fs.map fun f => (f.1, f.2.sortKeys)).map (·.1) = fs.map (·.1) := by
    simp
  rw [toValue, toValue, toRecord_eq, toRecord_eq,
    Value.Reordered.map_iff (by rw [hvalues]; exact hfs), sortKeys, sortKeys, object.injEq,
    sortKeysFields_eq, sortKeysFields_eq, mergeSort_eq_iff (by rw [hsorted]; exact hfs),
    perm_iff_of_keys (by rw [hsorted]; exact hfs), hvalues, hvalues, hsorted, hsorted]
  have hmem {δ : Type} {m : Json → δ} {xs : List (String × Json)} {key : String} {d : δ} :
      (key, d) ∈ (xs.map fun f => (f.1, m f.2)) ↔ ∃ j, (key, j) ∈ xs ∧ m j = d := by
    simp
  simp only [hmem]
  refine and_congr_right fun _ => forall_congr' fun key => ?_
  constructor
  · rintro hall _ _ ⟨j, hj, rfl⟩ ⟨k, hk, rfl⟩
    exact (h _ hj _ hk).mp (hall _ _ ⟨j, hj, rfl⟩ ⟨k, hk, rfl⟩)
  · rintro hall _ _ ⟨j, hj, rfl⟩ ⟨k, hk, rfl⟩
    exact (h _ hj _ hk).mpr (hall _ _ ⟨j, hj, rfl⟩ ⟨k, hk, rfl⟩)

end

/-- Two values of the format stand for values that differ in the order of keys only exactly if they
are the same value with sorted keys. -/
theorem reordered_iff {j k : Json} (hj : j.isReadable = true) (hk : k.isReadable = true) :
    j.toValue.Reordered k.toValue ↔ j.sortKeys = k.sortKeys := by
  generalize hv : j.toValue = v
  induction v using Value.parts_induction generalizing j k with
  | step v ih =>
  subst hv
  cases j <;> cases k
  case list.list js ks =>
    refine reordered_list_iff fun j hjs k hks => ?_
    exact ih _ (by rw [toValue, toValues_eq]; exact List.mem_map_of_mem hjs)
      (allReadable_iff.mp hj j hjs) (allReadable_iff.mp hk k hks) rfl
  case object.object fs gs =>
    obtain ⟨hnodup, hfields⟩ := (Bool.and_eq_true _ _).mp hj
    obtain ⟨-, hfields'⟩ := (Bool.and_eq_true _ _).mp hk
    refine reordered_object_iff (of_decide_eq_true hnodup) fun f hf g hg => ?_
    exact ih _ (by rw [toValue, toRecord_eq, Value.parts, List.map_map]; exact List.mem_map_of_mem hf)
      (fieldsReadable_iff.mp hfields f hf) (fieldsReadable_iff.mp hfields' g hg) rfl
  all_goals
    constructor
    · intro h
      cases h <;> rfl
    · intro h
      cases h <;> exact .refl _

/-- A value that is read back from its text is so with sorted keys. -/
theorem isReadable_sortKeys {j : Json} (h : j.isReadable = true) : j.sortKeys.isReadable = true := by
  generalize hv : j.toValue = v
  induction v using Value.parts_induction generalizing j with
  | step v ih =>
  subst hv
  cases j with
  | list items =>
    rw [sortKeys, sortKeysList_eq]
    refine allReadable_iff.mpr (List.forall_mem_map.mpr fun i hi => ?_)
    exact ih _ (by rw [toValue, toValues_eq]; exact List.mem_map_of_mem hi)
      (allReadable_iff.mp h i hi) rfl
  | object fields =>
    obtain ⟨hnodup, hfields⟩ := (Bool.and_eq_true _ _).mp h
    have hperm := List.mergeSort_perm (sortKeysFields fields) fun a b => a.1 ≤ b.1
    rw [sortKeys]
    refine (Bool.and_eq_true _ _).mpr ⟨decide_eq_true ?_, fieldsReadable_iff.mpr fun f hf => ?_⟩
    · rw [(hperm.map _).nodup_iff, sortKeysFields_eq, List.map_map]
      exact of_decide_eq_true hnodup
    · rw [hperm.mem_iff, sortKeysFields_eq] at hf
      obtain ⟨g, hg, rfl⟩ := List.mem_map.mp hf
      exact ih _ (by rw [toValue, toRecord_eq, Value.parts, List.map_map]; exact List.mem_map_of_mem hg)
        (fieldsReadable_iff.mp hfields g hg) rfl
  | _ => exact h

/-- Two values of the format have one text with sorted keys exactly if they stand for values that
differ in the order of keys only. -/
theorem render_sortKeys_eq_iff {j k : Json} (hj : j.isReadable = true) (hk : k.isReadable = true) :
    j.sortKeys.render = k.sortKeys.render ↔ j.toValue.Reordered k.toValue := by
  rw [reordered_iff hj hk]
  constructor
  · intro h
    have hparsed := parse?_render (isReadable_sortKeys hj)
    rw [h, parse?_render (isReadable_sortKeys hk)] at hparsed
    exact (Option.some.inj hparsed).symm
  · exact congrArg render

end Json

end RowGate
