import Mathlib.Data.List.Induction
import Mathlib.Data.List.Nodup
import RowGate.Value.Basic
/-!
What stands under the keys of a record. Main statements: what is under a key after an entry was put or
a record was laid over another, and that an overlay keeps each key at its first place.
-/
namespace RowGate.Record

variable {r s : Record} {key name : String} {v : Value}

theorem get_eq (r : Record) (key : String) : r.get key = (r.get? key).getD .null := rfl

@[simp] theorem get?_append : Record.get? (r ++ s) name = (r.get? name).or (s.get? name) :=
  List.lookup_append

@[simp] theorem get?_nil : Record.get? [] name = none := rfl

@[simp] theorem get?_cons :
    Record.get? ((key, v) :: r) name = if key = name then some v else r.get? name := by
  unfold Record.get?
  by_cases hkey : key = name
  · rw [if_pos hkey, hkey, List.lookup_cons_self]
  · have hne : (name == key) = false := by simpa using Ne.symm hkey
    rw [if_neg hkey, List.lookup_cons, hne]

theorem get?_eq_none : r.get? key = none ↔ key ∉ r.map (·.1) := by
  unfold Record.get?
  rw [List.lookup_eq_none_iff]
  simp only [bne_iff_ne, ne_eq, List.mem_map, not_exists, not_and]
  exact ⟨fun h f hf hkey => h f hf hkey.symm, fun h f hf hkey => h f hf hkey.symm⟩

/-- An entry of a record with distinct keys stands under its key. -/
theorem get?_of_mem (hnodup : r.keys.Nodup) (h : (key, v) ∈ r) : r.get? key = some v := by
  obtain ⟨before, after, rfl⟩ := List.append_of_mem h
  have hkey : key ∉ before.map (·.1) := by
    rw [Record.keys, List.map_append, List.nodup_append] at hnodup
    exact fun hmem => hnodup.2.2 key hmem key (by simp) rfl
  simp [get?_eq_none.mpr hkey]

/-- The fields that are left stand under their keys as before. -/
theorem get?_filter (p : String → Bool) (r : Record) (name : String) :
    Record.get? (r.filter fun f => p f.1) name = if p name then r.get? name else none := by
  induction r with
  | nil => simp
  | cons f r ih =>
    obtain ⟨k, w⟩ := f
    rw [List.filter_cons]
    by_cases hname : k = name
    · by_cases hp : p name = true <;> simp [hname, hp, ih]
    · by_cases hk : p k = true <;> simp [hname, hk, ih]

/-! ## An entry put under a key -/

theorem get?_put (r : Record) (key : String) (v : Value) (name : String) :
    (r.put key v).get? name = if key = name then some v else r.get? name := by
  induction r with
  | nil => simp [put]
  | cons f r ih =>
    obtain ⟨k, w⟩ := f
    rw [put]
    split
    · rename_i hk
      by_cases hname : key = name <;> simp [hk, hname]
    · rename_i hk
      by_cases hname : k = name
      · have hother : key ≠ name := fun h => hk (hname.trans h.symm)
        simp [hname, hother]
      · simp [hname, ih]

theorem get_put (r : Record) (key : String) (v : Value) (name : String) :
    (r.put key v).get name = if key = name then v else r.get name := by
  rw [get_eq, get?_put, get_eq]
  split <;> rfl

/-- A new key stands behind the others. -/
theorem keys_put (r : Record) (key : String) (v : Value) :
    (r.put key v).keys = if key ∈ r.keys then r.keys else r.keys ++ [key] := by
  induction r with
  | nil => simp [put, keys]
  | cons f r ih =>
    obtain ⟨k, w⟩ := f
    rw [put]
    split
    · rename_i hk
      simp [keys, hk]
    · rename_i hk
      have hmem : key ∈ keys ((k, w) :: r) ↔ key ∈ keys r := by simp [keys, Ne.symm hk]
      have hkeys : keys ((k, w) :: put r key v) = k :: (put r key v).keys := rfl
      rw [hkeys, ih]
      simp only [hmem]
      split <;> rfl

/-- Entries under other keys stay as they are. -/
theorem filter_put (r : Record) (key : String) (v : Value) :
    (r.put key v).filter (·.1 != key) = r.filter (·.1 != key) := by
  induction r with
  | nil => simp [put]
  | cons f r ih =>
    obtain ⟨k, w⟩ := f
    rw [put]
    split
    · rename_i hk
      simp [hk]
    · rename_i hk
      simpa [hk] using ih

theorem put_of_notMem (h : key ∉ r.keys) (v : Value) : r.put key v = r ++ [(key, v)] := by
  induction r with
  | nil => rfl
  | cons f r ih =>
    obtain ⟨hf, hr⟩ := not_or.mp (mt List.mem_cons.mpr h)
    rw [put, if_neg (Ne.symm hf), ih hr, List.cons_append]

/-! ## A record laid over another -/

theorem overlay_append (base r s : Record) :
    base.overlay (r ++ s) = (base.overlay r).overlay s := List.foldl_append

theorem overlay_concat (base top : Record) (key : String) (v : Value) :
    base.overlay (top ++ [(key, v)]) = (base.overlay top).put key v := by
  simp [overlay]

/-- The last entry counts. -/
theorem get?_overlay (base top : Record) (name : String) :
    (base.overlay top).get? name = (Record.get? top.reverse name).or (base.get? name) := by
  induction top using List.reverseRecOn with
  | nil => rfl
  | append_singleton top f ih =>
    obtain ⟨k, w⟩ := f
    rw [overlay_concat, get?_put, ih, List.reverse_concat, get?_cons]
    split <;> rfl

/-- Each key is at the place where it came up first. -/
theorem keys_overlay (top : Record) : (overlay [] top).keys = top.keys.eraseDups := by
  induction top using List.reverseRecOn with
  | nil => rfl
  | append_singleton top f ih =>
    obtain ⟨k, w⟩ := f
    have hkeys : keys (top ++ [(k, w)]) = keys top ++ [k] := by simp [keys]
    rw [overlay_concat, keys_put, ih, hkeys, List.eraseDups_append]
    by_cases hk : k ∈ keys top <;> simp [List.removeAll, hk, List.eraseDups_cons]

theorem nodup_overlay {base : Record} (h : base.keys.Nodup) (top : Record) :
    (base.overlay top).keys.Nodup := by
  induction top using List.reverseRecOn with
  | nil => exact h
  | append_singleton top f ih =>
    obtain ⟨k, w⟩ := f
    rw [overlay_concat, keys_put]
    split
    · exact ih
    · rename_i hnew
      simpa using ih.concat hnew

/-- Entries under distinct keys stay as they are. -/
theorem overlay_eq_self (h : r.keys.Nodup) : overlay [] r = r := by
  induction r using List.reverseRecOn with
  | nil => rfl
  | append_singleton r f ih =>
    obtain ⟨k, w⟩ := f
    have hkeys : (r ++ [(k, w)]).map (·.1) = keys r ++ [k] := List.map_append
    rw [keys, hkeys, List.nodup_append] at h
    have hk : k ∉ keys r := fun hmem => h.2.2 k hmem k List.mem_cons_self rfl
    rw [overlay_concat, ih h.1, put_of_notMem hk]

/-- What stands under a key is the last entry there. -/
theorem last_of_mem_overlay (h : (key, v) ∈ overlay [] r) :
    ∃ before after, r = before ++ (key, v) :: after ∧ key ∉ keys after := by
  have hempty : (keys []).Nodup := List.nodup_nil
  have hlast := get?_of_mem (nodup_overlay hempty r) h
  rw [get?_overlay, get?_nil, Option.or_none] at hlast
  obtain ⟨front, back, hr, hfront⟩ := List.lookup_eq_some_iff.mp hlast
  refine ⟨back.reverse, front.reverse, ?_, ?_⟩
  · rw [← r.reverse_reverse, hr]
    simp
  · rw [keys, List.map_reverse, List.mem_reverse, List.mem_map]
    rintro ⟨f, hf, hkey⟩
    simpa [hkey] using hfront f hf

end RowGate.Record
