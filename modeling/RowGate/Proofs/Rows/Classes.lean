import Mathlib
import RowGate.Rows.Transform
/-!
Classes of rows that are alike, and rows gathered by a key. Main statements: the classes share out
the rows and do not depend on their order, and what is gathered stands for the classes in the order
of their first rows, each with all of its rows in order.
-/
namespace RowGate.Rows

variable {α β κ : Type}

/-- The first row of each class, in order: rows that are like an earlier one are left out. -/
def firsts (alike : α → α → Prop) [DecidableRel alike] (rows : List α) : List α :=
  rows.eraseDupsBy fun r s => decide (alike r s)

/-- The rows of the class of a row. -/
def classOf (alike : α → α → Prop) [DecidableRel alike] (rows : List α) (r : α) : List α :=
  rows.filter fun s => decide (alike s r)

/-- Rows have the same key. -/
def SameKey (key : α → κ) (r s : α) : Prop := key r = key s

instance (key : α → κ) [DecidableEq κ] : DecidableRel (SameKey key) :=
  fun r s => inferInstanceAs (Decidable (key r = key s))

section Congruence

variable {alike alike' : α → α → Prop} [DecidableRel alike] [DecidableRel alike'] {rows : List α}

theorem firsts_cons (r : α) (rows : List α) :
    firsts alike (r :: rows) = r :: firsts alike (rows.filter fun s => ¬ alike s r) := by
  simp [firsts, List.eraseDupsBy_cons]

/-- What holds of a list with a row in front if it holds of the rows that are not like it. -/
theorem firsts_induction (alike : α → α → Prop) [DecidableRel alike] {P : List α → Prop}
    (nil : P []) (cons : ∀ r rows, P (rows.filter fun s => ¬ alike s r) → P (r :: rows)) :
    ∀ rows, P rows
  | [] => nil
  | r :: rows => cons r rows (firsts_induction alike nil cons (rows.filter fun s => ¬ alike s r))
termination_by rows => rows.length
decreasing_by exact Nat.lt_succ_of_le (List.length_filter_le _ _)

theorem firsts_subset : firsts alike rows ⊆ rows := by
  induction rows using firsts_induction alike with
  | nil => exact List.nil_subset _
  | cons r rows ih =>
    rw [firsts_cons]
    exact List.cons_subset_cons r (List.Subset.trans ih (List.filter_subset_self _))

theorem firsts_congr (h : ∀ r ∈ rows, ∀ s ∈ rows, alike r s ↔ alike' r s) :
    firsts alike rows = firsts alike' rows := by
  induction rows using firsts_induction alike' with
  | nil => rfl
  | cons r rows ih =>
    have hothers : (rows.filter fun s => ¬ alike s r) = rows.filter fun s => ¬ alike' s r :=
      List.filter_congr fun s hs => by
        simp [h s (List.mem_cons_of_mem r hs) r List.mem_cons_self]
    rw [firsts_cons, firsts_cons, hothers, ih]
    intro s hs t ht
    exact h s (List.mem_cons_of_mem r (List.mem_of_mem_filter hs)) t
      (List.mem_cons_of_mem r (List.mem_of_mem_filter ht))

theorem classOf_congr {r : α} (h : ∀ s ∈ rows, alike s r ↔ alike' s r) :
    classOf alike rows r = classOf alike' rows r :=
  List.filter_congr fun s hs => by simp [h s hs]

end Congruence

/-! ## Classes by a key -/

section Keys

variable [DecidableEq κ] {key : α → κ} {rows rows' : List α} {r : α}

/-- A row behind all others is the first of its class if its key is new. -/
theorem firsts_concat (rows : List α) (r : α) :
    firsts (SameKey key) (rows ++ [r]) =
      firsts (SameKey key) rows ++ if key r ∈ rows.map key then [] else [r] := by
  induction rows using firsts_induction (SameKey key) with
  | nil => rfl
  | cons q rows ih =>
    rw [List.cons_append, firsts_cons, firsts_cons, List.cons_append, List.filter_append]
    by_cases hq : SameKey key r q
    · have hold : key r ∈ (q :: rows).map key := List.mem_cons.mpr (.inl hq)
      rw [if_pos hold, List.append_nil]
      simp [hq]
    · have hmem : key r ∈ (rows.filter fun s => ¬ SameKey key s q).map key ↔
          key r ∈ (q :: rows).map key := by
        have hne : key r ≠ key q := hq
        rw [List.map_cons, List.mem_cons, or_iff_right hne, List.mem_map, List.mem_map]
        constructor
        · rintro ⟨s, hs, hkey⟩
          exact ⟨s, List.mem_of_mem_filter hs, hkey⟩
        · rintro ⟨s, hs, hkey⟩
          have hother : ¬ SameKey key s q := fun h => hq (hkey.symm.trans h)
          exact ⟨s, List.mem_filter.mpr ⟨hs, by simpa using hother⟩, hkey⟩
      have hlast : ([r].filter fun s => ¬ SameKey key s q) = [r] := by simp [hq]
      rw [hlast, ih]
      simp only [hmem]

theorem classOf_concat (rows : List α) (q r : α) :
    classOf (SameKey key) (rows ++ [q]) r =
      classOf (SameKey key) rows r ++ if key q = key r then [q] else [] := by
  by_cases h : key q = key r <;> simp [classOf, SameKey, h]

/-- Each key stands at one row. -/
theorem mem_map_firsts {k : κ} : k ∈ (firsts (SameKey key) rows).map key ↔ k ∈ rows.map key := by
  induction rows using List.reverseRecOn with
  | nil => rfl
  | append_singleton rows r ih =>
    rw [firsts_concat, List.map_append, List.mem_append, ih, List.map_append, List.mem_append]
    split
    · rename_i hold
      simp only [List.map_nil, List.not_mem_nil, or_false, List.map_cons, List.mem_singleton]
      exact ⟨.inl, fun h => h.elim id fun h => h ▸ hold⟩
    · rfl

theorem nodup_firsts (key : α → κ) (rows : List α) :
    ((firsts (SameKey key) rows).map key).Nodup := by
  induction rows using List.reverseRecOn with
  | nil => exact List.nodup_nil
  | append_singleton rows r ih =>
    rw [firsts_concat, List.map_append]
    split
    · simpa using ih
    · rename_i hnew
      rw [← mem_map_firsts] at hnew
      simpa using ih.concat hnew

/-- Keys share out the rows that have them. -/
theorem rows_perm {ks : List κ} (hks : ks.Nodup) (h : ∀ r ∈ rows, key r ∈ ks) :
    (ks.flatMap fun k => rows.filter fun r => decide (key r = k)).Perm rows := by
  induction ks generalizing rows with
  | nil =>
    have hnone : rows = [] := List.eq_nil_iff_forall_not_mem.mpr fun r hr => nomatch h r hr
    rw [hnone]
    exact .nil
  | cons k ks ih =>
    obtain ⟨hk, hks⟩ := List.nodup_cons.mp hks
    have hothers : (ks.flatMap fun l => rows.filter fun r => decide (key r = l)) =
        ks.flatMap fun l => (rows.filter fun r => !decide (key r = k)).filter fun r =>
          decide (key r = l) := by
      refine List.flatMap_congr fun l hl => ?_
      have hne : l ≠ k := fun h => hk (h ▸ hl)
      rw [List.filter_filter]
      refine List.filter_congr fun r _ => ?_
      by_cases hr : key r = l <;> simp [hr, hne]
    have hrest : ∀ r ∈ rows.filter (fun r => !decide (key r = k)), key r ∈ ks := fun r hr => by
      obtain ⟨hr, hne⟩ := List.mem_filter.mp hr
      exact (List.mem_cons.mp (h r hr)).resolve_left (by simpa using hne)
    rw [List.flatMap_cons, hothers]
    exact ((ih hks hrest).append_left _).trans (List.filter_append_perm _ rows)

theorem sum_rows {ks : List κ} (hks : ks.Nodup) (h : ∀ r ∈ rows, key r ∈ ks) :
    (ks.map fun k => (rows.filter fun r => decide (key r = k)).length).sum = rows.length := by
  rw [← List.length_flatMap, (rows_perm hks h).length_eq]

/-- The classes share out the rows. -/
theorem classes_perm (key : α → κ) (rows : List α) :
    ((firsts (SameKey key) rows).flatMap (classOf (SameKey key) rows)).Perm rows := by
  have hshares := rows_perm (nodup_firsts key rows) fun r hr =>
    mem_map_firsts.mpr (List.mem_map_of_mem (f := key) hr)
  rwa [List.flatMap_map] at hshares

theorem sum_classes (key : α → κ) (rows : List α) :
    ((firsts (SameKey key) rows).map fun r => (classOf (SameKey key) rows r).length).sum =
      rows.length := by
  rw [← List.length_flatMap, (classes_perm key rows).length_eq]

/-- The classes and their sizes do not depend on the order of rows. -/
theorem sizes_perm (key : α → κ) (h : rows.Perm rows') :
    ((firsts (SameKey key) rows).map fun r => (key r, (classOf (SameKey key) rows r).length)).Perm
      ((firsts (SameKey key) rows').map fun r =>
        (key r, (classOf (SameKey key) rows' r).length)) := by
  have hkeys : ((firsts (SameKey key) rows).map key).Perm ((firsts (SameKey key) rows').map key) :=
    (List.perm_ext_iff_of_nodup (nodup_firsts key rows) (nodup_firsts key rows')).mpr fun k => by
      rw [mem_map_firsts, mem_map_firsts, (h.map key).mem_iff]
  have hsize (r : α) : (classOf (SameKey key) rows r).length = (classOf (SameKey key) rows' r).length :=
    (h.filter _).length_eq
  have hform (rows'' : List α) :
      ((firsts (SameKey key) rows'').map fun r => (key r, (classOf (SameKey key) rows' r).length)) =
        ((firsts (SameKey key) rows'').map key).map fun k =>
          (k, (rows'.filter fun s => decide (key s = k)).length) := by
    rw [List.map_map]
    rfl
  simp only [hsize]
  rw [hform, hform]
  exact hkeys.map _

end Keys

/-! ## Gathering -/

section Gathering

variable [BEq κ] [LawfulBEq κ] {k : κ} {start : β} {change : β → β} {filed : List (κ × β)}

theorem fileUnder_of_notMem (h : k ∉ filed.map (·.1)) :
    fileUnder k start change filed = filed ++ [(k, change start)] := by
  induction filed with
  | nil => rfl
  | cons e filed ih =>
    rw [List.map_cons, List.mem_cons, not_or] at h
    rw [fileUnder, if_neg (by simpa using Ne.symm h.1), ih h.2, List.cons_append]

theorem fileUnder_of_mem (hnodup : (filed.map (·.1)).Nodup) (h : k ∈ filed.map (·.1)) :
    fileUnder k start change filed =
      filed.map fun e => if e.1 == k then (e.1, change e.2) else e := by
  induction filed with
  | nil => cases h
  | cons e filed ih =>
    rw [List.map_cons, List.nodup_cons] at hnodup
    rw [fileUnder, List.map_cons]
    by_cases he : e.1 == k
    · have hothers : (filed.map fun e => if e.1 == k then (e.1, change e.2) else e) = filed := by
        refine (List.map_congr_left fun f hf => ?_).trans (List.map_id _)
        have hf : ¬ (f.1 == k) = true := fun hk =>
          hnodup.1 (List.mem_map.mpr ⟨f, hf, (eq_of_beq hk).trans (eq_of_beq he).symm⟩)
        rw [if_neg hf, id]
      rw [if_pos he, if_pos he, hothers]
    · have hrest : k ∈ filed.map (·.1) := by
        rw [List.map_cons, List.mem_cons] at h
        exact h.resolve_left fun hk => he (beq_iff_eq.mpr hk.symm)
      rw [if_neg he, if_neg he, ih hnodup.2 hrest]

/-- What is gathered stands for the classes in the order of their first rows, and is made of all rows
of each class in order. -/
theorem gather_eq [DecidableEq κ] (key : α → κ) (start : α → β) (add : β → α → β) (rows : List α) :
    gather key start add rows = (firsts (SameKey key) rows).map fun r =>
      (key r, (classOf (SameKey key) rows r).foldl add (start r)) := by
  induction rows using List.reverseRecOn with
  | nil => rfl
  | append_singleton rows q ih =>
    have hkeys : (gather key start add rows).map (·.1) = (firsts (SameKey key) rows).map key := by
      rw [ih, List.map_map]
      rfl
    have hstep : gather key start add (rows ++ [q]) =
        fileUnder (key q) (start q) (add · q) (gather key start add rows) := by
      simp [gather]
    rw [hstep, firsts_concat]
    by_cases hold : key q ∈ rows.map key
    -- a key that is there gets one row more
    · rw [fileUnder_of_mem (hkeys ▸ nodup_firsts key rows) (hkeys ▸ mem_map_firsts.mpr hold), ih,
        if_pos hold, List.append_nil, List.map_map]
      refine List.map_congr_left fun r _ => ?_
      rw [classOf_concat, List.foldl_append]
      by_cases hr : key q = key r
      · simp [hr]
      · simp [hr, Ne.symm hr]
    -- a new key stands behind the others, with one row
    · rw [fileUnder_of_notMem (hkeys ▸ mt mem_map_firsts.mp hold), ih, if_neg hold,
        List.map_append]
      congr 1
      · refine List.map_congr_left fun r hr => ?_
        have hne : key q ≠ key r := fun h => hold (h ▸ List.mem_map_of_mem (firsts_subset hr))
        rw [classOf_concat, if_neg hne, List.append_nil]
      · have hnone : classOf (SameKey key) rows q = [] :=
          List.filter_eq_nil_iff.mpr fun s hs => by
            have hne : ¬ SameKey key s q := fun h => hold (h ▸ List.mem_map_of_mem hs)
            simpa using hne
        simp [classOf_concat, hnone]

end Gathering

end RowGate.Rows
