import Mathlib.Data.List.Basic
import RowGate.Text.Basic
/-!
Texts as collections. Main statements: which texts remain without repetitions or in order, that none
of them is there twice, and that those without repetitions stand as they first occurred.
-/
namespace RowGate.Text

variable {xs : List String} {x : String}

theorem mem_distinct : x ∈ distinct xs ↔ x ∈ xs := by
  have hfold (seen : List String) :
      x ∈ xs.foldl (fun seen y => if seen.contains y then seen else seen ++ [y]) seen ↔
        x ∈ seen ∨ x ∈ xs := by
    induction xs generalizing seen with
    | nil => simp
    | cons y xs ih =>
      rw [List.foldl_cons, ih]
      by_cases hy : y ∈ seen
      · have hcontains : seen.contains y = true := List.contains_iff_mem.mpr hy
        rw [if_pos hcontains, List.mem_cons]
        constructor
        · rintro (h | h)
          · exact .inl h
          · exact .inr (.inr h)
        · rintro (h | rfl | h)
          · exact .inl h
          · exact .inl hy
          · exact .inr h
      · have hcontains : ¬ seen.contains y = true := fun h => hy (List.contains_iff_mem.mp h)
        rw [if_neg hcontains, List.mem_append, List.mem_singleton, List.mem_cons, or_assoc]
  exact (hfold []).trans (by simp)

/-- Texts that do not repeat are kept as they are. -/
theorem distinct_of_nodup (h : xs.Nodup) : distinct xs = xs := by
  have hfold (seen : List String) (hnodup : (seen ++ xs).Nodup) :
      xs.foldl (fun seen y => if seen.contains y then seen else seen ++ [y]) seen = seen ++ xs := by
    clear h
    induction xs generalizing seen with
    | nil => simp
    | cons x xs ih =>
      have hx : ¬ seen.contains x = true := by
        rw [List.contains_iff_mem]
        exact fun hmem => (List.nodup_append.mp hnodup).2.2 x hmem x List.mem_cons_self rfl
      rw [List.foldl_cons, if_neg hx, ih _ (by simpa using hnodup), List.append_assoc]
      rfl
  exact hfold [] h

theorem nodup_distinct (xs : List String) : (distinct xs).Nodup := by
  have hfold (seen : List String) (hseen : seen.Nodup) :
      (xs.foldl (fun seen y => if seen.contains y then seen else seen ++ [y]) seen).Nodup := by
    induction xs generalizing seen with
    | nil => exact hseen
    | cons x xs ih =>
      rw [List.foldl_cons]
      split
      · exact ih seen hseen
      · rename_i hx
        refine ih _ (List.nodup_append.mpr ⟨hseen, by simp, ?_⟩)
        rintro y hy _ (_ | _) rfl
        · exact hx (List.contains_iff_mem.mpr hy)
        · contradiction
  exact hfold [] List.nodup_nil

/-- Repetitions may be dropped from the texts in front. -/
theorem distinct_append (xs ys : List String) :
    distinct (distinct xs ++ ys) = distinct (xs ++ ys) := by
  have hfront : distinct (distinct xs) = distinct xs := distinct_of_nodup (nodup_distinct xs)
  unfold distinct at hfront ⊢
  rw [List.foldl_append, List.foldl_append, hfront]

/-- Texts without repetitions stand in the order of their first occurrences. -/
theorem pairwise_distinct (xs : List String) :
    (distinct xs).Pairwise fun x y => xs.idxOf x < xs.idxOf y := by
  have hfold (before rest seen : List String) (hxs : xs = before ++ rest)
      (hmem : ∀ x, x ∈ seen ↔ x ∈ before)
      (hseen : seen.Pairwise fun x y => xs.idxOf x < xs.idxOf y) :
      (rest.foldl (fun seen x => if seen.contains x then seen else seen ++ [x]) seen).Pairwise
        fun x y => xs.idxOf x < xs.idxOf y := by
    induction rest generalizing before seen with
    | nil => exact hseen
    | cons x rest ih =>
      rw [List.foldl_cons]
      have hsplit : xs = (before ++ [x]) ++ rest := by rw [hxs, List.append_assoc]; rfl
      split
      · rename_i hx
        have hx : x ∈ seen := List.contains_iff_mem.mp hx
        apply ih (before ++ [x]) seen hsplit _ hseen
        intro y
        rw [List.mem_append, List.mem_singleton, hmem y]
        refine ⟨.inl, fun h => h.elim id ?_⟩
        rintro rfl
        exact (hmem y).mp hx
      · rename_i hx
        have hx : x ∉ before := fun h => hx (List.contains_iff_mem.mpr ((hmem x).mpr h))
        refine ih (before ++ [x]) (seen ++ [x]) hsplit ?_ ?_
        · intro y
          rw [List.mem_append, List.mem_append, hmem y]
        · rw [List.pairwise_append]
          refine ⟨hseen, List.pairwise_singleton _ _, fun y hy z hz => ?_⟩
          obtain rfl := List.mem_singleton.mp hz
          have hy : y ∈ before := (hmem y).mp hy
          rw [hxs, List.idxOf_append_of_mem hy, List.idxOf_append_of_notMem hx, List.idxOf_cons_self]
          exact Nat.lt_of_lt_of_le (List.idxOf_lt_length_iff.mpr hy) (Nat.le_add_right _ _)
  exact hfold [] xs [] rfl (by simp) List.Pairwise.nil

@[simp] theorem mem_sorted : x ∈ sorted xs ↔ x ∈ xs := (List.mergeSort_perm xs _).mem_iff

theorem nodup_sorted (h : xs.Nodup) : (sorted xs).Nodup := (List.mergeSort_perm xs _).nodup_iff.mpr h

end RowGate.Text
