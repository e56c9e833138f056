import Mathlib
import RowGate.Proofs.Rows.Classes
import RowGate.Proofs.Value.Records
/-!
Rows that agree in some fields, collapsed to one. Main statement: the first row of each class is left,
in order, with the size of the class and otherwise as it was; the sizes add up to the number of rows,
and neither they nor the classes depend on the order of rows.
-/
namespace RowGate.Rows

/-- Rows agree in some fields, by the texts of their values; a missing field counts as null. -/
def Agree (fields : List String) (r s : Record) : Prop :=
  ∀ f ∈ fields, (r.get f).shown = (s.get f).shown

instance (fields : List String) : DecidableRel (Agree fields) :=
  fun r s => inferInstanceAs (Decidable (∀ f ∈ fields, (r.get f).shown = (s.get f).shown))

/-- A row that stands for a class: it is the first of the class but for the column that counts. -/
structure Counts (fields : List String) (rows : List Record) (first out : Record) : Prop where
  count : out.get countColumn = .int (classOf (Agree fields) rows first).length
  others : out.filter (·.1 != countColumn) = first.filter (·.1 != countColumn)

/-- The classes of rows with what their rows are counted as. -/
def census (fields : List String) (rows : List Record) : List (List String × Value) :=
  List.zipWith (fun first out => (textsOf fields first, out.get countColumn))
    (firsts (Agree fields) rows) (group fields rows)

section

variable {fields : List String} {rows : List Record}

theorem agree_iff {r s : Record} : Agree fields r s ↔ SameKey (textsOf fields) r s := by
  unfold SameKey textsOf
  exact List.map_inj_left.symm

theorem firsts_agree : firsts (Agree fields) rows = firsts (SameKey (textsOf fields)) rows :=
  firsts_congr fun _ _ _ _ => agree_iff

theorem classOf_agree (r : Record) :
    classOf (Agree fields) rows r = classOf (SameKey (textsOf fields)) rows r :=
  classOf_congr fun _ _ => agree_iff

/-- A count goes up by one with each row. -/
theorem foldl_count (first : Record) (members : List Record) (n : Nat) :
    members.foldl (fun (x : Record × Nat) _ => (x.1, x.2 + 1)) (first, n) =
      (first, n + members.length) := by
  induction members generalizing n with
  | nil => rfl
  | cons r members ih =>
    rw [List.foldl_cons, ih, List.length_cons, Nat.add_assoc, Nat.add_comm 1]

/-- Each class is left as its first row with its size. -/
theorem group_eq (fields : List String) (rows : List Record) :
    group fields rows = (firsts (Agree fields) rows).map fun r =>
      r.put countColumn (.int (classOf (Agree fields) rows r).length) := by
  rw [group, gather_eq, firsts_agree, List.map_map]
  refine List.map_congr_left fun r _ => ?_
  rw [classOf_agree, Function.comp_apply, foldl_count, Nat.zero_add]

end

theorem counts_put (fields : List String) (rows : List Record) (r : Record) :
    Counts fields rows r (r.put countColumn (.int (classOf (Agree fields) rows r).length)) where
  count := by rw [Record.get_put, if_pos rfl]
  others := r.filter_put countColumn _

theorem census_eq (fields : List String) (rows : List Record) :
    census fields rows = (firsts (SameKey (textsOf fields)) rows).map fun r =>
      (textsOf fields r, .int (classOf (SameKey (textsOf fields)) rows r).length) := by
  unfold census
  rw [group_eq, List.zipWith_map_right, List.zipWith_self, firsts_agree]
  refine List.map_congr_left fun r _ => ?_
  rw [(counts_put fields rows r).count, classOf_agree]

/-- Rows that agree in some fields are collapsed to the first of each class, in order, which stays as
it is apart from a column with the size of its class. The classes share out the rows, and the sizes
add up to their number. Rows in another order have the same classes, each of the same size. -/
theorem rows_grouped_by_class (fields : List String) (rows : List Record) :
    List.Forall₂ (Counts fields rows) (firsts (Agree fields) rows) (group fields rows) ∧
    ((firsts (Agree fields) rows).flatMap (classOf (Agree fields) rows)).Perm rows ∧
    (∃ sizes : List Nat,
      (group fields rows).map (·.get countColumn) = sizes.map (fun n => .int (n : Nat)) ∧
        sizes.sum = rows.length) ∧
    ∀ rows', rows.Perm rows' → (census fields rows).Perm (census fields rows') := by
  refine ⟨?_, ?_, ⟨(firsts (Agree fields) rows).map fun r =>
    (classOf (Agree fields) rows r).length, ?_, ?_⟩, fun rows' h => ?_⟩
  · rw [group_eq, List.forall₂_map_right_iff]
    exact List.forall₂_same.mpr fun r _ => counts_put fields rows r
  · have hclass : classOf (Agree fields) rows = classOf (SameKey (textsOf fields)) rows :=
      funext classOf_agree
    rw [firsts_agree, hclass]
    exact classes_perm (textsOf fields) rows
  · rw [group_eq, List.map_map, List.map_map]
    exact List.map_congr_left fun r _ => (counts_put fields rows r).count
  · rw [firsts_agree, ← sum_classes (textsOf fields) rows]
    simp only [classOf_agree]
  · have hsizes := (sizes_perm (textsOf fields) h).map fun c =>
      (c.1, Value.int (c.2 : Nat))
    simpa only [census_eq, List.map_map, Function.comp_def] using hsizes

/-- Sales by region, in two orders. -/
theorem sales_counted_by_region :
    let sales : List Record := [
      [("region", .text "eu"), ("quarter", .text "q1")],
      [("region", .text "us"), ("quarter", .text "q1")],
      [("region", .text "eu"), ("quarter", .text "q2")]]
    sales.Perm sales.reverse ∧
      (census ["region"] sales).Perm (census ["region"] sales.reverse) ∧
      group ["region"] sales = [
        [("region", .text "eu"), ("quarter", .text "q1"), ("_count", .int 2)],
        [("region", .text "us"), ("quarter", .text "q1"), ("_count", .int 1)]] := by
  intro sales
  have hperm : sales.Perm sales.reverse := (List.reverse_perm sales).symm
  obtain ⟨-, -, -, horder⟩ := rows_grouped_by_class ["region"] sales
  exact ⟨hperm, horder _ hperm, by cbv⟩

end RowGate.Rows
