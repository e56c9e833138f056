import Mathlib
import RowGate.Proofs.Rows.Classes
import RowGate.Proofs.Sequence
import RowGate.Proofs.Value.Records
/-!
Values of a column turned into columns. Main statement: each class of rows that agree in the fields
that stay is one row, in the order of the first rows, with an aggregate for each column that the class
has rows for, and nothing under a listed column without rows; the fields that stay are as they were
unless a column has their name. Where rows are counted, the cells add up to all rows.
-/
namespace RowGate.Rows

/-- The fields of a row that stay, with the texts of their values. -/
def shownRest (p : Pivot) (row : Record) : List (String × String) :=
  (rest p row).map fun (k, v) => (k, v.shown)

/-- Rows agree in the fields that stay: they have the same ones, with the same texts. -/
def SameRest (p : Pivot) (r s : Record) : Prop := (shownRest p r).Perm (shownRest p s)

instance (p : Pivot) : DecidableRel (SameRest p) :=
  fun r s => inferInstanceAs (Decidable ((shownRest p r).Perm (shownRest p s)))

/-- The values to aggregate in a column, in order. -/
def valuesIn (p : Pivot) (members : List Record) (column : String) : List Value :=
  (members.filter fun r => decide (columnOf p r = column)).map (·.get p.aggregate.field)

/-- The columns that rows are spread over, each once. -/
def columnsOf (p : Pivot) (members : List Record) : List String :=
  (firsts (SameKey (columnOf p)) members).map (columnOf p)

/-- A row that stands for a class. Columns have an aggregate over the rows of the class that belong to
them, or null; other fields are those of the first row that stay. -/
structure Spreads (p : Pivot) (members : List Record) (first out : Record) : Prop where
  found : ∀ r ∈ members, ∃ v, combine p.aggregate.type (valuesIn p members (columnOf p r)) = .ok v ∧
    out.get? (columnOf p r) = some v
  listed : ∀ c ∈ p.values, (∀ r ∈ members, columnOf p r ≠ c) → out.get? c = some .null
  kept : ∀ k, k ∉ p.values → (∀ r ∈ members, columnOf p r ≠ k) →
    out.get? k = if k = p.column ∨ k = p.aggregate.field then none else first.get? k
  nodup : out.keys.Nodup

/-- The number in a cell; an empty cell counts for nothing. -/
def cellCount : Value → Nat
  | .number (.int n) => n.toNat
  | _ => 0

/-- The sum of the cells of a class. -/
def cellSum (p : Pivot) (members : List Record) (out : Record) : Nat :=
  ((p.values ++ members.map (columnOf p)).dedup.map fun c => cellCount (out.get c)).sum

section

variable {p : Pivot} {rows members : List Record} {r s : Record}

/-! ## Fields that stay -/

theorem get?_rest (p : Pivot) (row : Record) (k : String) :
    (rest p row).get? k = if k = p.column ∨ k = p.aggregate.field then none else row.get? k := by
  have h := row.get?_filter (fun k => k != p.column && k != p.aggregate.field) k
  rw [rest, h]
  by_cases hcolumn : k = p.column <;> by_cases hfield : k = p.aggregate.field <;>
    simp [hcolumn, hfield]

theorem nodup_rest (h : r.keys.Nodup) : (rest p r).keys.Nodup :=
  h.sublist (List.filter_sublist.map _)

/-- The key of a row is an ordered form of the fields that stay. -/
theorem restKey_perm (p : Pivot) (row : Record) : (restKey p row).Perm (shownRest p row) :=
  List.mergeSort_perm _ _

/-- Rows with distinct names of fields have one key exactly if they agree in the fields that stay. -/
theorem restKey_eq_iff (hr : r.keys.Nodup) : restKey p r = restKey p s ↔ SameRest p r s := by
  constructor
  · intro h
    exact (restKey_perm p r).symm.trans (h ▸ restKey_perm p s)
  · intro h
    have hsorted (row : Record) : (restKey p row).Pairwise fun a b => a.1 ≤ b.1 := by
      refine (List.pairwise_mergeSort (fun a b c hab hbc => ?_) (fun a b => ?_) _).imp of_decide_eq_true
      · exact decide_eq_true (String.le_trans (of_decide_eq_true hab) (of_decide_eq_true hbc))
      · simpa using String.le_total a.1 b.1
    have hnames : ((shownRest p r).map (·.1)).Nodup := by
      have hkeys : (shownRest p r).map (·.1) = (rest p r).keys := by
        simp [shownRest, Record.keys]
      exact hkeys ▸ nodup_rest hr
    have hperm : (restKey p r).Perm (restKey p s) :=
      (restKey_perm p r).trans (h.trans (restKey_perm p s).symm)
    refine hperm.eq_of_pairwise (fun a b ha hb hab hba => ?_) (hsorted r) (hsorted s)
    exact List.inj_on_of_nodup_map hnames ((restKey_perm p r).subset ha)
      ((restKey_perm p r).subset (hperm.symm.subset hb)) (String.le_antisymm hab hba)

theorem firsts_restKey (hrows : ∀ r ∈ rows, r.keys.Nodup) :
    firsts (SameKey (restKey p)) rows = firsts (SameRest p) rows :=
  firsts_congr fun r hr _ _ => restKey_eq_iff (hrows r hr)

theorem classOf_restKey (hrows : ∀ r ∈ rows, r.keys.Nodup) (r : Record) :
    classOf (SameKey (restKey p)) rows r = classOf (SameRest p) rows r :=
  classOf_congr fun s hs => restKey_eq_iff (hrows s hs)

/-! ## Cells of a class -/

theorem mem_columnsOf {c : String} : c ∈ columnsOf p members ↔ ∃ r ∈ members, columnOf p r = c := by
  rw [columnsOf, mem_map_firsts, List.mem_map]

theorem foldl_values (p : Pivot) (members : List Record) (vs : List Value) :
    members.foldl (fun vs r => vs ++ [r.get p.aggregate.field]) vs =
      vs ++ members.map (·.get p.aggregate.field) := by
  induction members generalizing vs with
  | nil => simp
  | cons r members ih =>
    rw [List.foldl_cons, ih, List.map_cons, List.append_assoc, List.singleton_append]

/-- Row by row, the values of each column are collected. -/
theorem foldl_addCell (p : Pivot) (members : List Record) :
    members.foldl (addCell p) [] = (columnsOf p members).map fun c => (c, valuesIn p members c) := by
  have hgather : members.foldl (addCell p) [] =
      gather (columnOf p) (fun _ => []) (fun vs r => vs ++ [r.get p.aggregate.field]) members := rfl
  rw [hgather, gather_eq, columnsOf, List.map_map]
  refine List.map_congr_left fun r _ => ?_
  rw [foldl_values, List.nil_append]
  rfl

theorem foldl_class (p : Pivot) (base : Record) (members : List Record)
    (cells : List (String × List Value)) :
    members.foldl (fun (x : Record × List (String × List Value)) r => (x.1, addCell p x.2 r))
      (base, cells) = (base, members.foldl (addCell p) cells) := by
  induction members generalizing cells with
  | nil => rfl
  | cons r members ih => rw [List.foldl_cons, ih, List.foldl_cons]

/-- A class becomes a row with the cells of its columns. -/
theorem pivot_eq (hrows : ∀ r ∈ rows, r.keys.Nodup) :
    let wanted := rows.filter (isWanted p)
    pivot p rows = (firsts (SameRest p) wanted).mapM fun first =>
      let members := classOf (SameRest p) wanted first
      pivotRow p (rest p first) ((columnsOf p members).map fun c => (c, valuesIn p members c)) := by
  intro wanted
  have hwanted : ∀ r ∈ wanted, r.keys.Nodup := fun r hr => hrows r (List.mem_of_mem_filter hr)
  have hclasses : gather (restKey p) (fun r => (rest p r, []))
        (fun x r => (x.1, addCell p x.2 r)) wanted =
      (firsts (SameRest p) wanted).map fun first =>
        let members := classOf (SameRest p) wanted first
        (restKey p first, rest p first,
          (columnsOf p members).map fun c => (c, valuesIn p members c)) := by
    rw [gather_eq, firsts_restKey hwanted]
    refine List.map_congr_left fun first _ => ?_
    rw [foldl_class, foldl_addCell, classOf_restKey hwanted]
  change (gather (restKey p) (fun r => (rest p r, []))
    (fun x r => (x.1, addCell p x.2 r)) wanted).mapM _ = _
  rw [hclasses, List.mapM_map]
  rfl

/-! ## A class as one row -/

/-- The aggregates of some columns. -/
theorem aggregates {columns : List String} {values : String → Except Fault Value} {found : Record}
    (h : columns.mapM (fun c => do return (c, ← values c)) = .ok found) :
    found.keys = columns ∧ ∀ c ∈ columns, ∃ v, values c = .ok v ∧ (c, v) ∈ found := by
  have hall := mapM_eq_ok_iff.mp h
  clear h
  induction hall with
  | nil => exact ⟨rfl, List.forall_mem_nil _⟩
  | cons hc _ ih =>
    obtain ⟨v, hv, hcell⟩ := sequence_eq_ok.mp hc
    obtain rfl := pure_answers.mp hcell
    refine ⟨congrArg _ ih.1, List.forall_mem_cons.mpr ⟨⟨v, hv, List.mem_cons_self⟩, fun c hmem => ?_⟩⟩
    obtain ⟨w, hw, hfound⟩ := ih.2 c hmem
    exact ⟨w, hw, List.mem_cons_of_mem _ hfound⟩

theorem exists_pivotRow (p : Pivot) (base : Record) (members : List Record) :
    (∃ out, pivotRow p base ((columnsOf p members).map fun c => (c, valuesIn p members c)) = .ok out) ↔
      ∀ r ∈ members, ∃ v, combine p.aggregate.type (valuesIn p members (columnOf p r)) = .ok v := by
  simp only [pivotRow, List.mapM_map, sequence_eq_ok, pure_answers]
  constructor
  · rintro ⟨out, found, hfound, -⟩ r hr
    obtain ⟨v, hv, -⟩ := (aggregates hfound).2 _ (mem_columnsOf.mpr ⟨r, hr, rfl⟩)
    exact ⟨v, hv⟩
  · intro h
    have hcells : ∀ c ∈ columnsOf p members, ∃ cell : String × Value,
        (do return (c, ← combine p.aggregate.type (valuesIn p members c)) : Except Fault _) =
          .ok cell := by
      intro c hc
      obtain ⟨r, hr, rfl⟩ := mem_columnsOf.mp hc
      obtain ⟨v, hv⟩ := h r hr
      exact ⟨_, sequence_eq_ok.mpr ⟨v, hv, rfl⟩⟩
    obtain ⟨found, hfound⟩ := exists_mapM hcells
    exact ⟨_, found, hfound, rfl⟩

theorem get?_nulls (cs : List String) (c : String) :
    Record.get? (cs.map fun c => (c, Value.null)) c = if c ∈ cs then some .null else none := by
  induction cs with
  | nil => rfl
  | cons d cs ih =>
    rw [List.map_cons, Record.get?_cons, ih]
    by_cases hd : d = c
    · simp [hd]
    · simp [hd, Ne.symm hd]

theorem spreads_of_pivotRow {first out : Record} (hfirst : first.keys.Nodup)
    (h : pivotRow p (rest p first) ((columnsOf p members).map fun c => (c, valuesIn p members c)) =
      .ok out) : Spreads p members first out := by
  simp only [pivotRow, List.mapM_map, sequence_eq_ok, pure_answers] at h
  obtain ⟨found, hfound, rfl⟩ := h
  obtain ⟨hkeys, hcells⟩ := aggregates hfound
  have hreverse : Record.keys found.reverse = (columnsOf p members).reverse := by
    rw [← hkeys]
    exact List.map_reverse
  have hnodup : (Record.keys found.reverse).Nodup := by
    rw [hreverse, List.nodup_reverse]
    exact nodup_firsts (columnOf p) members
  -- what has rows hides what is listed, and both hide the fields that stay
  have hunder (c : String) : (Record.overlay (rest p first)
        (p.values.map (fun c => (c, Value.null)) ++ found)).get? c =
      (Record.get? found.reverse c).or
        (if c ∈ p.values then some .null else (rest p first).get? c) := by
    rw [Record.get?_overlay, List.reverse_append, Record.get?_append, Option.or_assoc,
      ← List.map_reverse, get?_nulls]
    by_cases hc : c ∈ p.values <;> simp [hc]
  have hnone (c : String) (hc : ∀ r ∈ members, columnOf p r ≠ c) :
      Record.get? found.reverse c = none := by
    refine Record.get?_eq_none.mpr fun hmem => ?_
    change c ∈ Record.keys found.reverse at hmem
    rw [hreverse, List.mem_reverse, mem_columnsOf] at hmem
    obtain ⟨r, hr, hcolumn⟩ := hmem
    exact hc r hr hcolumn
  refine ⟨fun r hr => ?_, fun c hc hrows => ?_, fun k hk hrows => ?_, ?_⟩
  · obtain ⟨v, hv, hmem⟩ := hcells _ (mem_columnsOf.mpr ⟨r, hr, rfl⟩)
    refine ⟨v, hv, ?_⟩
    rw [hunder, Record.get?_of_mem hnodup (List.mem_reverse.mpr hmem), Option.some_or]
  · rw [hunder, hnone c hrows, Option.none_or, if_pos hc]
  · rw [hunder, hnone k hrows, Option.none_or, if_neg hk, get?_rest]
  · exact Record.nodup_overlay (nodup_rest hfirst) _

/-! ## Counting cells -/

/-- The cells of a class count its rows. -/
theorem Spreads.cellSum_eq {first out : Record} (h : Spreads p members first out)
    (hcount : p.aggregate.type = "count") : cellSum p members out = members.length := by
  have hcell : ∀ c ∈ (p.values ++ members.map (columnOf p)).dedup,
      cellCount (out.get c) = (members.filter fun r => decide (columnOf p r = c)).length := by
    intro c hc
    by_cases hrows : ∃ r ∈ members, columnOf p r = c
    · obtain ⟨r, hr, rfl⟩ := hrows
      obtain ⟨v, hv, hout⟩ := h.found r hr
      rw [combine, if_pos hcount] at hv
      cases hv
      rw [Record.get_eq, hout]
      simp [cellCount, valuesIn]
    · have hnone : ∀ r ∈ members, columnOf p r ≠ c := fun r hr hrc => hrows ⟨r, hr, hrc⟩
      have hlisted : c ∈ p.values :=
        (List.mem_append.mp (List.mem_dedup.mp hc)).resolve_right fun hmem => by
          obtain ⟨r, hr, hrc⟩ := List.mem_map.mp hmem
          exact hnone r hr hrc
      have hempty : (members.filter fun r => decide (columnOf p r = c)) = [] :=
        List.filter_eq_nil_iff.mpr fun r hr => by simpa using hnone r hr
      rw [Record.get_eq, h.listed c hlisted hnone, hempty]
      rfl
  rw [cellSum, List.map_congr_left hcell]
  exact sum_rows (List.nodup_dedup _) fun r hr =>
    List.mem_dedup.mpr (List.mem_append_right _ (List.mem_map_of_mem hr))

theorem sum_zipWith {α β : Type} {as : List α} {bs : List β} {f : α → β → Nat} {g : α → Nat}
    (h : List.Forall₂ (fun a b => f a b = g a) as bs) :
    (List.zipWith f as bs).sum = (as.map g).sum := by
  induction h with
  | nil => rfl
  | cons hab _ ih => rw [List.zipWith_cons_cons, List.sum_cons, hab, ih, List.map_cons, List.sum_cons]

/-- Rows that agree in the fields that stay are in one class. -/
theorem classOf_rest (h : SameRest p r s) :
    classOf (SameRest p) rows r = classOf (SameRest p) rows s :=
  List.filter_congr fun _ _ => decide_eq_decide.mpr ⟨fun ht => ht.trans h, fun ht => ht.trans h.symm⟩

theorem exists_first (hrows : ∀ r ∈ rows, r.keys.Nodup) (hr : r ∈ rows) :
    ∃ first ∈ firsts (SameRest p) rows, SameRest p r first := by
  rw [← firsts_restKey hrows]
  obtain ⟨first, hfirst, hsame⟩ := List.mem_map.mp
    (mem_map_firsts.mpr (List.mem_map_of_mem (f := restKey p) hr))
  exact ⟨first, hfirst, (restKey_eq_iff (hrows r hr)).mp hsame.symm⟩

theorem sum_members (hrows : ∀ r ∈ rows, r.keys.Nodup) :
    ((firsts (SameRest p) rows).map fun r => (classOf (SameRest p) rows r).length).sum =
      rows.length := by
  rw [← sum_classes (restKey p) rows, firsts_restKey hrows]
  simp only [classOf_restKey hrows]

end

/-- Rows are spread over columns class by class, which succeeds exactly if each aggregate does. A
class is the wanted rows that agree in the fields that stay; it is one row, in the order of the first
rows. Where rows are counted the cells add up to the wanted rows. -/
theorem classes_spread_over_columns (p : Pivot) {rows : List Record}
    (hrows : ∀ r ∈ rows, r.keys.Nodup) :
    let wanted := rows.filter (isWanted p)
    let members := classOf (SameRest p) wanted
    ((∃ out, pivot p rows = .ok out) ↔ ∀ r ∈ wanted, ∃ v,
      combine p.aggregate.type (valuesIn p (members r) (columnOf p r)) = .ok v) ∧
    ∀ out, pivot p rows = .ok out →
      List.Forall₂ (fun first row => Spreads p (members first) first row)
        (firsts (SameRest p) wanted) out ∧
      (p.aggregate.type = "count" →
        (List.zipWith (fun first row => cellSum p (members first) row)
          (firsts (SameRest p) wanted) out).sum = wanted.length) := by
  intro wanted members
  have hwanted : ∀ r ∈ wanted, r.keys.Nodup := fun r hr => hrows r (List.mem_of_mem_filter hr)
  have hfirsts : ∀ r ∈ firsts (SameRest p) wanted, r ∈ wanted := fun r hr => firsts_subset hr
  rw [pivot_eq hrows]
  constructor
  · rw [exists_mapM_iff]
    simp only [exists_pivotRow]
    constructor
    · intro h r hr
      obtain ⟨first, hfirst, hsame⟩ := exists_first hwanted hr
      have hmember : r ∈ classOf (SameRest p) wanted first :=
        List.mem_filter.mpr ⟨hr, decide_eq_true hsame⟩
      have hclass : members r = members first := classOf_rest hsame
      rw [hclass]
      exact h first hfirst r hmember
    · intro h first hfirst r hr
      obtain ⟨hmem, hsame⟩ := List.mem_filter.mp hr
      have hclass : classOf (SameRest p) (rows.filter (isWanted p)) r =
          classOf (SameRest p) (rows.filter (isWanted p)) first :=
        classOf_rest (of_decide_eq_true hsame)
      rw [← hclass]
      exact h r hmem
  · intro out hout
    have hspread : List.Forall₂ (fun first row => Spreads p (members first) first row)
        (firsts (SameRest p) wanted) out := by
      refine List.Forall₂.imp ?_ ((List.forall₂_and_left _ _).mpr ⟨hfirsts, mapM_eq_ok_iff.mp hout⟩)
      rintro first row ⟨hfirst, hrow⟩
      exact spreads_of_pivotRow (hwanted first hfirst) hrow
    refine ⟨hspread, fun hcount => ?_⟩
    rw [sum_zipWith (hspread.imp fun first row h => h.cellSum_eq hcount)]
    exact sum_members hwanted

/-- Sales of two regions over two quarters, counted. -/
theorem sales_spread_over_quarters :
    let p : Pivot := ⟨"quarter", ["q1", "q2"], ⟨"count", "sales", none⟩⟩
    let sales : List Record := [
      [("region", .text "eu"), ("quarter", .text "q1"), ("sales", .int 10)],
      [("region", .text "us"), ("quarter", .text "q2"), ("sales", .int 3)],
      [("region", .text "eu"), ("quarter", .text "q1"), ("sales", .null)]]
    let out : List Record := [
      [("region", .text "eu"), ("q1", .int 2), ("q2", .null)],
      [("region", .text "us"), ("q1", .null), ("q2", .int 1)]]
    (∀ r ∈ sales, r.keys.Nodup) ∧ pivot p sales = .ok out ∧
      List.Forall₂ (fun first row =>
          Spreads p (classOf (SameRest p) (sales.filter (isWanted p)) first) first row)
        (firsts (SameRest p) (sales.filter (isWanted p))) out ∧
      (List.zipWith (fun first row =>
          cellSum p (classOf (SameRest p) (sales.filter (isWanted p)) first) row)
        (firsts (SameRest p) (sales.filter (isWanted p))) out).sum =
          (sales.filter (isWanted p)).length := by
  intro p sales out
  have hsales : ∀ r ∈ sales, r.keys.Nodup := by decide
  have hout : pivot p sales = .ok out := by cbv
  obtain ⟨-, hspread⟩ := classes_spread_over_columns p hsales
  obtain ⟨hclasses, hcount⟩ := hspread out hout
  exact ⟨hsales, hout, hclasses, hcount rfl⟩

/-- A column takes the place of a field that stays if it has its name, and a column that is not listed
stands only in the classes that have rows for it. -/
theorem field_hidden_by_column :
    let p : Pivot := ⟨"quarter", [], ⟨"sum", "sales", none⟩⟩
    pivot p [[("region", .text "eu"), ("quarter", .text "region"), ("sales", .int 1)]] =
        .ok [[("region", .int 1)]] ∧
      pivot p [[("region", .text "eu"), ("quarter", .text "q1"), ("sales", .int 1)],
          [("region", .text "us"), ("quarter", .text "q2"), ("sales", .int 2)]] =
        .ok [[("region", .text "eu"), ("q1", .int 1)], [("region", .text "us"), ("q2", .int 2)]] := by
  intro p
  exact ⟨by cbv, by cbv⟩

end RowGate.Rows
