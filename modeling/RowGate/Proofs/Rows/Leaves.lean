import Mathlib.Data.List.Forall2
import RowGate.Proofs.Value.Records
import RowGate.Rows.Transform
/-!
Rows whose maps are flattened. Main statement: such a row has a column for each path to a leaf, at the
place of the first leaf on it, with the last one; no map with fields is left in it, and flattening it
again changes nothing.
-/
namespace RowGate.Rows

/-! ## Leaves and paths -/

/-- A map with fields is no leaf. -/
def IsLeaf : Value → Prop
  | .map (_ :: _) => False
  | _ => True

mutual

/-- The leaves of a value in depth-first order, each with the keys on the way to it. -/
def leavesOf : Value → List (List String × Value)
  | .map (f :: fs) => leavesIn (f :: fs)
  | v => [([], v)]

/-- The leaves of the fields of a map. -/
def leavesIn : List (String × Value) → List (List String × Value)
  | [] => []
  | (k, v) :: rest => (leavesOf v).map (fun l => (k :: l.1, l.2)) ++ leavesIn rest

end

/-- The column for a path: its keys with an underscore between them, from the first that is not
empty on. -/
def columnAt (path : List String) : String := String.intercalate "_" (path.dropWhile (·.isEmpty))

/-- A row that has the leaves of another: each under the column for its path, which stands where the
first leaf on it came up, the last of them in it. -/
structure HasLeaves (row out : Record) : Prop where
  columns : out.keys = ((leavesIn row).map fun l => columnAt l.1).eraseDups
  values : ∀ e ∈ out, ∃ before path after, leavesIn row = before ++ (path, e.2) :: after ∧
    columnAt path = e.1 ∧ ∀ l ∈ after, columnAt l.1 ≠ e.1
  isLeaf : ∀ e ∈ out, IsLeaf e.2

/-- From a path that is not empty, each key follows an underscore. -/
theorem foldl_below {path : String} (hpath : ¬ path.isEmpty) (keys : List String) :
    keys.foldl below path = String.intercalate "_" (path :: keys) := by
  induction keys generalizing path with
  | nil => simp
  | cons k keys ih =>
    have hnext : ¬ (path ++ "_" ++ k).isEmpty := by
      simp
    rw [List.foldl_cons, below, if_neg hpath, ih hnext, String.intercalate_cons_append,
      String.intercalate_cons_cons]

theorem foldl_below_empty (keys : List String) : keys.foldl below "" = columnAt keys := by
  induction keys with
  | nil => rfl
  | cons k keys ih =>
    have hbelow : below "" k = k := rfl
    rw [List.foldl_cons, hbelow]
    by_cases hk : k.isEmpty
    · rw [columnAt, List.dropWhile_cons_of_pos hk, String.isEmpty_iff.mp hk]
      exact ih
    · rw [columnAt, List.dropWhile_cons_of_neg hk, foldl_below hk]

/-! ## A row and its leaves -/

/-- Leaves with their paths from a path on. -/
def leavesFrom (path : String) (leaves : List (List String × Value)) : Record :=
  leaves.map fun l => (l.1.foldl below path, l.2)

theorem leavesFrom_deeper (path key : String) (leaves : List (List String × Value)) :
    leavesFrom path (leaves.map fun l => (key :: l.1, l.2)) = leavesFrom (below path key) leaves := by
  simp [leavesFrom]

mutual

/-- The leaves of a value are laid over what is there, in order. -/
theorem putLeaves_eq (into : Record) (path : String) :
    (v : Value) → putLeaves into path v = into.overlay (leavesFrom path (leavesOf v))
  | .map (f :: fs) => by
    rw [putLeaves, leavesOf]
    exact putLeavesUnder_eq into path (f :: fs)
  | .map [] | .null | .bool _ | .number _ | .text _ | .bytes _ | .moment _ | .uuid _ | .list _
  | .tuple _ | .set _ | .formula _ | .foreign => rfl

theorem putLeavesUnder_eq (into : Record) (path : String) :
    (fields : List (String × Value)) →
      putLeavesUnder into path fields = into.overlay (leavesFrom path (leavesIn fields))
  | [] => rfl
  | (k, v) :: rest => by
    rw [putLeavesUnder, leavesIn, putLeavesUnder_eq, putLeaves_eq, ← leavesFrom_deeper,
      ← Record.overlay_append, leavesFrom, leavesFrom, leavesFrom, List.map_append]

end

/-- A row is flattened to its leaves, each put under the column for its path. -/
theorem flattenRow_eq (row : Record) :
    flattenRow row = Record.overlay [] ((leavesIn row).map fun l => (columnAt l.1, l.2)) := by
  have hunder (into : Record) : row.foldl (fun into e => putLeaves into e.1 e.2) into =
      putLeavesUnder into "" row := by
    induction row generalizing into with
    | nil => rfl
    | cons e row ih => exact ih (putLeaves into e.1 e.2)
  simp only [← foldl_below_empty]
  exact (hunder []).trans (putLeavesUnder_eq [] "" row)

mutual

theorem isLeaf_of_mem_leavesOf : (v : Value) → ∀ l ∈ leavesOf v, IsLeaf l.2
  | .map (f :: fs) => isLeaf_of_mem_leavesIn (f :: fs)
  | .map [] | .null | .bool _ | .number _ | .text _ | .bytes _ | .moment _ | .uuid _ | .list _
  | .tuple _ | .set _ | .formula _ | .foreign => fun _ hl => List.mem_singleton.mp hl ▸ trivial

theorem isLeaf_of_mem_leavesIn : (fields : List (String × Value)) → ∀ l ∈ leavesIn fields, IsLeaf l.2
  | [] => fun _ hl => nomatch hl
  | (k, v) :: rest => by
    intro l hl
    rw [leavesIn, List.mem_append, List.mem_map] at hl
    obtain ⟨leaf, hleaf, rfl⟩ | hl := hl
    · exact isLeaf_of_mem_leavesOf v leaf hleaf
    · exact isLeaf_of_mem_leavesIn rest l hl

end

/-- A column holds the last leaf whose path names it. -/
theorem last_leaf {row : Record} {e : String × Value} (he : e ∈ flattenRow row) :
    ∃ before path after, leavesIn row = before ++ (path, e.2) :: after ∧
      columnAt path = e.1 ∧ ∀ l ∈ after, columnAt l.1 ≠ e.1 := by
  rw [flattenRow_eq] at he
  obtain ⟨before, after, hrow, hafter⟩ := Record.last_of_mem_overlay he
  obtain ⟨leaves, rest, hleaves, rfl, hrest⟩ := List.map_eq_append_iff.mp hrow
  obtain ⟨leaf, later, rfl, hleaf, rfl⟩ := List.map_eq_cons_iff.mp hrest
  obtain ⟨hcolumn, hvalue⟩ := Prod.mk.inj hleaf
  refine ⟨leaves, leaf.1, later, by rw [hleaves, ← hvalue], hcolumn, fun l hl hcolumn => hafter ?_⟩
  rw [Record.keys, List.map_map]
  exact List.mem_map.mpr ⟨l, hl, hcolumn⟩

theorem hasLeaves_flattenRow (row : Record) : HasLeaves row (flattenRow row) where
  columns := by
    rw [flattenRow_eq, Record.keys_overlay, Record.keys, List.map_map]
    rfl
  values _ he := last_leaf he
  isLeaf e he := by
    obtain ⟨before, path, after, hrow, -, -⟩ := last_leaf he
    have hmem : (path, e.2) ∈ leavesIn row := by rw [hrow]; simp
    exact isLeaf_of_mem_leavesIn row _ hmem

/-! ## Rows without maps inside -/

theorem leavesOf_isLeaf {v : Value} (h : IsLeaf v) : leavesOf v = [([], v)] := by
  cases v with
  | map fields =>
    cases fields with
    | nil => rfl
    | cons => exact h.elim
  | _ => rfl

/-- A row without maps inside is its own leaves. -/
theorem leavesIn_isLeaf {row : Record} (h : ∀ e ∈ row, IsLeaf e.2) :
    leavesIn row = row.map fun e => ([e.1], e.2) := by
  induction row with
  | nil => rfl
  | cons e row ih =>
    obtain ⟨hv, hrow⟩ := List.forall_mem_cons.mp h
    rw [leavesIn, leavesOf_isLeaf hv, ih hrow]
    rfl

theorem columnAt_singleton (key : String) : columnAt [key] = key := foldl_below_empty [key] ▸ rfl

theorem flattenRow_isLeaf {row : Record} (hkeys : row.keys.Nodup) (h : ∀ e ∈ row, IsLeaf e.2) :
    flattenRow row = row := by
  rw [flattenRow_eq, leavesIn_isLeaf h, List.map_map]
  simp only [Function.comp_def, columnAt_singleton, List.map_id']
  exact Record.overlay_eq_self hkeys

theorem flattenRow_flattenRow (row : Record) : flattenRow (flattenRow row) = flattenRow row := by
  have hempty : (Record.keys []).Nodup := List.nodup_nil
  refine flattenRow_isLeaf ?_ (hasLeaves_flattenRow row).isLeaf
  rw [flattenRow_eq]
  exact Record.nodup_overlay hempty _

/-- Each row is flattened to a row that has its leaves. Rows that are flattened stay as they are when
they are flattened again. -/
theorem rows_flattened_to_leaves (rows : List Record) :
    List.Forall₂ HasLeaves rows (flatten rows) ∧ flatten (flatten rows) = flatten rows := by
  constructor
  · rw [flatten, List.forall₂_map_right_iff]
    exact List.forall₂_same.mpr fun row _ => hasLeaves_flattenRow row
  · rw [flatten, flatten, List.map_map]
    exact List.map_congr_left fun row _ => flattenRow_flattenRow row

/-- An empty map is a leaf; of two leaves with one name the last counts, at the place of the first. -/
example : flatten [[("a", .map [("b", .int 1), ("c", .map [])]), ("", .map [("d", .int 2)]),
      ("a_b", .int 3)]] =
    [[("a_b", .int 3), ("a_c", .map []), ("d", .int 2)]] := by cbv

end RowGate.Rows
