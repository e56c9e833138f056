import Mathlib.Data.Multiset.Filter
import RowGate.Engine.Basic
import RowGate.Value.Equality
/-!
What statements on a single table do to its rows, and engines that keep a table: they carry out the
statements that can be written. Rows have no order, and two of them may be alike.
-/
namespace RowGate

namespace Sql

/-- The rows of a table. -/
abbrev Rows := Multiset Record

/-- Whether a row is under a key. -/
def RowKey.marks (k : RowKey) (row : Record) : Bool := (row.get k.column).same k.value

/-- The rows under a key. -/
def Rows.under (rows : Rows) (k : RowKey) : Rows := rows.filter (k.marks ·)

/-- What a fetch takes of a row. -/
def Fetch.taken (f : Fetch) (row : Record) : Record :=
  match f.only with
  | some column => [(column, row.get column)]
  | none => row

/-- What a column is set to at a time. -/
def Assigned.valueAt (time : Value) : Assigned → Value
  | .value v => v
  | .now => time

/-- A row after an update at a time: one that is not under the key stays as it is. -/
def updated (k : RowKey) (values : List (String × Assigned)) (time : Value) (row : Record) : Record :=
  if k.marks row then row.overlay (values.map fun (c, a) => (c, a.valueAt time)) else row

/-- Whether a change concerns a row that is there: it is under the key of an update or a deletion. -/
def Change.concerns : Change → Record → Bool
  | .update _ k _, row | .delete _ k, row => k.marks row
  | .insert .., _ | .insertAll .., _ => false

/-- A row that was inserted with a record: the columns outside the record have values of their own. -/
def Fills (record row : Record) : Prop := ∀ column ∈ record.keys, row.get column = record.get column

end Sql

namespace Engine

variable {σ : Type}

/-- A question leaves rows behind, and its answer is of some kind. -/
def Question.Does (w : Surroundings Question Question.Answer σ) (rows : σ → Option Sql.Rows) (s : σ)
    (q : Question) (answers : q.Result → Prop) (left : Option Sql.Rows → Prop) : Prop :=
  (∃ a, (w q s).1 = .ok a ∧ answers a) ∧ left (rows (w q s).2)

/-- An engine keeps a table, which it may have to create: it carries out the statements on it. A row
is inserted where no other has the value of its key. -/
structure Keeps (w : Surroundings Question Question.Answer σ) (t : Sql.Table) (key : String)
    (rows : σ → Option Sql.Rows) : Prop where
  connect : ∀ s, Question.connect.Does w rows s (fun _ => True) (· = rows s)
  begin_ : ∀ s, Question.begin_.Does w rows s (fun _ => True) (· = rows s)
  create : ∀ s, (Question.create t).Does w rows s (fun _ => True) (· = some ((rows s).getD 0))
  fetch : ∀ s rs only k, rows s = some rs → (Question.fetch ⟨t, only, k⟩).event.isOk →
    (Question.fetch ⟨t, only, k⟩).Does w rows s
      (fun found => (found : Sql.Rows) = (rs.under k).map (Sql.Fetch.taken ⟨t, only, k⟩))
      (· = some rs)
  insert : ∀ s rs record, rows s = some rs → (Question.change (.insert t record)).event.isOk →
    rs.under ⟨key, record.get key⟩ = 0 →
    (Question.change (.insert t record)).Does w rows s (· = (1 : Int))
      (∃ row, Sql.Fills record row ∧ · = some (row ::ₘ rs))
  update : ∀ s rs k values, rows s = some rs → key ∉ values.map (·.1) →
    (Question.change (.update t k values)).event.isOk →
    (Question.change (.update t k values)).Does w rows s (· = ((rs.under k).card : Int))
      (∃ time, · = some (rs.map (Sql.updated k values time)))
  delete : ∀ s rs k, rows s = some rs → (Question.change (.delete t k)).event.isOk →
    (Question.change (.delete t k)).Does w rows s (· = ((rs.under k).card : Int))
      (· = some (rs.filter fun row => ¬ k.marks row))

/-! An engine that does nothing else. -/

/-- An engine with one table that may not be there yet, and a time. -/
def single (time : Value) : Surroundings Question Question.Answer (Option (List Record))
  | .connect, s => (.ok (), s)
  | .begin_, s => (.ok (), s)
  | .create _, s => (.ok (), some (s.getD []))
  | .fetch f, s => (.ok (((s.getD []).filter (f.key.marks ·)).map f.taken), s)
  | .change (.insert _ record), s =>
    (.ok 1, some ((s.getD []) ++ [record ++ [("created_at", time), ("updated_at", time)]]))
  | .change (.insertAll _ records), s => (.ok records.length, some ((s.getD []) ++ records))
  | .change (.update _ k values), s =>
    (.ok ((s.getD []).filter (k.marks ·)).length,
      some ((s.getD []).map (Sql.updated k values time)))
  | .change (.delete _ k), s =>
    (.ok ((s.getD []).filter (k.marks ·)).length, some ((s.getD []).filter (¬ k.marks ·)))
  | .select _, s => (.ok [], s)
  | .scalar _, s => (.ok .null, s)
  | .indexes _, s => (.ok [], s)

/-- Such an engine keeps its table. -/
theorem keeps_single (t : Sql.Table) (key : String) (time : Value) :
    Keeps (single time) t key (Option.map (↑)) where
  connect s := ⟨⟨(), rfl, trivial⟩, rfl⟩
  begin_ s := ⟨⟨(), rfl, trivial⟩, rfl⟩
  create s := ⟨⟨(), rfl, trivial⟩, by cases s <;> rfl⟩
  fetch s rs only k hs _ := by
    obtain ⟨rows, rfl, rfl⟩ := Option.map_eq_some_iff.mp hs
    exact ⟨⟨_, rfl, by simp [Sql.Rows.under]⟩, rfl⟩
  insert s rs record hs _ _ := by
    obtain ⟨rows, rfl, rfl⟩ := Option.map_eq_some_iff.mp hs
    refine ⟨⟨1, rfl, rfl⟩, record ++ [("created_at", time), ("updated_at", time)],
      fun column hcolumn => ?_, ?_⟩
    · obtain ⟨f, hf, rfl⟩ := List.mem_map.mp hcolumn
      cases hfound : record.lookup f.1 with
      | none => simpa using List.lookup_eq_none_iff.mp hfound f hf
      | some v => simp [Record.get, List.lookup_append, hfound]
    · exact congrArg some (Multiset.coe_eq_coe.mpr (List.perm_append_singleton _ rows))
  update s rs k values hs _ _ := by
    obtain ⟨rows, rfl, rfl⟩ := Option.map_eq_some_iff.mp hs
    exact ⟨⟨_, rfl, by simp [Sql.Rows.under]⟩, time, rfl⟩
  delete s rs k hs _ := by
    obtain ⟨rows, rfl, rfl⟩ := Option.map_eq_some_iff.mp hs
    exact ⟨⟨_, rfl, by simp [Sql.Rows.under]⟩, by simp [single]⟩

/-- The rows that a question leaves at such an engine with rows. -/
def left (time : Value) (q : Question) (rows : List Record) : List Record :=
  ((single time q (some rows)).2).getD []

/-- Only a change leaves other rows. -/
theorem left_eq_self {time : Value} {q : Question} (hq : ∀ c, q ≠ .change c) (rows : List Record) :
    left time q rows = rows := by
  cases q with
  | change c => exact absurd rfl (hq c)
  | _ => rfl

/-- A change leaves the rows that it does not concern. -/
theorem mem_left_of_not_concerns {time : Value} {c : Sql.Change} {rows : List Record} {row : Record}
    (hrow : row ∈ rows) (hc : c.concerns row = false) : row ∈ left time (.change c) rows := by
  cases c with
  | insert t record => exact List.mem_append_left _ hrow
  | insertAll t records => exact List.mem_append_left _ hrow
  | update t k values =>
    change k.marks row = false at hc
    refine List.mem_map.mpr ⟨row, hrow, ?_⟩
    simp [Sql.updated, hc]
  | delete t k =>
    change k.marks row = false at hc
    exact List.mem_filter.mpr ⟨hrow, by simp [hc]⟩

end Engine
end RowGate
