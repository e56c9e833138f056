import Mathlib.Data.Multiset.MapFold
import RowGate.Access.PermissionTwins
import RowGate.Proofs.Access.Rereading
import RowGate.Proofs.Engine.Keeping
import RowGate.Proofs.Script.Run
/-!
Permissions in a table against permissions in memory. The table has a row for each entry in memory,
with a text that the same rules are read from. Main statement: after any calls, an engine that keeps
the table answers as memory does, and holds one row for each table that has rules in memory.
-/
namespace RowGate

/-! ## Names and columns -/

namespace Entries

variable {α : Type} {es : Entries α} {name : String}

theorem get?_eq_none : es.get? name = none ↔ name ∉ es.names := by
  simp only [get?, names, List.lookup_eq_none_iff, List.mem_map, not_exists, not_and, bne_iff_ne]
  exact ⟨fun h e he hname => h e he hname.symm, fun h e he hname => h e he hname.symm⟩

theorem mem_names {a : α} (h : es.get? name = some a) : name ∈ es.names := by
  by_contra hmem
  rw [get?_eq_none.mpr hmem] at h
  cases h

theorem names_erase (es : Entries α) (name : String) :
    (es.erase name).names = es.names.filter (· != name) := by
  simp [erase, names, List.filter_map, Function.comp_def]

theorem names_insert (es : Entries α) (name : String) (a : α) :
    (es.insert name a).names = name :: es.names.filter (· != name) :=
  congrArg (name :: ·) (names_erase es name)

theorem nodup_erase (h : es.names.Nodup) : (es.erase name).names.Nodup :=
  names_erase es name ▸ h.filter _

theorem nodup_insert (h : es.names.Nodup) (a : α) : (es.insert name a).names.Nodup := by
  rw [names_insert]
  exact List.nodup_cons.mpr ⟨by simp, h.filter _⟩

end Entries

/-! ## Statements that can be written -/

namespace Sql.Writing

variable {α β : Type} {p : Progress} {left left' : Progress → Prop}

/-- Something can be written, and what has been written then has a property. -/
def Succeeds (x : Writing α) (p : Progress) (left : Progress → Prop) : Prop :=
  ∃ a q, x.run p = .ok (a, q) ∧ left q

theorem Succeeds.pure (a : α) (h : left p) : Succeeds (pure a) p left := ⟨a, p, rfl, h⟩

theorem Succeeds.bind {x : Writing α} {f : α → Writing β} (hx : x.Succeeds p left)
    (hf : ∀ a q, left q → (f a).Succeeds q left') : (x >>= f).Succeeds p left' := by
  obtain ⟨a, q, hrun, hq⟩ := hx
  obtain ⟨b, q', hrest, hq'⟩ := hf a q hq
  exact ⟨b, q', run_sequence_eq_ok.mpr ⟨a, q, hrun, hrest⟩, hq'⟩

theorem succeeds_take {name : String} (h : name ∉ p.names) (v : Value) :
    (take name v).Succeeds p fun q => q.counts = p.counts ∧ q.names = name :: p.names := by
  have hfree : ¬ p.names.contains name = true := fun hc => h (List.contains_iff_mem.mp hc)
  have hrun : (take name v).run p = .ok (freeName p.parameters.keys (bindName name),
      { p with
        names := name :: p.names
        parameters := p.parameters ++ [(freeName p.parameters.keys (bindName name), v)] }) := by
    refine run_sequence_eq_ok.mpr ⟨p, p, rfl, ?_⟩
    rw [if_neg hfree]
    rfl
  exact ⟨_, _, hrun, rfl, rfl⟩

end Sql.Writing

/-- Rules that a call puts are read from the interchange format. -/
def PermissionCall.IsRead : PermissionCall → Prop
  | .set _ p => ∃ j : Json, j.isReadable = true ∧ Permissions.read j.toValue = .ok p
  | _ => True

namespace PermissionTable

open Sql Sql.Writing

variable {name table : String} {p : Progress}

theorem run_parameterName (h : p.counts = []) :
    (parameterName nameColumn).run p =
      .ok ("table_name_1", { p with counts := [("table_name", 1)] }) := by
  have hbase : bindBase nameColumn = "table_name" := by decide
  have hnumbered : "table_name" ++ "_" ++ toString 1 = "table_name_1" := by decide
  have hshort : "table_name_1".length ≤ longestName := by decide
  refine run_sequence_eq_ok.mpr ⟨"table_name_1", { p with counts := [("table_name", 1)] }, ?_, ?_⟩
  · refine run_sequence_eq_ok.mpr ⟨p, p, rfl, ?_⟩
    rw [hbase, h]
    exact run_sequence_eq_ok.mpr ⟨_, _, rfl, congrArg (fun s => Except.ok (s, _)) hnumbered⟩
  · rw [if_pos hshort]
    rfl

/-- The test of a key is written where the name of its parameter is free. -/
theorem succeeds_keyTest (hcounts : p.counts = []) (hfree : "table_name_1" ∉ p.names) :
    (test .bound ((declared name).keyTest (keyOf table))).Succeeds p fun _ => True := by
  have hname : (parameterName nameColumn).run p = _ := run_parameterName hcounts
  obtain ⟨parameter, q, htake, -⟩ :=
    succeeds_take (p := { p with counts := [("table_name", 1)] }) hfree (.text table)
  have hvalue : (value .bound nameColumn (.text table)).Succeeds p fun _ => True :=
    ⟨_, _, run_sequence_eq_ok.mpr ⟨_, _, hname, run_sequence_eq_ok.mpr ⟨_, _, htake, rfl⟩⟩, trivial⟩
  exact hvalue.bind fun s q _ => .pure _ trivial

theorem event_fetch (name table : String) :
    (Engine.Question.fetch ⟨declared name, some rulesColumn, keyOf table⟩).event.isOk = true := by
  have htest : (test .bound ((declared name).keyTest (keyOf table))).Succeeds .start fun _ => True :=
    succeeds_keyTest rfl List.not_mem_nil
  obtain ⟨s, q, htest, -⟩ := htest
  simp only [Engine.Question.event, Fetch.select, Select.written, Select.write, writeTables, body,
    condition, Joined.conjunction, criterion, Joined.pieces, List.mapM_cons, List.mapM_nil, piece,
    projection, Table.source, source, count, StateT.run_bind, StateT.run_pure, pure_bind, htest,
    ok_sequence]
  rfl

/-- A change of single rows that can be written leaves an event. -/
theorem event_change {c : Change} (hsingle : ∀ t rs, c ≠ .insertAll t rs)
    (h : c.write.Succeeds .start fun _ => True) : (Engine.Question.change c).event.isOk = true := by
  obtain ⟨s, q, hrun, -⟩ := h
  cases c with
  | insertAll t rs => exact absurd rfl (hsingle t rs)
  | _ =>
    simp only [Engine.Question.event, Engine.ofChange, Change.written, hrun, ok_sequence]
    rfl

theorem succeeds_keyed (hcounts : p.counts = []) (hfree : "table_name_1" ∉ p.names) :
    (Change.keyed (declared name) (keyOf table)).Succeeds p fun _ => True :=
  (succeeds_keyTest hcounts hfree).bind fun _ _ _ => .pure _ trivial

theorem event_delete (name table : String) :
    (Engine.Question.change (.delete (declared name) (keyOf table))).event.isOk = true :=
  event_change (fun _ _ h => by cases h)
    ((succeeds_keyed rfl List.not_mem_nil).bind fun _ _ _ => .pure _ trivial)

/-- The record of a new row. -/
def newRecord (table text : String) : Record :=
  [(nameColumn, .text table), (rulesColumn, .text text)]

/-- What an update of a row sets. -/
def newValues (text : String) : List (String × Assigned) :=
  [(rulesColumn, .value (.text text)), (changedColumn, .now)]

theorem event_insert (name table text : String) :
    (Engine.Question.change (.insert (declared name) (newRecord table text))).event.isOk = true := rfl

/-- The first assignment takes the name of its column, and the key goes on from there. -/
theorem succeeds_update (name table text : String) :
    (Change.writeUpdate (declared name) (keyOf table) (newValues text)).Succeeds .start
      fun _ => True := by
  have hrules : (Change.assignment rulesColumn (.value (.text text))).Succeeds .start
      fun q => q.counts = [] ∧ q.names = [rulesColumn] :=
    (succeeds_take List.not_mem_nil _).bind fun _ _ h => .pure _ h
  have hassignments : ((newValues text).mapM fun c => Change.assignment c.1 c.2).Succeeds .start
      fun q => q.counts = [] ∧ q.names = [rulesColumn] := by
    simp only [newValues, List.mapM_cons, List.mapM_nil]
    refine hrules.bind fun _ q h => ?_
    exact Succeeds.bind (.pure _ h) fun _ _ h => .pure _ h
  have hcolumns : ¬ (newValues text).any (fun c =>
      !(Change.settable (declared name) (keyOf table) (newValues text)).contains c.1) = true := by
    rintro ⟨⟩
  unfold Change.writeUpdate
  dsimp only
  rw [if_neg hcolumns]
  refine Succeeds.bind hassignments fun _ q h => ?_
  have hfree : "table_name_1" ∉ q.names := by
    rw [h.2]
    decide
  exact (succeeds_keyed h.1 hfree).bind fun _ _ _ => .pure _ trivial

theorem event_update (name table text : String) :
    (Engine.Question.change (.update (declared name) (keyOf table) (newValues text))).event.isOk =
      true :=
  event_change (fun _ _ h => by cases h) (succeeds_update name table text)

/-! ## Rows for entries -/

/-- A row stands for the rules of a table. -/
structure StandsFor (row : Record) (table : String) (p : Permissions) : Prop where
  name : row.get nameColumn = .text table
  rules : ∃ s q, row.get rulesColumn = .text s ∧ ofText s = .ok q ∧ p.Same q

/-- Rows hold the same as memory: there is one for each name, and each of them stands for rules. -/
structure Holds (memory : PermissionStore) (rows : Rows) : Prop where
  names : rows.map (·.get nameColumn) = Multiset.ofList (memory.names.map .text)
  rules : ∀ row ∈ rows, ∃ table p, memory.get? table = some p ∧ StandsFor row table p

/-- Rules are read back from their text. -/
theorem ofText_textOf {p : Permissions} (h : p.IsRead) :
    ∃ s, textOf p = .ok s ∧ ofText s = .ok p.inOrder := by
  obtain ⟨j, hj, hparse, hvalue⟩ := (Permissions.isInterchange_toValue h).written ⟨fun _ => none, none⟩
  refine ⟨j.render, ?_, ?_⟩
  · rw [textOf, hj]
  · rw [ofText, hparse]
    exact (congrArg Permissions.read hvalue).trans (Permissions.read_toValue h)

theorem same_text {v : Value} : v.same (.text table) = true ↔ v = .text table := by
  cases v <;> simp [Value.same]

theorem marks_keyOf {row : Record} :
    (keyOf table).marks row = true ↔ row.get nameColumn = .text table := same_text

section

variable {memory : PermissionStore} {rows : Rows} {p : Permissions} {text : String}

/-- The names of the rows that a test of names lets through. -/
theorem Holds.names_filter (h : Holds memory rows) (P : Value → Prop) [DecidablePred P] :
    (rows.filter fun row => P (row.get nameColumn)).map (·.get nameColumn) =
      Multiset.ofList ((memory.names.filter fun name => P (.text name)).map .text) := by
  have hfilter := Multiset.filter_map P (·.get nameColumn) rows
  rw [h.names, Multiset.filter_coe, List.filter_map] at hfilter
  exact hfilter.symm

theorem Holds.under_of_none (h : Holds memory rows) (hnone : memory.get? table = none) :
    rows.under (keyOf table) = 0 := by
  refine Multiset.filter_eq_nil.mpr fun row hrow hmarked => ?_
  obtain ⟨other, q, hfound, hstands⟩ := h.rules row hrow
  have hsame := hstands.name.symm.trans (marks_keyOf.mp hmarked)
  rw [Value.text.injEq] at hsame
  rw [hsame, hnone] at hfound
  cases hfound

/-- The row of a table is the only one under its key. -/
theorem Holds.under_of_some (h : Holds memory rows) (hnodup : memory.names.Nodup)
    (hsome : memory.get? table = some p) :
    ∃ row, rows.under (keyOf table) = {row} ∧ StandsFor row table p := by
  have hmem := Entries.mem_names hsome
  have hnames : (rows.under (keyOf table)).map (·.get nameColumn) = {Value.text table} := by
    have honly : memory.names.filter (fun name => (Value.text name).same (.text table)) = [table] := by
      have hone := List.count_eq_one_of_mem hnodup hmem
      rw [← List.replicate_one, ← hone, ← List.filter_beq]
      exact List.filter_congr fun name _ => by simp [Value.same]
    refine (h.names_filter fun v => v.same (.text table) = true).trans ?_
    simp [honly]
  obtain ⟨row, hrow, hname⟩ := Multiset.map_eq_singleton.mp hnames
  have hheld : row ∈ rows := (Multiset.mem_filter.mp (hrow ▸ Multiset.mem_singleton_self row)).1
  obtain ⟨other, q, hfound, hstands⟩ := h.rules row hheld
  have hsame := hstands.name.symm.trans hname
  rw [Value.text.injEq] at hsame
  rw [hsame] at hfound hstands
  rw [hsome, Option.some.injEq] at hfound
  exact ⟨row, hrow, hfound ▸ hstands⟩

/-- An update without rows under its key changes nothing. -/
theorem map_updated_of_none {k : RowKey} (h : rows.under k = 0) (values : List (String × Assigned))
    (time : Value) : rows.map (updated k values time) = rows := by
  have hkept : ∀ row ∈ rows, updated k values time row = id row := fun row hrow =>
    if_neg (Multiset.filter_eq_nil.mp h row hrow)
  rw [Multiset.map_congr rfl hkept, Multiset.map_id]

theorem standsFor_of_fills {row : Record} {q : Permissions} (hrow : Fills (newRecord table text) row)
    (htext : ofText text = .ok q) (hsame : p.Same q) : StandsFor row table p :=
  ⟨hrow nameColumn (by simp [newRecord, Record.keys]), text, q,
    hrow rulesColumn (by simp [newRecord, Record.keys]), htext, hsame⟩

theorem Holds.insert {row : Record} (h : Holds memory rows) (hnone : memory.get? table = none)
    (hrow : StandsFor row table p) : Holds (memory.insert table p) (row ::ₘ rows) where
  names := by
    have hothers : memory.names.filter (· != table) = memory.names :=
      List.filter_eq_self.mpr fun name hname => bne_iff_ne.mpr fun hsame =>
        Entries.get?_eq_none.mp hnone (hsame ▸ hname)
    rw [Multiset.map_cons, h.names, hrow.name, Entries.names_insert, hothers]
    rfl
  rules other hother := by
    rcases Multiset.mem_cons.mp hother with rfl | hother
    · exact ⟨table, p, Entries.get?_insert_self _ _ _, hrow⟩
    · obtain ⟨name, q, hfound, hstands⟩ := h.rules other hother
      have hne : name ≠ table := fun hsame => by
        rw [hsame, hnone] at hfound
        cases hfound
      exact ⟨name, q, (Entries.get?_insert_of_ne _ hne _).trans hfound, hstands⟩

theorem get_updated (text : String) (time : Value) {row : Record} (hmarked : (keyOf table).marks row = true) :
    (updated (keyOf table) (newValues text) time row).get nameColumn = row.get nameColumn ∧
      (updated (keyOf table) (newValues text) time row).get rulesColumn = .text text := by
  rw [updated, if_pos hmarked]
  simp [newValues, Record.overlay, Record.get_put, Assigned.valueAt, nameColumn, rulesColumn,
    changedColumn]

theorem Holds.update {q old : Permissions} (h : Holds memory rows) (hnodup : memory.names.Nodup)
    (hsome : memory.get? table = some old) (htext : ofText text = .ok q) (hsame : p.Same q)
    (time : Value) :
    Holds (memory.insert table p) (rows.map (updated (keyOf table) (newValues text) time)) where
  names := by
    have hkept (row : Record) :
        (updated (keyOf table) (newValues text) time row).get nameColumn = row.get nameColumn := by
      by_cases hmarked : (keyOf table).marks row = true
      · exact (get_updated text time hmarked).1
      · rw [updated, if_neg hmarked]
    have hperm : (memory.insert table p).names.Perm memory.names := by
      rw [Entries.names_insert, ← hnodup.erase_eq_filter]
      exact (List.perm_cons_erase (Entries.mem_names hsome)).symm
    rw [Multiset.map_map]
    calc rows.map _ = rows.map (·.get nameColumn) := Multiset.map_congr rfl fun row _ => hkept row
      _ = Multiset.ofList (memory.names.map .text) := h.names
      _ = _ := (Multiset.coe_eq_coe.mpr (hperm.map _)).symm
  rules row hrow := by
    obtain ⟨row, hbefore, rfl⟩ := Multiset.mem_map.mp hrow
    obtain ⟨other, r, hfound, hstands⟩ := h.rules row hbefore
    by_cases hmarked : (keyOf table).marks row = true
    · obtain ⟨hname, hrules⟩ := get_updated text time hmarked
      exact ⟨table, p, Entries.get?_insert_self _ _ _, hname.trans (marks_keyOf.mp hmarked),
        text, q, hrules, htext, hsame⟩
    · have hne : other ≠ table := fun hother => hmarked (marks_keyOf.mpr (hother ▸ hstands.name))
      refine ⟨other, r, (Entries.get?_insert_of_ne _ hne _).trans hfound, ?_⟩
      rwa [updated, if_neg hmarked]

theorem Holds.erase (h : Holds memory rows) :
    Holds (memory.erase table) (rows.filter fun row => ¬ (keyOf table).marks row) where
  names := by
    have hothers : memory.names.filter (fun name => ¬ (Value.text name).same (.text table)) =
        (memory.erase table).names := by
      rw [Entries.names_erase]
      exact List.filter_congr fun name _ => by simp [Value.same, bne, Bool.beq_eq_decide_eq]
    refine (h.names_filter fun v => ¬ v.same (.text table) = true).trans ?_
    rw [hothers]
  rules row hrow := by
    obtain ⟨hrow, hmarked⟩ := Multiset.mem_filter.mp hrow
    obtain ⟨other, r, hfound, hstands⟩ := h.rules row hrow
    have hne : other ≠ table := fun hother => hmarked (marks_keyOf.mpr (hother ▸ hstands.name))
    exact ⟨other, r, (Entries.get?_erase_of_ne _ hne).trans hfound, hstands⟩

end

/-! ## Calls -/

section

variable {σ : Type} {w : Surroundings Engine.Question Engine.Question.Answer σ}
  {rows : σ → Option Rows} {b : Bool} {s : σ} {rs : Rows}

/-- A question to the engine that is answered, and the rows that it leaves behind. -/
theorem runIn_engine {q : Engine.Question} {answers : q.Result → Prop}
    {left : Option Rows → Prop} (h : q.Does w rows s answers left) :
    ∃ a s', (engine q).runIn (withEngine w) (b, s) = (.ok a, b, s') ∧ answers a ∧ left (rows s') := by
  obtain ⟨⟨a, hanswer, ha⟩, hleft⟩ := h
  exact ⟨a, (w q s).2, congrArg (·, b, (w q s).2) hanswer, ha, hleft⟩

variable (h : Engine.Keeps w (declared name) nameColumn rows)
include h

/-- Before a call, the table is created unless it is there. -/
theorem runIn_prepare (hready : b = true → rows s = some rs) (hrs : (rows s).getD 0 = rs) :
    ∃ s', (prepare (declared name)).runIn (withEngine w) (b, s) = (.ok (), true, s') ∧
      rows s' = some rs := by
  have hask : (Asking.ask Question.isReady).runIn (withEngine w) (b, s) = (.ok b, b, s) := rfl
  unfold prepare
  rw [Asking.runIn_bind_ok hask]
  cases b with
  | true => exact ⟨s, rfl, hready rfl⟩
  | false =>
    obtain ⟨⟨⟩, s₁, hbegin, -, hs₁⟩ := runIn_engine (b := false) (h.begin_ s)
    obtain ⟨⟨⟩, s₂, hcreate, -, hs₂⟩ := runIn_engine (b := false) (h.create s₁)
    rw [hs₁, hrs] at hs₂
    refine ⟨s₂, ?_, hs₂⟩
    rw [if_neg Bool.false_ne_true, Asking.runIn_bind_ok hbegin, Asking.runIn_bind_ok hcreate]
    rfl

omit h in
/-- A call on a table that holds the same as memory is answered as in memory, and the table goes on
holding the same. -/
def AnswersAlike (w : Surroundings Engine.Question Engine.Question.Answer σ) (name : String)
    (rows : σ → Option Rows) (memory : PermissionStore) (table : Bool × σ) (c : PermissionCall) :
    Prop :=
  ∃ o s' rs, (perform (declared name) c).runIn (withEngine w) table = (.ok o, true, s') ∧
    Option.Rel Permissions.Same (memory.answer c).1 o ∧ rows s' = some rs ∧
      Holds (memory.answer c).2 rs

variable {memory : PermissionStore} (hready : b = true → rows s = some rs)
  (hrs : (rows s).getD 0 = rs) (hheld : Holds memory rs)
include hready hrs hheld

theorem answersAlike_get (hnodup : memory.names.Nodup) (table : String) :
    AnswersAlike w name rows memory (b, s) (.get table) := by
  obtain ⟨s₁, hprepare, hs₁⟩ := runIn_prepare h hready hrs
  obtain ⟨⟨⟩, s₂, hconnect, -, hs₂⟩ := runIn_engine (b := true) (h.connect s₁)
  obtain ⟨found, s₃, hfetch, hfound, hs₃⟩ := runIn_engine (b := true)
    (h.fetch s₂ rs _ _ (hs₂.trans hs₁) (event_fetch name table))
  cases hmem : memory.get? table with
  | none =>
    rw [hheld.under_of_none hmem, Multiset.map_zero, Multiset.coe_eq_zero] at hfound
    subst hfound
    refine ⟨none, s₃, rs, ?_, (congrArg (Option.Rel _ · _) hmem).mpr .none, hs₃, hheld⟩
    rw [perform, get?, Asking.runIn_bind_ok hprepare, Asking.runIn_bind_ok hconnect,
      Asking.runIn_bind_ok hfetch]
    rfl
  | some p =>
    obtain ⟨row, hrow, hstands⟩ := hheld.under_of_some hnodup hmem
    obtain ⟨text, q, htext, hq, hsame⟩ := hstands.rules
    rw [hrow, Multiset.map_singleton, Multiset.coe_eq_singleton] at hfound
    subst hfound
    have hofRow : ofRow [(rulesColumn, row.get rulesColumn)] = .ok (some q) := by
      have hget : Record.get [(rulesColumn, row.get rulesColumn)] rulesColumn = .text text := htext
      rw [ofRow, hget]
      exact congrArg (· >>= fun p => pure (some p)) hq
    refine ⟨some q, s₃, rs, ?_, (congrArg (Option.Rel _ · _) hmem).mpr (.some hsame), hs₃, hheld⟩
    rw [perform, get?, Asking.runIn_bind_ok hprepare, Asking.runIn_bind_ok hconnect,
      Asking.runIn_bind_ok hfetch]
    exact (Asking.runIn_lift _ _).trans (congrArg (·, true, s₃) hofRow)

theorem answersAlike_erase (table : String) :
    AnswersAlike w name rows memory (b, s) (.erase table) := by
  obtain ⟨s₁, hprepare, hs₁⟩ := runIn_prepare h hready hrs
  obtain ⟨⟨⟩, s₂, hbegin, -, hs₂⟩ := runIn_engine (b := true) (h.begin_ s₁)
  obtain ⟨count, s₃, hdelete, -, hs₃⟩ := runIn_engine (b := true)
    (h.delete s₂ rs (keyOf table) (hs₂.trans hs₁) (event_delete name table))
  refine ⟨none, s₃, _, ?_, .none, hs₃, hheld.erase⟩
  have herase : (PermissionTable.erase (declared name) table).runIn (withEngine w) (b, s) =
      (.ok (), true, s₃) := by
    rw [PermissionTable.erase, Asking.runIn_bind_ok hprepare, Asking.runIn_bind_ok hbegin,
      Asking.runIn_bind_ok hdelete]
    rfl
  rw [perform, Asking.runIn_bind_ok herase]
  rfl

theorem answersAlike_set (hnodup : memory.names.Nodup) (table : String) {p : Permissions}
    (hp : p.IsRead) : AnswersAlike w name rows memory (b, s) (.set table p) := by
  obtain ⟨text, htext, hread⟩ := ofText_textOf hp
  obtain ⟨s₁, hprepare, hs₁⟩ := runIn_prepare h hready hrs
  obtain ⟨⟨⟩, s₂, hbegin, -, hs₂⟩ := runIn_engine (b := true) (h.begin_ s₁)
  obtain ⟨count, s₃, hupdate, hcount, time, hs₃⟩ := runIn_engine (b := true)
    (h.update s₂ rs (keyOf table) (newValues text) (hs₂.trans hs₁)
      (by simp [newValues, nameColumn, rulesColumn, changedColumn]) (event_update name table text))
  have hset : (PermissionTable.set (declared name) table p).runIn (withEngine w) (b, s) =
      ((if count = 0 then do
          let _ ← engine (.change (.insert (declared name) (newRecord table text)))
        else pure () : Storing Unit)).runIn (withEngine w) (true, s₃) := by
    have hlift : (liftM (textOf p) : Storing String).runIn (withEngine w) (true, s₁) =
        (.ok text, true, s₁) := (Asking.runIn_lift _ _).trans (congrArg (·, true, s₁) htext)
    rw [PermissionTable.set, Asking.runIn_bind_ok hprepare, Asking.runIn_bind_ok hlift,
      Asking.runIn_bind_ok hbegin]
    exact Asking.runIn_bind_ok hupdate
  have hanswer {s' : σ} {rs' : Rows}
      (hrun : (PermissionTable.set (declared name) table p).runIn (withEngine w) (b, s) =
        (.ok (), true, s')) (hs' : rows s' = some rs') (hheld' : Holds (memory.insert table p) rs') :
      AnswersAlike w name rows memory (b, s) (.set table p) := by
    refine ⟨none, s', rs', ?_, .none, hs', hheld'⟩
    rw [perform, Asking.runIn_bind_ok hrun]
    rfl
  cases hmem : memory.get? table with
  | none =>
    have hunder := hheld.under_of_none hmem
    rw [hunder, Multiset.card_zero, Nat.cast_zero] at hcount
    rw [map_updated_of_none hunder] at hs₃
    obtain ⟨added, s₄, hinsert, -, row, hfills, hs₄⟩ := runIn_engine (b := true)
      (h.insert s₃ rs (newRecord table text) hs₃ (event_insert name table text) hunder)
    refine hanswer (hset.trans ?_) hs₄
      (hheld.insert hmem (standsFor_of_fills hfills hread p.same_inOrder))
    rw [if_pos hcount, Asking.runIn_bind_ok hinsert]
    rfl
  | some old =>
    obtain ⟨row, hrow, -⟩ := hheld.under_of_some hnodup hmem
    have hone : count ≠ 0 := by
      rw [hcount, hrow, Multiset.card_singleton, Nat.cast_one]
      exact Int.one_ne_zero
    refine hanswer (hset.trans ?_) hs₃
      (hheld.update hnodup hmem hread p.same_inOrder time)
    rw [if_neg hone]
    rfl

end

/-! ## Runs -/

namespace Twins

variable {σ : Type} {w : Surroundings Engine.Question Engine.Question.Answer σ}
  {rows : σ → Option Rows} {twins : Twins σ}

/-- The rows of the table; a table that is not there has none. -/
def rowsOf (rows : σ → Option Rows) (twins : Twins σ) : Rows := (rows twins.table.2).getD 0

/-- The table holds the same as memory. -/
structure Linked (rows : σ → Option Rows) (twins : Twins σ) : Prop where
  nodup : twins.memory.names.Nodup
  ready : twins.table.1 = true → rows twins.table.2 = some (twins.rowsOf rows)
  held : Holds twins.memory (twins.rowsOf rows)

theorem linked_start {s : σ} (hs : (rows s).getD 0 = 0) : (start s).Linked rows where
  nodup := List.nodup_nil
  ready := by rintro ⟨⟩
  held := by
    rw [rowsOf, start, hs]
    exact ⟨rfl, fun row hrow => absurd hrow (Multiset.notMem_zero row)⟩

variable {name : String} {c : PermissionCall}

theorem Linked.answersAlike (hlinked : twins.Linked rows)
    (h : Engine.Keeps w (declared name) nameColumn rows) (hc : c.IsRead) :
    AnswersAlike w name rows twins.memory twins.table c := by
  cases c with
  | get table => exact answersAlike_get h hlinked.ready rfl hlinked.held hlinked.nodup table
  | erase table => exact answersAlike_erase h hlinked.ready rfl hlinked.held table
  | set table p =>
    obtain ⟨j, hj, hp⟩ := hc
    exact answersAlike_set h hlinked.ready rfl hlinked.held hlinked.nodup table
      (Permissions.isRead ⟨j, hj, rfl⟩ hp)

/-- No call makes the table differ from memory. -/
theorem Linked.step (hlinked : twins.Linked rows)
    (h : Engine.Keeps w (declared name) nameColumn rows) (hc : c.IsRead) :
    (twins.step w (declared name) c).Linked rows := by
  obtain ⟨o, s', rs, hrun, -, hs', hheld⟩ := hlinked.answersAlike h hc
  have htable : (twins.step w (declared name) c).table = (true, s') := congrArg (·.2) hrun
  have hrows : (twins.step w (declared name) c).rowsOf rows = rs := by
    rw [rowsOf, htable, hs']
    rfl
  refine ⟨?_, fun _ => ?_, hrows.symm ▸ hheld⟩
  · cases c with
    | get table => exact hlinked.nodup
    | set table p => exact Entries.nodup_insert hlinked.nodup p
    | erase table => exact Entries.nodup_erase hlinked.nodup
  · rw [hrows, htable, hs']

theorem Linked.after (hlinked : twins.Linked rows)
    (h : Engine.Keeps w (declared name) nameColumn rows) {calls : List PermissionCall}
    (hcalls : ∀ c ∈ calls, c.IsRead) : (twins.after w (declared name) calls).Linked rows := by
  induction calls generalizing twins with
  | nil => exact hlinked
  | cons c calls ih =>
    obtain ⟨hc, hcalls⟩ := List.forall_mem_cons.mp hcalls
    exact ih (hlinked.step h hc) hcalls

/-- Permissions in a table that an engine keeps are those in memory: after any calls, each further
call is answered as in memory, and the table has one row for each name there, and no other. -/
theorem stored_as_remembered (h : Engine.Keeps w (declared name) nameColumn rows) {s : σ}
    (hs : (rows s).getD 0 = 0) {calls : List PermissionCall} (hcalls : ∀ c ∈ calls, c.IsRead)
    (hc : c.IsRead) :
    let twins := (start s).after w (declared name) calls
    (∃ o, (twins.stored w (declared name) c).1 = .ok o ∧
        Option.Rel Permissions.Same (twins.memory.answer c).1 o) ∧
      twins.memory.names.Nodup ∧
        (twins.rowsOf rows).map (·.get nameColumn) =
          Multiset.ofList (twins.memory.names.map .text) := by
  have hlinked := (linked_start hs).after h hcalls
  obtain ⟨o, s', rs, hrun, hanswer, -⟩ := hlinked.answersAlike h hc
  exact ⟨⟨o, congrArg (·.1) hrun, hanswer⟩, hlinked.nodup, hlinked.held.names⟩

/-- Selections for two labels. -/
def labelled : Permissions := ⟨[(.select, [.labels ["b", "a"]])]⟩

/-- Rules with labels that are put in place of others are in the only row, and are answered. -/
theorem labelled_stored :
    let w := Engine.single (.text "2024-05-01 12:00:00")
    let twins := (start none).after w (declared "table_permissions")
      [.set "posts" .default, .set "posts" labelled, .erase "users"]
    (∃ p, (twins.stored w (declared "table_permissions") (.get "posts")).1 = .ok (some p) ∧
        labelled.Same p) ∧
      (twins.rowsOf (Option.map (↑))).map (·.get nameColumn) = {.text "posts"} := by
  have hdefault : (PermissionCall.set "posts" .default).IsRead :=
    ⟨.object [("operations", .object (Action.all.map fun a =>
      (a.name, .list [.object [("allow", .text "public")]])))], by decide, rfl⟩
  have hlabelled : (PermissionCall.set "posts" labelled).IsRead :=
    ⟨.object [("operations", .object [("select", .list [.object [("allow", .text "labels"),
      ("labels", .list [.text "b", .text "a"])]])])], by decide, rfl⟩
  have hcalls : ∀ c ∈ [PermissionCall.set "posts" .default, .set "posts" labelled, .erase "users"],
      c.IsRead :=
    List.forall_mem_cons.mpr ⟨hdefault, List.forall_mem_cons.mpr ⟨hlabelled,
      List.forall_mem_singleton.mpr trivial⟩⟩
  obtain ⟨⟨o, ho, hanswer⟩, -, hnames⟩ :=
    stored_as_remembered (Engine.keeps_single (declared "table_permissions") nameColumn
      (.text "2024-05-01 12:00:00")) (s := none) rfl hcalls (c := .get "posts") trivial
  refine ⟨?_, hnames⟩
  cases o with
  | none => cases hanswer
  | some p =>
    cases hanswer with
    | some hsame => exact ⟨p, ho, hsame⟩

end Twins

end PermissionTable
end RowGate
