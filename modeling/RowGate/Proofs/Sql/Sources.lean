import RowGate.Proofs.Sql.Applied
/-!
Where the rows of a statement come from. Main statement: every base table that a statement reads, at
any depth, is the one that it was built for or one that an operation names as a source.
-/
namespace RowGate

/-- A name, unless it is absent or empty. -/
def givenName (s : Option String) : List String := (s.filter (!·.isEmpty)).toList

mutual

/-- The sources that an operation names, at all depths. -/
def Operation.named : Operation → List String
  | .table _ operations _ source => givenName source ++ namedSources operations
  | .recursiveTable _ initial recursive _ _ source recursiveSource _ =>
    givenName source ++ givenName recursiveSource ++ namedSources initial ++ namedSources recursive
  | _ => []

/-- The sources that operations name. -/
def namedSources : List Operation → List String
  | [] => []
  | o :: os => o.named ++ namedSources os

end

namespace Sql

/-- The base table of a source, by its schema and its name. -/
def Source.bases : Source → List (Option String × String)
  | .table schema name => [(schema, name)]
  | .common .. => []

mutual

/-- The base tables that a statement reads, at all depths. -/
def Select.bases : Select → List (Option String × String)
  | .mk tables body => basesOf tables ++ body.source.bases

/-- The base tables that a table expression reads. -/
def CommonTable.bases : CommonTable → List (Option String × String)
  | .plain _ _ query => query.bases
  | .recursive _ _ initial recursive _ => initial.bases ++ recursive.bases

/-- The base tables that table expressions read. -/
def basesOf : List CommonTable → List (Option String × String)
  | [] => []
  | t :: ts => t.bases ++ basesOf ts

end

theorem basesOf_append (ts us : List CommonTable) :
    basesOf (ts ++ us) = basesOf ts ++ basesOf us := by
  induction ts with
  | nil => rfl
  | cons t ts ih => simp only [List.cons_append, basesOf, ih, List.append_assoc]

/-- Base tables that go by names of a kind. -/
def Confined (P : String → Prop) (bases : List (Option String × String)) : Prop :=
  ∀ b ∈ bases, ∃ name, P name ∧ b = splitPath name

/-- A name that may be selected from: it is of a kind, or a table expression has it. -/
def Selectable (P : String → Prop) (scope : List (String × Source)) (name : String) : Prop :=
  P name ∨ (scope.lookup name).isSome

/-- The base tables of a draft are of a kind: those of its table expressions, and its own. -/
structure Draft.Keeps (P : String → Prop) (d : Draft) : Prop where
  scope : ∀ name source, d.scope.lookup name = some source → source.bases = []
  tables : Confined P (basesOf d.tables)
  table : Selectable P d.scope d.table

variable {P : String → Prop}

namespace Draft

/-- A name that may be selected from denotes a base table of that kind, if it denotes any. -/
theorem resolve_confined {d : Draft} (hd : d.Keeps P) {name : String}
    (hname : Selectable P d.scope name) {source : Source} (h : d.resolve name = .ok source) :
    Confined P source.bases := by
  obtain hlook | ⟨hlook, rfl⟩ := resolve_ok h
  · rw [hd.scope name source hlook]
    nofun
  · have hP : P name := by simpa [Selectable, hlook] using hname
    exact List.forall_mem_singleton.mpr ⟨name, hP, rfl⟩

/-- The statement of a draft reads base tables of the draft's kind. -/
theorem statement_confined {d : Draft} (hd : d.Keeps P) {s : Select} (h : d.statement = .ok s) :
    Confined P s.bases := by
  obtain ⟨htables, hsource⟩ := statement_ok h
  cases s with
  | mk tables body =>
    change tables = d.tables at htables
    subst htables
    exact List.forall_mem_append.mpr ⟨hd.tables, resolve_confined hd hd.table hsource⟩

/-- A draft inside another one reads base tables of the same kind. -/
theorem Keeps.child {d : Draft} (hd : d.Keeps P) {table : String} {columns : List String}
    {own : List (String × Source)}
    (hown : ∀ name source, own.lookup name = some source → source.bases = [])
    (htable : Selectable P (own ++ d.scope) table) : (d.child table columns own).Keeps P where
  scope := by
    intro name source hlook
    have hlook' : (own ++ d.scope).lookup name = some source := hlook
    rw [List.lookup_append] at hlook'
    cases hfirst : own.lookup name with
    | some found =>
      rw [hfirst] at hlook'
      exact hown name source (hfirst.trans hlook')
    | none =>
      rw [hfirst] at hlook'
      exact hd.scope name source hlook'
  tables := nofun
  table := htable

theorem Keeps.of_same {d d' : Draft} (hd : d.Keeps P) (htable : d'.table = d.table)
    (hscope : d'.scope = d.scope) (htables : d'.tables = d.tables) : d'.Keeps P := by
  constructor
  · rw [hscope]
    exact hd.scope
  · rw [htables]
    exact hd.tables
  · rw [hscope, htable]
    exact hd.table

theorem Keeps.after {d inside : Draft} (hd : d.Keeps P) : (d.after inside).Keeps P :=
  hd.of_same rfl rfl rfl

theorem Keeps.numbered {d : Draft} (hd : d.Keeps P) : d.numbered.Keeps P :=
  hd.of_same rfl rfl rfl

end Draft

theorem Selectable.cons {scope : List (String × Source)} {name : String}
    (h : Selectable P scope name)
    (entry : String × Source) : Selectable P (entry :: scope) name := by
  rcases h with h | h
  · exact .inl h
  · right
    rw [List.lookup_cons]
    split
    · rfl
    · exact h

/-- A table expression that reads base tables of a kind may be declared. -/
theorem Draft.Keeps.declaring {d : Draft} (hd : d.Keeps P) {t : CommonTable}
    (ht : Confined P t.bases) : (d.declaring t).Keeps P := by
  constructor
  · intro name source hlook
    change ((t.name, t.source) :: d.scope).lookup name = some source at hlook
    rw [List.lookup_cons] at hlook
    split at hlook
    · obtain rfl := Option.some.inj hlook
      rfl
    · exact hd.scope name source hlook
  · change Confined P (basesOf (d.tables ++ [t]))
    rw [basesOf_append]
    have hlast : basesOf [t] = t.bases := List.append_nil _
    exact List.forall_mem_append.mpr ⟨hd.tables, hlast ▸ ht⟩
  · exact hd.table.cons _

/-- A source that is given is of a kind, or it is left to another one. -/
theorem selectable_orElse {scope : List (String × Source)} {source : Option String} {other : String}
    (hgiven : ∀ name ∈ givenName source, P name) (hother : Selectable P scope other) :
    Selectable P scope (Drafting.orElse source other) := by
  unfold Drafting.orElse
  cases source with
  | none => exact hother
  | some name =>
    by_cases hempty : name.isEmpty
    · simpa [hempty] using hother
    · simp only [hempty]
      exact .inl (hgiven name (by simp [givenName, hempty]))

theorem lookup_own {name other : String} {id : Nat} {found : Source}
    (h : [(name, Source.common id name)].lookup other = some found) : found.bases = [] := by
  rw [List.lookup_cons] at h
  split at h
  · obtain rfl := Option.some.inj h
    rfl
  · cases h

mutual

/-- An operation keeps the base tables of a draft to a kind if the sources that it names are of that
kind. -/
theorem keeps_applied {o : Operation} {d d' : Draft} (h : Applied o d d')
    (hnamed : ∀ name ∈ o.named, P name) (hd : d.Keeps P) : d'.Keeps P := by
  match h with
  | .table hwork hquery =>
    obtain ⟨hsource, hinner⟩ := List.forall_mem_append.mp hnamed
    have hinside := keeps_appliedAll hwork hinner
      (hd.child (by simp) (selectable_orElse hsource hd.table))
    exact hd.after.numbered.declaring (Draft.statement_confined hinside hquery)
  | .recursiveTable hfirst hfirstStatement hnext hnextStatement =>
    obtain ⟨hsources, hnextNamed⟩ := List.forall_mem_append.mp hnamed
    obtain ⟨hgiven, hfirstNamed⟩ := List.forall_mem_append.mp hsources
    obtain ⟨hsource, hrecursiveSource⟩ := List.forall_mem_append.mp hgiven
    have hfirstInside := keeps_appliedAll hfirst hfirstNamed
      (hd.child (by simp) (selectable_orElse hsource hd.table))
    -- the recursive part may select from the table expression itself
    have hnextInside := keeps_appliedAll hnext hnextNamed
      (hd.after.numbered.child (fun _ _ => lookup_own)
        (selectable_orElse hrecursiveSource (.inr (by simp))))
    apply hd.after.numbered.after.declaring
    exact List.forall_mem_append.mpr ⟨Draft.statement_confined hfirstInside hfirstStatement,
      Draft.statement_confined hnextInside hnextStatement⟩
  | .clause _ hsame => exact hd.of_same hsame.table hsame.scope hsame.tables

theorem keeps_appliedAll {os : List Operation} {d d' : Draft} (h : AppliedAll os d d')
    (hnamed : ∀ name ∈ namedSources os, P name) (hd : d.Keeps P) : d'.Keeps P := by
  match h with
  | .nil => exact hd
  | .cons hfirst hrest =>
    obtain ⟨hfirstNamed, hrestNamed⟩ := List.forall_mem_append.mp hnamed
    exact keeps_appliedAll hrest hrestNamed (keeps_applied hfirst hfirstNamed hd)

end

end Sql
end RowGate
