import RowGate.Proofs.Correspondence
import RowGate.Proofs.Sql.Applied
/-!
Operations without their aggregates. What is drafted without them differs in the aggregates and in
the table expressions, and nothing else looks at these. Main statement: where operations without
their aggregates end, the operations end as well, unless an aggregate in them has no proper label;
then they fail with the first of such labels.
-/
namespace RowGate

open Sql Stateful

/-! ## Operations without aggregates -/

mutual

/-- An operation without the aggregates in it. -/
def Operation.bare : Operation → List Operation
  | .aggregate .. => []
  | .table name operations columns source => [.table name (bareAll operations) columns source]
  | .recursiveTable name initial recursive keepRepeats columns source recursiveSource
      recursiveColumns =>
    [.recursiveTable name (bareAll initial) (bareAll recursive) keepRepeats columns source
      recursiveSource recursiveColumns]
  | o => [o]

/-- Operations without the aggregates in them. -/
def bareAll : List Operation → List Operation
  | [] => []
  | o :: os => o.bare ++ bareAll os

end

mutual

/-- The labels of aggregates in an operation that are refused, in the order of the operations. -/
def Operation.refusedLabels : Operation → List String
  | .aggregate _ _ label => if isIdentifier label then [] else [label]
  | .table _ operations _ _ => refusedLabelsOf operations
  | .recursiveTable _ initial recursive .. => refusedLabelsOf initial ++ refusedLabelsOf recursive
  | _ => []

/-- The labels of aggregates in operations that are refused, in the order of the operations. -/
def refusedLabelsOf : List Operation → List String
  | [] => []
  | o :: os => o.refusedLabels ++ refusedLabelsOf os

end

mutual

/-- The aggregates in an operation are of known types, and their fields are columns. -/
def Operation.AggregatesKnown : Operation → Prop
  | .aggregate type field _ => type ∈ aggregateTypes ∧ (field = "*" ∨ isIdentifier field = true)
  | .table _ operations _ _ => AllAggregatesKnown operations
  | .recursiveTable _ initial recursive .. =>
    AllAggregatesKnown initial ∧ AllAggregatesKnown recursive
  | _ => True

/-- The aggregates in operations are of known types, and their fields are columns. -/
def AllAggregatesKnown : List Operation → Prop
  | [] => True
  | o :: os => o.AggregatesKnown ∧ AllAggregatesKnown os

end

namespace Sql

/-! ## Columns by name -/

/-- The column that a name of a column stands for. -/
def asColumn (name : String) : Column :=
  if name = "*" || name.toList.contains '.' then .verbatim name else .named name

theorem column_eq_ok {name : String} (h : name = "*" ∨ isIdentifier name = true) :
    Column.of name = .ok (asColumn name) := by
  unfold Column.of checkColumn checkIdentifier
  rcases h with rfl | h
  · rfl
  · rw [if_pos h, ite_self]
    rfl

/-! ## Matching drafts -/

/-- A draft, and one that is the same apart from table expressions and has no aggregates. -/
def Draft.Matches (d e : Draft) : Prop := ∃ tables, e = { d with tables, aggregates := [] }

theorem Draft.matches_start (catalog : Catalog) (table : String) (columns : List String) :
    (Draft.start catalog table columns).Matches (Draft.start catalog table columns) := ⟨[], rfl⟩

theorem Draft.Matches.child {d e : Draft} (h : d.Matches e) (table : String)
    (columns : List String) (own : List (String × Source)) :
    (d.child table columns own).Matches (e.child table columns own) := by
  obtain ⟨tables, rfl⟩ := h
  exact ⟨[], rfl⟩

/-- The columns in front of aggregates are found whether there are aggregates or not. -/
theorem frontColumns_aggregated (listed groupBy : List String) (aggregated : Bool) :
    Correspond (fun _ _ => True) (frontColumns listed groupBy false)
      (frontColumns listed groupBy aggregated) := by
  unfold frontColumns
  split
  · exact .refl (fun _ => trivial) _
  · cases groupBy with
    | nil => cases aggregated <;> exact .ok trivial
    | cons g gs => exact .refl (fun _ => trivial) _

/-- A statement is found for a draft if one is found for the draft without aggregates. -/
theorem Draft.Matches.statement {d e : Draft} (h : d.Matches e) {t : Select}
    (ht : e.statement = .ok t) : ∃ s, d.statement = .ok s := by
  obtain ⟨tables, rfl⟩ := h
  have hboth : Correspond (fun _ _ => True) { d with tables, aggregates := [] }.statement
      d.statement := by
    unfold Draft.statement
    rw [Draft.projection_eq, Draft.projection_eq]
    have hprojection := (frontColumns_aggregated d.columns d.groupBy (!d.aggregates.isEmpty)).bind
      (S := fun _ _ => True) fun front front' _ =>
        .ok (a := front ++ [] ++ d.windows) (b := front' ++ d.aggregates ++ d.windows) trivial
    refine hprojection.bind fun ps qs _ => ?_
    refine .checked fun source => .checked fun groupBy => .checked fun limit => ?_
    dsimp only
    split
    · exact .checked fun offset => .ok trivial
    · exact .ok trivial
  rw [ht] at hboth
  obtain ⟨s, hs, -⟩ := hboth.of_ok
  exact ⟨s, hs⟩

namespace Drafting

/-! ## Work beside aggregates -/

/-- Work that does the same to matching drafts. -/
abbrev Beside {α : Type} (x : Drafting α) : Prop := Pairs Draft.Matches Eq x x

theorem beside_modify {f : Draft → Draft}
    (hf : ∀ d tables, f { d with tables, aggregates := [] } =
      { f d with tables, aggregates := [] }) : Beside (modify f) := by
  have hpairs : Pairs Draft.Matches (fun _ _ => True) (modify f : Drafting PUnit) (modify f) := by
    refine .modify fun d e h => ?_
    obtain ⟨tables, rfl⟩ := h
    exact ⟨tables, hf d tables⟩
  intro d e h
  exact ⟨.ok rfl, (hpairs d e h).2⟩

theorem beside_addCriterion (c : Criterion) : Beside (addCriterion c) :=
  beside_modify fun _ _ => rfl

theorem beside_addTest (t : Except Fault Test) : Beside (addTest t) :=
  .checked fun _ => beside_addCriterion _

theorem beside_addRaw (opening sql : String) (bindings : List Value) :
    Beside (addRaw opening sql bindings) := by
  have htext : Beside (rawText opening sql bindings) := by
    unfold rawText
    refine .checked fun _ => Pairs.get.bind fun d e h => ?_
    obtain ⟨tables, rfl⟩ := h
    refine (beside_modify fun _ _ => rfl).bind fun _ _ _ => ?_
    exact .lift (.refl (fun _ => rfl) _)
  refine htext.bind fun r _ hr => ?_
  subst hr
  exact beside_addCriterion _

theorem beside_addEquals (values : Record) : Beside (addEquals values) := by
  induction values with
  | nil => exact .pure rfl
  | cons x rest ih =>
    refine .checked fun column => ?_
    exact (beside_addCriterion _).bind fun _ _ _ => ih

theorem beside_addGroupBy (fields : List String) : Beside (addGroupBy fields) := by
  induction fields with
  | nil => exact .pure rfl
  | cons f rest ih =>
    refine .checked fun f => ?_
    exact (beside_modify fun _ _ => rfl).bind fun _ _ _ => ih

theorem beside_addGroup (g : Group) : Beside (addGroup g) := by
  refine .checked fun c => ?_
  cases c with
  | none => exact .pure rfl
  | some c => exact beside_addCriterion c

/-- No clause but an aggregate looks at aggregates or table expressions. -/
theorem beside_clause {o : Operation} (ho : o.isClause = true) (haggregate : o.stage ≠ .aggregates) :
    Beside (applyOperation o) := by
  cases o with
  | table | recursiveTable => cases ho
  | aggregate => exact absurd rfl haggregate
  | equals values => exact beside_addEquals values
  | fragment sql bindings => exact beside_addRaw _ sql bindings
  | exists_ sql bindings => exact beside_addRaw _ sql bindings
  | group g => exact beside_addGroup g
  | groupBy fields => exact beside_addGroupBy fields
  | condition | range | isNull | notNull | isIn | notIn => exact beside_addTest _
  | framedWindow w => exact .checked fun column => .checked fun label => beside_modify fun _ _ => rfl
  | window | having | orderBy => exact .checked fun _ => beside_modify fun _ _ => rfl
  | limit | offset => exact beside_modify fun _ _ => rfl

/-! ## Work without its aggregates -/

/-- How work ends in which labels are refused: it fails with the first of them, if there is one. -/
inductive Ends {α : Type} (P : α → Draft → Prop) : List String → Except Fault α × Draft → Prop
  | done {a : α} {d : Draft} (h : P a d) : Ends P [] (.ok a, d)
  | refused (label : String) (labels : List String) (d : Draft) :
      Ends P (label :: labels) (.error (.unsupported (.identifier label)), d)

/-- Work, and the same work without aggregates. Where the latter answers, the former ends as the
labels that are refused in it say. -/
def Labels {α β : Type} (refused : List String) (R : α → β → Prop) (x : Drafting α)
    (y : Drafting β) : Prop :=
  ∀ d e b e', d.Matches e → y.run e = (.ok b, e') →
    Ends (fun a d' => R a b ∧ d'.Matches e') refused (x.run d)

section Labels

variable {α β γ δ : Type} {refused others : List String} {R : α → β → Prop} {S : γ → δ → Prop}

theorem labels_of_pairs {x : Drafting α} {y : Drafting β} (h : Pairs Draft.Matches R x y) :
    Labels [] R x y := by
  intro d e b e' hd hrun
  obtain ⟨hanswers, hstates⟩ := h d e hd
  rw [hrun] at hanswers hstates
  rcases hx : x.run d with ⟨result, d'⟩
  rw [hx] at hanswers hstates
  cases hanswers with
  | ok hab => exact .done ⟨hab, hstates _ _ rfl rfl⟩

theorem Labels.mono {x : Drafting α} {y : Drafting β} {R' : α → β → Prop}
    (h : Labels refused R x y) (hR : ∀ a b, R a b → R' a b) : Labels refused R' x y := by
  intro d e b e' hd hrun
  have hx := h d e b e' hd hrun
  generalize x.run d = ended at hx
  cases hx with
  | done hab => exact .done ⟨hR _ _ hab.1, hab.2⟩
  | refused label labels d' => exact .refused label labels d'

theorem labels_bind {x : Drafting α} {y : Drafting β} {f : α → Drafting γ} {g : β → Drafting δ}
    (hxy : Labels refused R x y) (hfg : ∀ a b, R a b → Labels others S (f a) (g b)) :
    Labels (refused ++ others) S (x >>= f) (y >>= g) := by
  intro d e c e'' hd hrun
  obtain ⟨b, e', hy, hg⟩ := run_sequence_ok hrun
  have hx := hxy d e b e' hd hy
  rw [run_sequence]
  generalize x.run d = ended at hx
  cases hx with
  | done hab => exact hfg _ b hab.1 _ e' c e'' hab.2 hg
  | refused label labels d' => exact .refused label _ d'

/-- No label is refused in what is done first. -/
theorem labels_behind {x : Drafting α} {y : Drafting β} {f : α → Drafting γ} {g : β → Drafting δ}
    (hxy : Labels [] R x y) (hfg : ∀ a b, R a b → Labels others S (f a) (g b)) :
    Labels others S (x >>= f) (y >>= g) :=
  labels_bind hxy hfg

/-- No label is refused in what is done last. -/
theorem labels_then {x : Drafting α} {y : Drafting β} {f : α → Drafting γ} {g : β → Drafting δ}
    (hxy : Labels refused R x y) (hfg : ∀ a b, R a b → Labels [] S (f a) (g b)) :
    Labels refused S (x >>= f) (y >>= g) := by
  have h := labels_bind hxy hfg
  rwa [List.append_nil] at h

end Labels

variable {refused others : List String}

/-- Work on inner drafts is refused as it is on drafts of its own. -/
theorem labels_inner {work work' : Drafting Unit} (h : Labels refused (fun _ _ => True) work work')
    (table : String) (columns : List String) (own : List (String × Source)) :
    Labels refused (fun _ _ => True) (inner table columns own work)
      (inner table columns own work') := by
  intro d e t e' hd hrun
  obtain ⟨inside', hwork', hstatement', rfl⟩ := inner_ok hrun
  have hwork := h _ _ _ _ (hd.child table columns own) hwork'
  rcases hinner : work.run (d.child table columns own) with ⟨result, inside⟩
  rw [hinner] at hwork
  rw [run_inner hinner]
  cases hwork with
  | done hinside =>
    obtain ⟨s, hs⟩ := hinside.2.statement hstatement'
    rw [ok_sequence, hs]
    refine .done ⟨trivial, ?_⟩
    obtain ⟨tables, rfl⟩ := hd
    obtain ⟨_, rfl⟩ := hinside.2
    exact ⟨tables, rfl⟩
  | refused label labels => exact .refused label labels _

theorem labels_freshTable : Labels [] Eq freshTable freshTable := by
  apply labels_of_pairs
  refine Pairs.get.bind fun d e h => ?_
  obtain ⟨tables, rfl⟩ := h
  exact (beside_modify fun _ _ => rfl).bind fun _ _ _ => .pure rfl

theorem labels_declare {t u : CommonTable} (hid : t.id = u.id) (hname : t.name = u.name) :
    Labels [] (fun _ _ => True) (declare t) (declare u) := by
  apply labels_of_pairs
  refine .modify fun d e h => ?_
  obtain ⟨tables, rfl⟩ := h
  refine ⟨tables ++ [u], ?_⟩
  rw [CommonTable.source, CommonTable.source, hid, hname]

theorem labels_addTable {work work' : Drafting Unit}
    (h : Labels refused (fun _ _ => True) work work') (name : String) (columns : List String)
    (source : Option String) :
    Labels refused (fun _ _ => True) (addTable name work columns source)
      (addTable name work' columns source) := by
  unfold addTable
  refine labels_behind (labels_of_pairs Pairs.get) fun d e hd => ?_
  obtain ⟨tables, rfl⟩ := hd
  refine labels_then (labels_inner h _ columns []) fun s t _ => ?_
  refine labels_then labels_freshTable fun id _ hid => ?_
  subst hid
  exact labels_declare rfl rfl

theorem labels_addRecursiveTable {initial initial' recursive recursive' : Drafting Unit}
    (hinitial : Labels refused (fun _ _ => True) initial initial')
    (hrecursive : Labels others (fun _ _ => True) recursive recursive') (name : String)
    (keepRepeats : Bool) (columns : List String) (source recursiveSource : Option String)
    (recursiveColumns : List String) :
    Labels (refused ++ others) (fun _ _ => True)
      (addRecursiveTable name initial recursive keepRepeats columns source recursiveSource
        recursiveColumns)
      (addRecursiveTable name initial' recursive' keepRepeats columns source recursiveSource
        recursiveColumns) := by
  rw [addRecursiveTable_eq, addRecursiveTable_eq]
  refine labels_behind (labels_of_pairs Pairs.get) fun d e hd => ?_
  obtain ⟨tables, rfl⟩ := hd
  refine labels_behind (labels_of_pairs (.lift (.refl (fun _ => rfl) _))) fun listed _ heq => ?_
  subst heq
  unfold addHalves
  split
  · intro d e b e' _ hrun
    cases hrun
  · refine labels_bind (labels_inner hinitial _ _ _) fun _ _ _ => ?_
    refine labels_behind labels_freshTable fun id _ hid => ?_
    subst hid
    refine labels_then (labels_inner hrecursive _ _ _) fun _ _ _ => ?_
    exact labels_declare rfl rfl

/-- An aggregate of a known type and a column is refused for its label only. -/
theorem labels_aggregate {type field label : String} (htype : type ∈ aggregateTypes)
    (hfield : field = "*" ∨ isIdentifier field = true) :
    Labels (if isIdentifier label then [] else [label]) (fun _ _ => True)
      (addAggregate type field label) (pure ()) := by
  intro d e b e' hd hrun
  cases hrun
  obtain ⟨tables, rfl⟩ := hd
  unfold addAggregate
  rw [if_pos (List.contains_iff_mem.mpr htype), column_eq_ok hfield]
  split
  · rename_i hlabel
    rw [checkIdentifier, if_pos hlabel]
    exact .done ⟨trivial, tables, rfl⟩
  · rename_i hlabel
    rw [checkIdentifier, if_neg hlabel]
    exact .refused label [] d

theorem applyOperations_append (os ps : List Operation) :
    applyOperations (os ++ ps) = (do applyOperations os; applyOperations ps) := by
  induction os with
  | nil => simp [applyOperations]
  | cons o os ih => simp only [List.cons_append, applyOperations, ih, bind_assoc]

theorem labels_single {work : Drafting Unit} {o : Operation}
    (h : Labels refused (fun _ _ => True) work (applyOperation o)) :
    Labels refused (fun _ _ => True) work (applyOperations [o]) := by
  simpa [applyOperations] using h

theorem labels_clause {o : Operation} (ho : o.isClause = true) (haggregate : o.stage ≠ .aggregates) :
    Labels [] (fun _ _ => True) (applyOperation o) (applyOperations [o]) :=
  labels_single ((labels_of_pairs (beside_clause ho haggregate)).mono fun _ _ _ => trivial)

mutual

/-- An operation is refused for the labels in it, if it is not refused without its aggregates. -/
theorem labels_operation : (o : Operation) → o.AggregatesKnown →
    Labels o.refusedLabels (fun _ _ => True) (applyOperation o) (applyOperations o.bare)
  | .aggregate type field label, h => labels_aggregate h.1 h.2
  | .table name operations columns source, h => by
    apply labels_single
    simp only [applyOperation]
    exact labels_addTable (labels_operations operations h) name columns source
  | .recursiveTable name initial recursive keepRepeats columns source recursiveSource
      recursiveColumns, h => by
    apply labels_single
    simp only [applyOperation]
    exact labels_addRecursiveTable (labels_operations initial h.1) (labels_operations recursive h.2)
      name keepRepeats columns source recursiveSource recursiveColumns
  | .window .., _ | .framedWindow .., _ | .equals .., _ | .fragment .., _ | .condition .., _
  | .range .., _ | .isNull .., _ | .notNull .., _ | .isIn .., _ | .notIn .., _ | .exists_ .., _
  | .group .., _ | .groupBy .., _ | .having .., _ | .orderBy .., _ | .limit .., _ | .offset .., _ =>
    labels_clause rfl Stage.noConfusion

theorem labels_operations : (os : List Operation) → AllAggregatesKnown os →
    Labels (refusedLabelsOf os) (fun _ _ => True) (applyOperations os) (applyOperations (bareAll os))
  | [], _ => by
    simp only [applyOperations, bareAll]
    exact labels_of_pairs (.pure trivial)
  | o :: os, h => by
    rw [refusedLabelsOf, bareAll, applyOperations_append]
    simp only [applyOperations]
    exact labels_bind (labels_operation o h.1) fun _ _ _ => labels_operations os h.2

end

end Drafting

/-- Operations that are built without their aggregates are built, unless a label in them is refused;
then they fail with the first of these. -/
theorem build_of_bare {catalog : Catalog} {table : String} {os : List Operation} {t : Select}
    (hknown : AllAggregatesKnown os) (h : build catalog table (bareAll os) = .ok t) :
    (refusedLabelsOf os = [] → ∃ s, build catalog table os = .ok s) ∧
      ∀ label ∈ (refusedLabelsOf os).head?,
        build catalog table os = .error (.unsupported (.identifier label)) := by
  obtain ⟨e', hrun, ht⟩ := run_of_build h
  have hends := Drafting.labels_operations os hknown _ _ _ _ (Draft.matches_start catalog table [])
    hrun
  unfold build
  rcases hd : (applyOperations os).run (Draft.start catalog table []) with ⟨result, d'⟩
  rw [hd] at hends
  generalize refusedLabelsOf os = refused at hends
  cases hends with
  | done hmatches =>
    refine ⟨fun _ => ?_, nofun⟩
    exact hmatches.2.statement ht
  | refused label labels =>
    refine ⟨nofun, fun _ hlabel => ?_⟩
    cases hlabel
    rfl

end Sql

/-! ## Lists of operations -/

theorem bareAll_eq (os : List Operation) : bareAll os = os.flatMap Operation.bare := by
  induction os with
  | nil => rfl
  | cons o os ih => rw [bareAll, ih, List.flatMap_cons]

theorem refusedLabelsOf_eq (os : List Operation) :
    refusedLabelsOf os = os.flatMap Operation.refusedLabels := by
  induction os with
  | nil => rfl
  | cons o os ih => rw [refusedLabelsOf, ih, List.flatMap_cons]

theorem allAggregatesKnown_iff (os : List Operation) :
    AllAggregatesKnown os ↔ ∀ o ∈ os, o.AggregatesKnown := by
  induction os with
  | nil => exact iff_of_true trivial (List.forall_mem_nil _)
  | cons o os ih => rw [AllAggregatesKnown, ih, List.forall_mem_cons]

end RowGate
