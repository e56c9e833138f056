import RowGate.Proofs.Sql.Namings
import RowGate.Proofs.Sql.Scope
/-!
Clashes of names. Main statement: a statement with values as parameters is written exactly if no two
of its table expressions share a name, the halves of each recursive one have the same number of
columns, and no name is given to two parameters.
-/
namespace RowGate.Sql

/-- Whether a naming is for a value or a label. -/
def Naming.isPlain : Naming → Bool
  | .label _ | .column .. | .raw .. => true
  | _ => false

/-- Namings for values and labels only. -/
def ArePlain (ns : List Naming) : Prop := ∀ n ∈ ns, n.isPlain = true

section Plain

theorem ArePlain.append {ns ms : List Naming} (h : ArePlain ns) (h' : ArePlain ms) :
    ArePlain (ns ++ ms) := List.forall_mem_append.mpr ⟨h, h'⟩

theorem ArePlain.flatMap {α : Type} {f : α → List Naming} (h : ∀ a, ArePlain (f a)) (as : List α) :
    ArePlain (as.flatMap f) := by
  intro n hn
  obtain ⟨a, -, hn⟩ := List.mem_flatMap.mp hn
  exact h a n hn

theorem ArePlain.met {ns : List Naming} (h : ArePlain ns) : met ns = [] := by
  apply List.filterMap_eq_nil_iff.mpr
  intro n hn
  have hplain := h n hn
  cases n with
  | table id name => cases hplain
  | _ => rfl

theorem plain_test (t : Test) : ArePlain t.namings := by
  cases t with
  | raw r =>
    apply ArePlain.flatMap
    intro part
    cases part with
    | char c => exact List.forall_mem_nil _
    | name n =>
      intro m hm
      obtain ⟨b, -, rfl⟩ := Option.map_eq_some_iff.mp (Option.mem_toList.mp hm)
      rfl
  | _ => simp [ArePlain, Test.namings, Naming.isPlain]

theorem plain_condition (cs : List Criterion) : ArePlain (conditionNamings cs) :=
  .flatMap plain_test _

theorem plain_count (n : Option Int) : ArePlain (countNamings n) := by
  cases n <;> simp [ArePlain, countNamings, Naming.isPlain]

theorem plain_frameEnd (n : Option Int) : ArePlain (frameEndNamings n) := by
  intro m hm
  obtain ⟨k, -, rfl⟩ := Option.map_eq_some_iff.mp (Option.mem_toList.mp hm)
  rfl

theorem plain_projection (c : Projection) : ArePlain c.namings := by
  cases c with
  | framed w label =>
    obtain ⟨function, argument, c, partition, order, ends⟩ := w
    apply ArePlain.append
    · cases c with
      | none => exact List.forall_mem_nil _
      | some c => exact .flatMap plain_test _
    · cases ends with
      | none => exact List.forall_mem_nil _
      | some f => exact (plain_frameEnd _).append (plain_frameEnd _)
  | _ => exact List.forall_mem_nil _

/-- The clauses behind the source of a body meet nothing. -/
theorem plain_clauses (b : Body) : ArePlain (conditionNamings b.criteria ++
    (conditionNamings b.having ++ (countNamings b.limit ++ countNamings b.offset))) :=
  (plain_condition _).append
    ((plain_condition _).append ((plain_count _).append (plain_count _)))

theorem plain_labels (given labels : List String) : ArePlain (labelNamings given labels) := by
  induction labels generalizing given with
  | nil => exact List.forall_mem_nil _
  | cons l labels ih =>
    apply ArePlain.append _ (ih _)
    split <;> simp [ArePlain, Naming.isPlain]

end Plain

/-- The columns of the halves of a table expression, if it is recursive. -/
def CommonTable.halves? : CommonTable → Option (Nat × Nat)
  | .plain .. => none
  | .recursive _ _ first next _ => some (first.body.projection.length, next.body.projection.length)

/-- Namings meet listed table expressions, and count the columns of their halves. -/
structure Describes (ns : List Naming) (es : List Entry) : Prop where
  met : (met ns).Perm (es.map fun e => (e.table.name, e.table.id))
  halves : ∀ i r, .halves i r ∈ ns ↔ ∃ e ∈ es, e.table.halves? = some (i, r)

namespace Describes

theorem plain {ns : List Naming} (h : ArePlain ns) : Describes ns [] := by
  constructor
  · rw [h.met]
    exact .refl _
  · intro i r
    constructor
    · intro hmem
      cases h _ hmem
    · nofun

theorem source (s : Source) : Describes [.source s] [] := by
  constructor
  · exact .refl _
  · simp

theorem append {ns ms : List Naming} {es fs : List Entry} (h : Describes ns es)
    (h' : Describes ms fs) : Describes (ns ++ ms) (es ++ fs) := by
  constructor
  · rw [met_append, List.map_append]
    exact h.met.append h'.met
  · intro i r
    simp only [List.mem_append, h.halves, h'.halves, or_and_right, exists_or]

theorem behind {ns ms : List Naming} {es : List Entry} (h : Describes ns [])
    (h' : Describes ms es) : Describes (ns ++ ms) es := h.append h'

theorem front {ns ms : List Naming} {es : List Entry} (h : Describes ns es)
    (h' : Describes ms []) : Describes (ns ++ ms) es := by
  have hboth := h.append h'
  rwa [List.append_nil] at hboth

/-- A table expression is met before those inside it and listed behind them. -/
theorem entry {ns : List Naming} {es : List Entry} {e : Entry}
    (hmet : (Sql.met ns).Perm (es.map fun e => (e.table.name, e.table.id)))
    (hhalves : ∀ i r, .halves i r ∈ ns ↔ (∃ e ∈ es, e.table.halves? = some (i, r)) ∨
      e.table.halves? = some (i, r)) :
    Describes (.table e.table.id e.table.name :: ns) (es ++ [e]) := by
  constructor
  · have hmet' : Sql.met (.table e.table.id e.table.name :: ns) =
        (e.table.name, e.table.id) :: Sql.met ns := rfl
    rw [hmet', List.map_append]
    exact (hmet.cons _).trans (List.perm_append_singleton _ _).symm
  · intro i r
    simp [hhalves, or_and_right, exists_or]

end Describes

theorem describes_body (b : Body) : Describes b.namings [] := by
  apply Describes.behind (.plain (.flatMap plain_projection _))
  apply (Describes.source b.source).behind
  exact Describes.plain (plain_clauses b)

mutual

theorem describes_select : (s : Select) → ∀ within, Describes s.namings (s.entries within)
  | .mk tables body => by
    intro within
    simp only [Select.namings, Select.entries]
    exact (describes_tables tables within).front (describes_body body)

theorem describes_tables : (ts : List CommonTable) → ∀ within,
    Describes (tableNamings ts) (entriesOf within ts)
  | [] => fun _ => .plain (List.forall_mem_nil _)
  | t :: ts => by
    intro within
    simp only [tableNamings, entriesOf]
    exact (describes_table t within).append (describes_tables ts within)

theorem describes_table : (t : CommonTable) → ∀ within, Describes t.namings (t.entries within)
  | .plain id name query => by
    intro within
    have hquery := describes_select query within
    simp only [CommonTable.namings, CommonTable.entries]
    apply Describes.entry (e := ⟨.plain id name query, within⟩) hquery.met
    intro i r
    simp [hquery.halves, CommonTable.halves?]
  | .recursive id name initial recursive keepRepeats => by
    intro within
    have hinitial := describes_select initial within
    have hrecursive := describes_select recursive (.common id name :: within)
    have hlabels := plain_labels [] (initial.body.projection.filterMap (·.label?))
    have hparts := (Describes.plain hlabels).behind (hinitial.append hrecursive)
    simp only [CommonTable.namings, CommonTable.entries]
    apply Describes.entry (e := ⟨.recursive id name initial recursive keepRepeats, within⟩)
    · have hmet := hparts.met
      simp only [met_append] at hmet ⊢
      exact hmet
    · intro i r
      have hhalves := hparts.halves i r
      have hown : Naming.halves i r = .halves initial.body.projection.length
          recursive.body.projection.length ↔
            (CommonTable.recursive id name initial recursive keepRepeats).halves? =
              some (i, r) := by
        simp only [CommonTable.halves?, Naming.halves.injEq, Option.some.injEq, Prod.mk.injEq]
        rw [eq_comm (a := i), eq_comm (a := r)]
      simp only [List.mem_append] at hhalves
      simp only [List.mem_append, List.mem_cons, hown, ← hhalves, or_assoc]
      rw [or_comm (b := Naming.halves i r ∈ recursive.namings)]

end

/-- The sources of namings are in scope, or table expressions that are met. -/
def Sourced (scope : Scope) (ns : List Naming) : Prop :=
  ∀ id name, .source (.common id name) ∈ ns →
    (name, .common id name) ∈ scope ∨ (name, id) ∈ met ns

theorem Sourced.plain {scope : Scope} {ns : List Naming} (h : ArePlain ns) : Sourced scope ns := by
  intro id name hmem
  cases h _ hmem

theorem Sourced.append {scope : Scope} {ns ms : List Naming} (h : Sourced scope ns)
    (h' : Sourced scope ms) : Sourced scope (ns ++ ms) := by
  intro id name hmem
  rw [met_append, List.mem_append]
  rcases List.mem_append.mp hmem with hmem | hmem
  · exact (h id name hmem).imp_right .inl
  · exact (h' id name hmem).imp_right .inr

theorem Sourced.mono {scope wider : Scope} {ns : List Naming} (h : Sourced scope ns)
    (hsub : scope ⊆ wider) : Sourced wider ns :=
  fun id name hmem => (h id name hmem).imp_left (hsub ·)

/-- Behind namings that meet what is added to the scope, sources may refer to it. -/
theorem Sourced.behind {scope inner : Scope} {ns ms : List Naming} (h : Sourced scope ns)
    (h' : Sourced inner ms)
    (hinner : ∀ id name, (name, .common id name) ∈ inner →
      (name, .common id name) ∈ scope ∨ (name, id) ∈ met ns) : Sourced scope (ns ++ ms) := by
  intro id name hmem
  rw [met_append, List.mem_append]
  rcases List.mem_append.mp hmem with hmem | hmem
  · exact (h id name hmem).imp_right .inl
  · rcases h' id name hmem with hin | hmet
    · exact (hinner id name hin).imp_right .inl
    · exact .inr (.inr hmet)

/-- A table expression that is met is in scope for the namings behind. -/
theorem Sourced.table {scope : Scope} {id : Nat} {name : String} {ns : List Naming}
    (h : Sourced ((name, .common id name) :: scope) ns) : Sourced scope (.table id name :: ns) := by
  have hfirst : Sourced scope [.table id name] := by
    intro i n hmem
    cases List.mem_singleton.mp hmem
  apply hfirst.behind h
  intro i n hin
  rcases List.mem_cons.mp hin with heq | hscope
  · cases heq
    exact .inr (List.mem_singleton_self _)
  · exact .inl hscope

theorem met_commonTable (t : CommonTable) : (t.name, t.id) ∈ met t.namings := by
  cases t <;> exact List.mem_cons_self

/-- What is in scope behind table expressions has been in scope or been met. -/
theorem mem_scopeBehind {scope : Scope} {ts : List CommonTable} {id : Nat} {name : String}
    (h : (name, .common id name) ∈ scopeBehind scope ts) :
    (name, .common id name) ∈ scope ∨ (name, id) ∈ met (tableNamings ts) := by
  induction ts generalizing scope with
  | nil => exact .inl h
  | cons t ts ih =>
    rw [tableNamings, met_append, List.mem_append]
    rcases ih h with hin | hmet
    · rcases List.mem_cons.mp hin with heq | hscope
      · cases heq
        exact .inr (.inl (met_commonTable t))
      · exact .inl hscope
    · exact .inr (.inr hmet)

theorem sourced_body {scope : Scope} {b : Body} (h : b.source.Meant scope) :
    Sourced scope b.namings := by
  have hsource : Sourced scope [.source b.source] := by
    intro id name hmem
    rw [← Naming.source.inj (List.mem_singleton.mp hmem)] at h
    obtain ⟨before, after, hscope, -⟩ := List.lookup_eq_some_iff.mp h
    simp [hscope]
  exact (Sourced.plain (.flatMap plain_projection _)).append (hsource.append (.plain (plain_clauses b)))

theorem sourced_halves {scope : Scope} (i r : Nat) : Sourced scope [.halves i r] := by
  intro id name hmem
  cases List.mem_singleton.mp hmem

mutual

/-- In a statement on lexical scopes, each source is in scope or a table expression that is met. -/
theorem sourced_select : (s : Select) → ∀ scope, s.Lexical scope → Sourced scope s.namings
  | .mk tables body => by
    rintro scope ⟨htables, hbody⟩
    simp only [Select.namings]
    exact (sourced_tables tables scope htables).behind (sourced_body hbody)
      fun _ _ hin => mem_scopeBehind hin

theorem sourced_tables : (ts : List CommonTable) → ∀ scope, LexicalTables scope ts →
    Sourced scope (tableNamings ts)
  | [] => fun _ _ => .plain (List.forall_mem_nil _)
  | t :: ts => by
    rintro scope ⟨ht, hts⟩
    simp only [tableNamings]
    apply (sourced_table t scope ht).behind (sourced_tables ts _ hts)
    intro id name hin
    rcases List.mem_cons.mp hin with heq | hscope
    · cases heq
      exact .inr (met_commonTable t)
    · exact .inl hscope

theorem sourced_table : (t : CommonTable) → ∀ scope, t.Lexical scope → Sourced scope t.namings
  | .plain id name query => by
    intro scope h
    simp only [CommonTable.namings]
    exact ((sourced_select query scope h).mono (List.subset_cons_self _ _)).table
  | .recursive id name initial recursive keepRepeats => by
    rintro scope ⟨hinitial, hrecursive⟩
    simp only [CommonTable.namings]
    apply Sourced.table
    apply (Sourced.plain (plain_labels _ _)).append
    apply ((sourced_select initial scope hinitial).mono (List.subset_cons_self _ _)).append
    exact (sourced_halves _ _).append (sourced_select recursive _ hrecursive)

end

/-! ## Statements whose names do not clash -/

namespace Select

/-- The names that the parameters of a statement get, in the order in which they are written. -/
def parameterNames (s : Select) : List String := Counter.assigned ⟨[], 0⟩ s.namings

/-- No names of a statement clash, and the halves of its table expressions go together. -/
structure NamesApart (s : Select) : Prop where
  tables : ((s.entries []).map (·.table.name)).Nodup
  halves : ∀ e ∈ s.entries [], ∀ i r, e.table.halves? = some (i, r) → i = r
  parameters : s.parameterNames.Nodup

/-- The namings of a statement can be done exactly if its names do not clash. -/
theorem play_iff {s : Select} (h : s.Lexical []) :
    (∃ t, Progress.start.taken.play s.namings = some t) ↔ s.NamesApart := by
  have hdescribes := describes_select s []
  have htables : (met s.namings).map Prod.fst |>.Perm ((s.entries []).map (·.table.name)) := by
    have hnames := hdescribes.met.map Prod.fst
    rwa [List.map_map] at hnames
  constructor
  · rintro ⟨t, ht⟩
    have hgrows := Taken.grows_play ht
    have hnames : ((parameterNames s).reverse ++ []).Nodup := hgrows.names ▸ hgrows.apart .nil
    have hknown : (((met s.namings).reverse ++ []).map Prod.fst).Nodup :=
      hgrows.known ▸ hgrows.distinct .nil
    rw [List.append_nil, List.nodup_reverse] at hnames
    rw [List.append_nil, List.map_reverse, List.nodup_reverse] at hknown
    constructor
    · exact htables.nodup_iff.mp hknown
    · intro e he i r hhalves
      exact hgrows.halves i r ((hdescribes.halves i r).mpr ⟨e, he, hhalves⟩)
    · exact hnames
  · intro hapart
    apply Taken.exists_play
    constructor
    · have hnames := hapart.parameters
      rw [← List.append_nil s.parameterNames] at hnames
      exact hnames
    · have hknown := htables.nodup_iff.mpr hapart.tables
      rw [← List.append_nil (met s.namings)] at hknown
      exact hknown
    · intro i r hmem
      obtain ⟨e, he, hhalves⟩ := (hdescribes.halves i r).mp hmem
      exact hapart.halves e he i r hhalves
    · intro id name hmem
      apply List.mem_append_left
      exact (sourced_select s [] h id name hmem).resolve_left List.not_mem_nil

/-- Table expressions that have numbers of their own are new at the start. -/
theorem areNew_start {s : Select} (h : (numbers (s.entries [])).Nodup) :
    Writing.AreNew s.namings Progress.start.known := by
  have hids := (describes_select s []).met.map Prod.snd
  rw [List.map_map] at hids
  exact ⟨hids.nodup_iff.mpr h, fun _ _ => List.not_mem_nil⟩

/-- A statement whose table expressions have numbers of their own follows its namings. -/
theorem follows_write {s : Select} (h : (numbers (s.entries [])).Nodup) :
    Writing.Follows s.namings Progress.start (s.write .bound) :=
  names_write s _ (areNew_start h)

/-- A statement is written exactly if its names do not clash. -/
theorem isWritten_iff {s : Select} (hlexical : s.Lexical [])
    (hnumbers : (numbers (s.entries [])).Nodup) :
    (∃ w, s.written .bound = .ok w) ↔ s.NamesApart := by
  have hfollows := follows_write hnumbers
  rw [← play_iff hlexical]
  unfold written
  constructor
  · rintro ⟨w, hw⟩
    cases hplay : Progress.start.taken.play s.namings with
    | some t => exact ⟨t, rfl⟩
    | none =>
      rw [hfollows.error hplay] at hw
      cases hw
  · rintro ⟨t, ht⟩
    obtain ⟨text, p, hrun, -⟩ := hfollows.ok t ht
    rw [hrun]
    exact ⟨_, rfl⟩

/-- A statement whose names clash is not written. -/
theorem unwritable_of_clash {s : Select} (hlexical : s.Lexical [])
    (hnumbers : (numbers (s.entries [])).Nodup) (h : ¬ s.NamesApart) :
    s.written .bound = .error .unwritable := by
  have hfollows := follows_write hnumbers
  rw [← play_iff hlexical, not_exists] at h
  have hnone : Progress.start.taken.play s.namings = none :=
    Option.eq_none_iff_forall_ne_some.mpr h
  unfold written
  rw [hfollows.error hnone]
  rfl

/-- The parameters of a statement that is written have different names. -/
theorem nodup_parameters {s : Select} (hnumbers : (numbers (s.entries [])).Nodup) {w : Written}
    (h : s.written .bound = .ok w) : w.parameters.keys.Nodup := by
  have hfollows := follows_write hnumbers
  unfold written at h
  cases hplay : Progress.start.taken.play s.namings with
  | none =>
    rw [hfollows.error hplay] at h
    cases h
  | some t =>
    obtain ⟨text, p, hrun, htaken⟩ := hfollows.ok t hplay
    rw [hrun] at h
    cases h
    have hkeys := (Taken.grows_play hplay).keys .nil
    rwa [← htaken] at hkeys

end Select

end RowGate.Sql
