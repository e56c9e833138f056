import RowGate.Proofs.Plan.Bodies
import RowGate.Proofs.Plan.Spelling
/-!
Ordering terms in statements. The terms of windows that are written as text are checked, those of a
query for their direction only, and those of framed windows not at all. Main statement: which terms
the keys of a statement follow, and which terms are refused.
-/
namespace RowGate

open Sql

/-! ## Terms and keys -/

/-- A direction that terms may have. -/
def IsDirection (name : String) : Prop := name = "asc" ∨ name = "desc"

/-- A term with a direction that terms may have, and nulls first or last if it says where they are. -/
structure OrderTerm.IsProper (o : OrderTerm) : Prop where
  direction : IsDirection o.direction
  nulls : ∀ n ∈ o.nulls, n = "first" ∨ n = "last"

/-- A key orders as a term says: by the same field, in the same direction, with nulls at the same
end. -/
structure OrderTerm.IsFollowed (o : OrderTerm) (k : OrderKey) : Prop where
  field : Column.of o.field = .ok k.column
  direction : o.direction = if k.descending then "desc" else "asc"
  nulls : o.nulls = k.nullsFirst.map fun first => if first then "first" else "last"

/-- A key made for a term. It follows the term exactly if this is proper; of any other term it keeps
the field, ascends unless the direction is the descending one, and puts nulls where the term says if
this is one of the ends. -/
structure OrderTerm.Makes (o : OrderTerm) (k : OrderKey) : Prop where
  field : Column.of o.field = .ok k.column
  followed : o.IsFollowed k ↔ o.IsProper
  descending : k.descending = true ↔ o.direction = "desc"
  nulls : ∀ first, k.nullsFirst = some first ↔ o.nulls = some (if first then "first" else "last")

/-- The end at which a key puts nulls for what a term says. -/
def nullsEnd (nulls : Option String) : Option Bool :=
  match nulls with
  | some "first" => some true
  | some "last" => some false
  | _ => none

theorem nullsEnd_eq_some {nulls : Option String} {first : Bool} :
    nullsEnd nulls = some first ↔ nulls = some (if first then "first" else "last") := by
  unfold nullsEnd
  split
  · cases first <;> simp
  · cases first <;> simp
  · rename_i hfirst hlast
    cases first
    · simpa using hlast
    · simpa using hfirst

/-- An end is kept exactly if it is one that keys have, or none is given. -/
theorem nullsEnd_map {nulls : Option String} :
    nulls = (nullsEnd nulls).map (fun first => if first then "first" else "last") ↔
      ∀ n ∈ nulls, n = "first" ∨ n = "last" := by
  unfold nullsEnd
  split
  · simp
  · simp
  · rename_i hfirst hlast
    cases nulls with
    | none => simp
    | some n => simp_all

theorem OrderTerm.makes {o : OrderTerm} {k : OrderKey} (h : o.Selected k) : o.Makes k := by
  obtain ⟨column, hcolumn, hdone⟩ := sequence_eq_ok.mp h
  obtain rfl : k = ⟨column, o.direction = "desc", nullsEnd o.nulls⟩ := (pure_answers.mp hdone).symm
  have hdirection : (o.direction = if (decide (o.direction = "desc")) then "desc" else "asc") ↔
      IsDirection o.direction := by
    unfold IsDirection
    by_cases hdesc : o.direction = "desc" <;> simp [hdesc]
  constructor
  · exact hcolumn
  · constructor
    · intro hfollowed
      exact ⟨hdirection.mp hfollowed.direction, nullsEnd_map.mp hfollowed.nulls⟩
    · intro hproper
      exact ⟨hcolumn, hdirection.mpr hproper.direction, nullsEnd_map.mpr hproper.nulls⟩
  · exact decide_eq_true_iff
  · exact fun first => nullsEnd_eq_some

/-! ## Terms of a query in its body -/

/-- A window in the columns of a body, written with all its terms, which are proper. -/
structure Window.IsOrdered (w : Window) (p : Projection) : Prop where
  text : p = .window w.text w.label
  proper : ∀ o ∈ w.orderBy, o.IsProper

/-- A framed window in the columns of a body, with a key for each of its terms. -/
def FramedWindow.IsOrdered (w : FramedWindow) (p : Projection) : Prop :=
  ∃ column, p = .framed column w.label ∧ List.Forall₂ OrderTerm.Makes w.orderBy column.order

/-- A body with what is made of the ordering terms of a query, each at its place. -/
structure Query.IsOrdered (q : Query) (b : Body) : Prop where
  orderBy : List.Forall₂ OrderTerm.Makes q.orderBy b.orderBy
  directions : ∀ o ∈ q.orderBy, IsDirection o.direction
  windows : ∃ front windows framed, b.projection = front ++ (windows ++ framed) ∧
    List.Forall₂ Window.IsOrdered q.windows windows ∧
    List.Forall₂ FramedWindow.IsOrdered q.framedWindows framed

/-- The terms of a query that are checked pass: those of its windows, and the directions of its
own. -/
structure Query.HasKnownOrder (q : Query) : Prop where
  orderBy : ∀ o ∈ q.orderBy, IsDirection o.direction
  windows : ∀ w ∈ q.windows, ∀ o ∈ w.orderBy, o.IsProper

theorem Query.IsValidLevel.hasKnownOrder {q : Query} (h : q.IsValidLevel) : q.HasKnownOrder := by
  constructor
  · exact h.orderBy
  · intro w hw o ho
    obtain ⟨hdirection, -, hnulls⟩ := (h.windows w hw).orderBy o ho
    exact ⟨hdirection, hnulls⟩

theorem FramedWindow.isOrdered {w : FramedWindow} {p : Projection} (h : w.Selected p) :
    w.IsOrdered p := by
  obtain ⟨column, hcolumn, rfl⟩ := h
  rw [windowColumn_eq] at hcolumn
  simp only [sequence_eq_ok, pure_answers] at hcolumn
  obtain ⟨_, -, _, -, _, -, _, -, order, horder, _, -, rfl⟩ := hcolumn
  exact ⟨_, rfl, (mapM_eq_ok_iff.mp horder).imp fun _ _ => OrderTerm.makes⟩

/-- What a body selects for a query is ordered as its terms say. -/
theorem Query.Selects.isOrdered {q : Query} {listed : List String} {b : Body}
    (h : q.Selects listed b) (hknown : q.HasKnownOrder) : q.IsOrdered b := by
  obtain ⟨front, aggregates, windows, framed, -, -, hwindows, hframed, hprojection⟩ := h.projection
  have hwritten : List.Forall₂ Window.IsOrdered q.windows windows := by
    apply ((List.forall₂_and_left _ _).mpr ⟨hknown.windows, hwindows⟩).imp
    rintro w p ⟨hproper, text, htext, rfl⟩
    rw [fragment_eq htext]
    exact ⟨rfl, hproper⟩
  constructor
  · exact h.orderBy.imp fun _ _ => OrderTerm.makes
  · exact hknown.orderBy
  · exact ⟨front ++ aggregates, windows, framed, hprojection, hwritten,
      hframed.imp fun _ _ => FramedWindow.isOrdered⟩

/-! ## Refused queries -/

/-- No two windows of a query share a name, and no two table expressions. -/
structure Query.HasOwnNames (q : Query) : Prop where
  windows : (q.windows.map (·.label) ++ q.framedWindows.map (·.label)).Nodup
  tables : (q.tables.map (·.name) ++ q.recursiveTables.map (·.name)).Nodup

/-- A check is met if it is one of names. -/
def Requirement.MetByNames (r : Requirement) : Prop :=
  ∀ windows tables, r = .distinct windows tables → r.Met

theorem metByNames_clauses (q : Query) : ∀ r ∈ q.clauseRequirements, r.MetByNames := by
  unfold Query.clauseRequirements Window.requirements OrderTerm.requirements
    FramedWindow.requirements
  simp only [List.forall_mem_append, List.forall_mem_flatMap, List.forall_mem_cons,
    List.forall_mem_map, Option.mem_toList, Option.map_eq_some_iff, List.not_mem_nil,
    forall_exists_index, and_imp, forall_apply_eq_imp_iff₂, Requirement.MetByNames, reduceCtorEq,
    false_imp_iff, implies_true, and_true]

mutual

/-- If no names are shared in a query and in those inside it, the checks of names are met. -/
theorem metByNames_requirements (q : Query) (h : ∀ l ∈ q.levels, l.HasOwnNames) :
    ∀ r ∈ q.requirements, r.MetByNames := by
  match q with
  | {tables, recursiveTables, ..} =>
    obtain ⟨hown, htables, hrecursive⟩ := forall_levels.mp h
    rw [Query.requirements]
    refine List.forall_mem_cons.mpr ⟨fun _ _ _ => ⟨hown.windows, hown.tables⟩, ?_⟩
    refine List.forall_mem_append.mpr ⟨metByNames_tables tables htables, ?_⟩
    exact List.forall_mem_append.mpr ⟨metByNames_recursiveTables recursiveTables hrecursive,
      metByNames_clauses _⟩

theorem metByNames_tables : (ts : List (TableExpr Query)) →
    (∀ t ∈ ts, ∀ l ∈ t.query.levels, l.HasOwnNames) → ∀ r ∈ tableRequirements ts, r.MetByNames
  | [], _ => List.forall_mem_nil _
  | {name, query, ..} :: rest, h => by
    obtain ⟨hfirst, hrest⟩ := List.forall_mem_cons.mp h
    rw [tableRequirements]
    refine List.forall_mem_cons.mpr ⟨nofun, List.forall_mem_append.mpr ⟨?_, ?_⟩⟩
    · exact metByNames_requirements query hfirst
    · exact metByNames_tables rest hrest

theorem metByNames_recursiveTables : (ts : List (RecursiveExpr Query)) →
    (∀ t ∈ ts, (∀ l ∈ t.initial.levels, l.HasOwnNames) ∧
      ∀ l ∈ t.recursive.levels, l.HasOwnNames) →
    ∀ r ∈ recursiveTableRequirements ts, r.MetByNames
  | [], _ => List.forall_mem_nil _
  | {name, initial, recursive, ..} :: rest, h => by
    obtain ⟨⟨hinitial, hrecursive⟩, hrest⟩ := List.forall_mem_cons.mp h
    rw [recursiveTableRequirements]
    refine List.forall_mem_cons.mpr ⟨nofun, List.forall_mem_append.mpr ⟨?_, ?_⟩⟩
    · exact metByNames_requirements initial hinitial
    · exact List.forall_mem_append.mpr ⟨metByNames_requirements recursive hrecursive,
        metByNames_recursiveTables rest hrest⟩

end

/-- A query of which no name is shared, and which is not valid, is refused for a feature that is not
supported. -/
theorem unsupported_of_invalid {q : Query} (catalog : Catalog) (table : String)
    (hnames : ∀ l ∈ q.levels, l.HasOwnNames) (hinvalid : ¬ q.IsValid) :
    ∃ feature, q.statement catalog table = .error (.unsupported feature) := by
  have hsettles : Settles q.compile.run.1 q.requirements := settles_compile q []
  rw [statement_eq]
  cases hcompile : q.compile.run.1 with
  | ok os =>
    have hmet := hsettles.ok_iff.mp ⟨os, hcompile⟩
    exact absurd ((met_requirements q).mp hmet) hinvalid
  | error f =>
    obtain ⟨before, r, after, hsplit, -, hunmet, rfl⟩ := hsettles.error_iff.mp hcompile
    have hr : r ∈ q.requirements := by rw [hsplit]; simp
    have hnaming := metByNames_requirements q hnames r hr
    rcases r.fault_cases with ⟨windows, tables, hdistinct, -⟩ | ⟨-, feature, hfeature⟩
    · exact absurd (hnaming windows tables hdistinct) hunmet
    · exact ⟨feature, by rw [hfeature]; rfl⟩

/-- The queries inside a valid query are valid. -/
theorem Query.IsValid.levels {q : Query} (h : q.IsValid) : ∀ l ∈ q.levels, l.IsValidLevel := by
  induction h with
  | mk level _ _ _ htables hinitial hrecursive =>
    exact forall_levels.mpr ⟨level, htables, fun t ht => ⟨hinitial t ht, hrecursive t ht⟩⟩

/-- In a statement there is a key for each ordering term of its query, of the framed windows of the
query and of the queries inside it, which follows the term exactly if this is proper; the windows
that are written as text hold their terms, all of which are proper. Unless names are shared, a query
with a term of such a window that is not proper, or with a direction of its own that is no direction,
is refused for a feature that is not supported. -/
theorem ordering_terms_placed (catalog : Catalog) (table : String) (q : Query) :
    (∀ s, q.statement catalog table = .ok s → List.Forall₂ Query.IsOrdered q.levels s.bodies) ∧
    ((∀ l ∈ q.levels, l.HasOwnNames) → (∃ l ∈ q.levels, ¬ l.HasKnownOrder) →
      ∃ feature, q.statement catalog table = .error (.unsupported feature)) := by
  constructor
  · intro s hs
    have hcompiled := hs
    rw [statement_eq] at hcompiled
    obtain ⟨os, hcompile, -⟩ := sequence_eq_ok.mp hcompiled
    have hvalid : q.IsValid := (met_requirements q).mp
      ((settles_compile q []).ok_iff.mp ⟨os, hcompile⟩)
    have hselects := (selects_of_statement hcompile hs).1
    apply ((List.forall₂_and_left _ _).mpr ⟨hvalid.levels, hselects⟩).imp
    rintro l b ⟨hlevel, listed, hselected⟩
    exact hselected.isOrdered hlevel.hasKnownOrder
  · rintro hnames ⟨l, hl, hunknown⟩
    apply unsupported_of_invalid catalog table hnames
    exact fun hvalid => hunknown (hvalid.levels l hl).hasKnownOrder

/-- Posts in a table expression, ordered at each place where a query orders rows. -/
def sortedPosts (nulls : Option String) (direction textDirection : String) : Query :=
  let posts : Query :=
    { Query.empty none with
      orderBy := [⟨"likes", "desc", nulls⟩]
      windows := [⟨"rank", "place", none, [], [⟨"likes", textDirection, some "last"⟩], none⟩]
      framedWindows := [⟨"sum", "total", some "likes", [], [⟨"day", direction, none⟩], none, []⟩] }
  { Query.empty none with tables := [⟨"sorted", posts, [], some "posts"⟩] }

theorem sorted_posts_ordered :
    (∃ s, (sortedPosts (some "last") "asc" "desc").statement [] "sorted" = .ok s ∧
      List.Forall₂ Query.IsOrdered (sortedPosts (some "last") "asc" "desc").levels s.bodies) ∧
    ∃ feature, (sortedPosts (some "last") "asc" "down").statement [] "sorted" =
      .error (.unsupported feature) := by
  obtain ⟨hordered, -⟩ :=
    ordering_terms_placed [] "sorted" (sortedPosts (some "last") "asc" "desc")
  obtain ⟨-, hrefused⟩ := ordering_terms_placed [] "sorted" (sortedPosts (some "last") "asc" "down")
  constructor
  · exact ⟨_, rfl, hordered _ rfl⟩
  · apply hrefused
    · intro l hl
      rcases List.mem_cons.mp hl with rfl | hl
      · exact ⟨by decide, by decide⟩
      · rw [List.mem_singleton.mp hl]
        exact ⟨by decide, by decide⟩
    · refine ⟨_, List.mem_cons_self, fun hknown => ?_⟩
      have hdirection := (hknown.windows _ List.mem_cons_self _ List.mem_cons_self).direction
      revert hdirection
      simp [IsDirection]

theorem order_of_nulls_lost : ∃ s front column,
    (sortedPosts (some "middle") "DESC" "desc").statement [] "sorted" = .ok s ∧
    s.bodies.map (·.orderBy) = [[⟨.named "likes", true, none⟩], []] ∧
    s.bodies.map (·.projection) = [front ++ [.framed column "total"], [.column (.verbatim "*")]] ∧
    column.order = [⟨.named "day", false, none⟩] ∧
    ¬ OrderTerm.IsFollowed ⟨"likes", "desc", some "middle"⟩ ⟨.named "likes", true, none⟩ ∧
    ¬ OrderTerm.IsFollowed ⟨"day", "DESC", none⟩ ⟨.named "day", false, none⟩ := by
  refine ⟨_, [_, _], _, rfl, rfl, rfl, rfl, ?_, ?_⟩
  · exact fun hfollowed => nomatch hfollowed.nulls
  · intro hfollowed
    have hdirection := hfollowed.direction
    revert hdirection
    decide

end RowGate
