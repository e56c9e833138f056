import RowGate.Review.Suggestion
import RowGate.Proofs.Plan.Where
/-!
Advice on queries without conditions. Main statements: which queries the review takes for filtered
although their statement has no condition, or the other way round; and when a query on a large table
is advised to add filters, for every plan.
-/
namespace RowGate

open Sql ExecutionPlan

/-! ## Conditions that the review looks for -/

/-- None of the conditions that the review looks for, groups aside. -/
def Query.HasNoneSeen (q : Query) : Prop :=
  q.filter = [] ∧ q.conditions = [] ∧ q.ranges = [] ∧ q.nulls = []

/-- None of the conditions that the review does not look for. -/
def Query.HasNoneUnseen (q : Query) : Prop :=
  q.fragments = [] ∧ q.notNulls = [] ∧ q.isIn = [] ∧ q.notIn = [] ∧ q.exists_ = []

/-- No condition in the groups of a query, at any depth. -/
def Query.HasVoidGroups (q : Query) : Prop := ∀ g ∈ q.groups, memberPredicates g.members = []

/-- A query whose conditions are all of kinds that the review does not look for. -/
@[mk_iff]
structure Query.IsOverlooked (q : Query) : Prop where
  unseen : q.HasNoneSeen ∧ q.groups = []
  filtered : ¬ q.HasNoneUnseen

/-- A query with groups, which the review takes for conditions, although nothing in it is one. -/
@[mk_iff]
structure Query.IsHollow (q : Query) : Prop where
  groups : q.groups ≠ []
  void : q.HasVoidGroups
  others : q.HasNoneSeen ∧ q.HasNoneUnseen

theorem hasWhere_eq_false {q : Query} : q.hasWhere = false ↔ q.HasNoneSeen ∧ q.groups = [] := by
  unfold Query.hasWhere Query.HasNoneSeen
  simp only [Bool.or_eq_false_iff, Bool.not_eq_false', List.isEmpty_iff, and_assoc]

theorem predicates_clauses_eq_nil {q : Query} : q.clauses.flatMap Clause.predicates = [] ↔
    q.HasNoneSeen ∧ q.HasNoneUnseen ∧ q.HasVoidGroups := by
  unfold Query.clauses Query.HasNoneSeen Query.HasNoneUnseen Query.HasVoidGroups
  simp only [List.flatMap_append, List.flatMap_map, List.append_eq_nil_iff,
    List.flatMap_eq_nil_iff, Clause.predicates, List.cons_ne_nil, imp_false,
    ← List.eq_nil_iff_forall_not_mem]
  tauto

/-- The review takes a query for filtered where its statement has a condition, unless it overlooks
all conditions of the query or takes groups without conditions for some. -/
theorem hasWhere_agrees_iff {q : Query} {js : List Criterion} (h : Expresses q.clauses js) :
    (q.hasWhere = true ↔ js ≠ []) ↔ ¬ q.IsOverlooked ∧ ¬ q.IsHollow := by
  have hvoid : q.groups = [] → q.HasVoidGroups := by
    intro hnone g hg
    rw [hnone] at hg
    cases hg
  rw [← Bool.not_eq_false, hasWhere_eq_false, Ne, h.eq_nil_iff, predicates_clauses_eq_nil,
    Query.isOverlooked_iff, Query.isHollow_iff]
  tauto

/-! ## Plans as a database explains them -/

/-- An integer or a float. -/
def Value.IsMeasure (v : Value) : Prop := (∃ n : Int, v = .int n) ∨ ∃ x : Float, v = .float x

theorem less_measures {v w : Value} (hv : v.IsMeasure) (hw : w.IsMeasure) :
    ∃ b, v.less w = .ok b := by
  obtain ⟨n, rfl⟩ | ⟨x, rfl⟩ := hv
  · obtain ⟨m, rfl⟩ | ⟨y, rfl⟩ := hw
    · exact ⟨_, rfl⟩
    · exact ⟨_, rfl⟩
  · obtain ⟨m, rfl⟩ | ⟨y, rfl⟩ := hw
    · exact ⟨_, rfl⟩
    · exact ⟨_, rfl⟩

namespace ExecutionPlan

/-- A field that is absent, or an integer or a float. -/
def HasMeasure (node : Record) (field : String) : Prop :=
  node.get field = .null ∨ (node.get field).IsMeasure

/-- The items of a field that is absent or a list. -/
def listUnder (node : Record) (field : String) : Option (List Value) :=
  match node.get field with
  | .null => some []
  | .list vs => some vs
  | _ => none

/-- A node as a database explains it: the fields that are looked at have the types that they are
documented with, and so have those of the nodes below. -/
inductive IsNode : Value → Prop
  | mk {node : Record} {children keys : List Value}
      (hchildren : listUnder node "Plans" = some children)
      (hnodes : ∀ v ∈ children, IsNode v) (hkeys : listUnder node "Sort Key" = some keys)
      (hspace : HasMeasure node "Sort Space Used") (hrows : HasMeasure node "Plan Rows") :
      IsNode (.map node)

/-- A walk that goes through to its end, and what it meets has a property. -/
structure Walk.Covers (w : Walk) (P : Record → Prop) : Prop where
  ends : w.failure = none
  nodes : ∀ n ∈ w.nodes, P n

theorem Walk.Covers.append {a b : Walk} {P : Record → Prop} (ha : a.Covers P) (hb : b.Covers P) :
    (a.append b).Covers P := by
  unfold Walk.append
  rw [ha.ends]
  exact ⟨hb.ends, List.forall_mem_append.mpr ⟨ha.nodes, hb.nodes⟩⟩

theorem covers_walkAll {P : Record → Prop} {vs : List Value}
    (h : ∀ v ∈ vs, (walkFrom v).Covers P) : (walkAll vs).Covers P := by
  induction vs with
  | nil => exact ⟨rfl, nofun⟩
  | cons v vs ih =>
    obtain ⟨hfirst, hrest⟩ := List.forall_mem_cons.mp h
    rw [walkAll]
    exact hfirst.append (ih hrest)

theorem walkBelow_eq {node : Record} {children : List Value}
    (h : listUnder node "Plans" = some children) : walkBelow node = walkAll children := by
  have hbelow : walkBelow node = walkAmong (node.get "Plans") := by
    clear h
    induction node with
    | nil => rfl
    | cons field fields ih =>
      obtain ⟨k, v⟩ := field
      rw [walkBelow, Record.get, List.lookup_cons]
      by_cases hk : k = "Plans"
      · rw [if_pos hk, hk]
        rfl
      · have hne : ("Plans" == k) = false := beq_eq_false_iff_ne.mpr (Ne.symm hk)
        rw [if_neg hk, hne]
        exact ih
  rw [hbelow]
  unfold listUnder at h
  split at h
  · next hnull =>
    obtain rfl := Option.some.inj h
    rw [hnull]
    rfl
  · next vs hvs =>
    obtain rfl := Option.some.inj h
    rw [hvs]
    rfl
  · cases h

/-- A walk through a plan that a database explains meets its nodes. -/
theorem covers_walkFrom {v : Value} (h : IsNode v) :
    (walkFrom v).Covers fun n => IsNode (.map n) := by
  induction h with
  | @mk node children keys hchildren hnodes hkeys hspace hrows ih =>
    have hnode : IsNode (.map node) := .mk hchildren hnodes hkeys hspace hrows
    cases node with
    | nil => exact ⟨rfl, nofun⟩
    | cons f fs =>
      have hbelow := covers_walkAll ih
      rw [← walkBelow_eq hchildren] at hbelow
      exact ⟨hbelow.ends, List.forall_mem_cons.mpr ⟨hnode, hbelow.nodes⟩⟩

section Looking

variable {w : Walk} {P : Record → Prop}

theorem Walk.Covers.finish (h : w.Covers P) {α : Type} (a : α) : w.finish a = .ok a := by
  unfold Walk.finish
  rw [h.ends]

theorem Walk.Covers.any (h : w.Covers P) (p : Record → Bool) : w.any p = .ok (w.nodes.any p) := by
  unfold Walk.any
  rw [h.finish]
  cases w.nodes.any p <;> rfl

theorem Walk.Covers.hasLoops (h : w.Covers P) {most : Value} (hmost : most.IsMeasure) :
    ∃ b, hasLoops w most = .ok b := by
  unfold ExecutionPlan.hasLoops Walk.all
  rw [h.finish, ok_sequence]
  split
  · exact ⟨_, rfl⟩
  · exact less_measures hmost (.inl ⟨_, rfl⟩)

theorem Walk.Covers.unindexedJoins (h : w.Covers P) : ∃ n, unindexedJoins w = .ok n := by
  unfold ExecutionPlan.unindexedJoins Walk.all
  rw [h.finish]
  exact ⟨_, rfl⟩

theorem present_isMeasure {node : Record} {field : String} (h : HasMeasure node field) :
    ((present? node field).getD (.int 0)).IsMeasure := by
  rcases h with hnull | hmeasure
  · unfold present?
    rw [hnull]
    exact .inl ⟨0, rfl⟩
  · unfold present?
    simp only
    split
    · exact hmeasure
    · exact .inl ⟨0, rfl⟩

theorem present_items {node : Record} {field : String} {vs : List Value}
    (h : listUnder node field = some vs) :
    ((present? node field).getD (.list [])).items? = some vs := by
  unfold listUnder at h
  unfold present?
  split at h
  · next hnull =>
    obtain rfl := Option.some.inj h
    rw [hnull]
    rfl
  · next us hus =>
    obtain rfl := Option.some.inj h
    rw [hus]
    cases us with
    | nil => rfl
    | cons u us => rfl
  · cases h

theorem isCostlySort_answers (fields : List String) {most : Value} (hmost : most.IsMeasure)
    {node : Record} (hnode : IsNode (.map node)) :
    ∃ b, isCostlySort fields most node = .ok b := by
  cases hnode with
  | mk _ _ hkeys hspace _ =>
    obtain ⟨above, habove⟩ := less_measures hmost (present_isMeasure hspace)
    unfold isCostlySort
    simp only [habove, present_items hkeys, ok_sequence, pure_bind]
    split
    · split
      · exact ⟨_, rfl⟩
      · split
        · exact ⟨_, rfl⟩
        · exact ⟨_, rfl⟩
    · split
      · exact ⟨_, rfl⟩
      · split
        · exact ⟨_, rfl⟩
        · exact ⟨_, rfl⟩

theorem someCostly_answers (fields : List String) {most : Value} (hmost : most.IsMeasure)
    {nodes : List Record} (hnodes : ∀ n ∈ nodes, IsNode (.map n)) :
    ∃ b, someCostly fields most nodes = .ok b := by
  induction nodes with
  | nil => exact ⟨_, rfl⟩
  | cons n rest ih =>
    obtain ⟨hfirst, hrest⟩ := List.forall_mem_cons.mp hnodes
    rw [someCostly]
    split
    · obtain ⟨b, hb⟩ := isCostlySort_answers fields hmost hfirst
      rw [hb, ok_sequence]
      cases b
      · exact ih hrest
      · exact ⟨_, rfl⟩
    · exact ih hrest

theorem Walk.Covers.hasCostlySort (h : w.Covers fun n => IsNode (.map n)) (fields : List String)
    {most : Value} (hmost : most.IsMeasure) : ∃ b, hasCostlySort w fields most = .ok b := by
  unfold ExecutionPlan.hasCostlySort
  split
  · exact ⟨_, rfl⟩
  · obtain ⟨b, hb⟩ := someCostly_answers fields hmost h.nodes
    rw [hb, ok_sequence]
    split
    · exact ⟨_, rfl⟩
    · exact ⟨_, h.finish _⟩

end Looking

end ExecutionPlan

/-! ## Advice -/

/-- A plan that is explained, or nothing that a plan could be told from. -/
def ExecutionPlan.IsExplained (plan : Value) : Prop :=
  ∀ node, root plan = some node → IsNode (.map node)

/-- The number of rows that a table is taken to have: the estimate, or what the plan says. -/
def ExecutionPlan.rows (estimate plan : Value) : Value :=
  if estimate.isNull then ((root plan).map (·.get "Plan Rows")).getD .null else estimate

/-- Bounds that are integers or floats. -/
structure Config.HasMeasures (c : Config) : Prop where
  joins : c.maxJoins.IsMeasure
  table : c.largeTable.IsMeasure
  sort : c.sortMemory.IsMeasure

/-- A number of rows above a bound. -/
def Value.Exceeds (rows most : Value) : Prop := rows.isNull = false ∧ most.less rows = .ok true

theorem isLarge_eq_ok_true {v most : Value} : isLarge v most = .ok true ↔ v.Exceeds most := by
  unfold isLarge Value.Exceeds
  cases v.isNull
  · exact (and_iff_right rfl).symm
  · exact ⟨nofun, fun h => nomatch h.1⟩

theorem isLarge_answers {v most : Value} (hv : v = .null ∨ v.IsMeasure) (hmost : most.IsMeasure) :
    ∃ b, isLarge v most = .ok b := by
  unfold isLarge
  rcases hv with rfl | hv
  · exact ⟨_, rfl⟩
  · split
    · exact ⟨_, rfl⟩
    · exact less_measures hmost hv

theorem Query.advice_eq_ok {q : Query} {c : Config} {indexed : List String} {estimate plan : Value}
    {advice : List Suggestion} : q.advice c indexed estimate plan = .ok advice ↔
      ∃ scans, hasScan (walk (root plan)) = .ok scans ∧
        ∃ joins, hasCostlyJoins (walk (root plan)) c.maxJoins = .ok joins ∧
          ∃ large, isLarge (rows estimate plan) c.largeTable = .ok large ∧
            ∃ sorts, hasCostlySort (walk (root plan)) (q.orderBy.map (·.field)) c.sortMemory =
                .ok sorts ∧
              (if scans then
                  [.scans (q.filteredFields.filter (!indexed.contains ·))] else []) ++
                (if joins then [.joins] else []) ++
                (if large && !q.hasWhere then [.unfiltered] else []) ++
                (if sorts then [.sorting] else []) = advice := by
  unfold Query.advice isLargeTable
  simp only [sequence_eq_ok, pure_answers]
  rfl

theorem Query.advice_answers {q : Query} {c : Config} (hc : c.HasMeasures) (indexed : List String)
    {estimate plan : Value} (hestimate : estimate = .null ∨ estimate.IsMeasure)
    (hplan : IsExplained plan) : ∃ advice, q.advice c indexed estimate plan = .ok advice := by
  have hwalk : (walk (root plan)).Covers fun n => IsNode (.map n) := by
    unfold walk
    split
    · next node hroot => exact covers_walkFrom (hplan node hroot)
    · exact ⟨rfl, nofun⟩
  have hrows : rows estimate plan = .null ∨ (rows estimate plan).IsMeasure := by
    unfold rows
    split
    · cases hroot : root plan with
      | none => exact .inl rfl
      | some node =>
        cases hplan node hroot with
        | mk _ _ _ _ hrows => exact hrows
    · exact hestimate
  have hjoins : ∃ b, hasCostlyJoins (walk (root plan)) c.maxJoins = .ok b := by
    obtain ⟨loops, hloops⟩ := hwalk.hasLoops hc.joins
    obtain ⟨n, hn⟩ := hwalk.unindexedJoins
    unfold hasCostlyJoins hasCartesianJoin
    rw [hloops, ok_sequence]
    split
    · exact ⟨_, rfl⟩
    · rw [hwalk.any, ok_sequence]
      split
      · exact ⟨_, rfl⟩
      · rw [hn]
        exact ⟨_, rfl⟩
  obtain ⟨joins, hjoins⟩ := hjoins
  obtain ⟨large, hlarge⟩ := isLarge_answers hrows hc.table
  obtain ⟨sorts, hsorts⟩ := hwalk.hasCostlySort (q.orderBy.map (·.field)) hc.sort
  exact ⟨_, Query.advice_eq_ok.mpr ⟨_, hwalk.any isScan, joins, hjoins, large, hlarge, sorts, hsorts,
    rfl⟩⟩

/-- Filters are advised for a query that the review takes for unfiltered, on a large table. -/
theorem Query.unfiltered_mem_advice {q : Query} {c : Config} {indexed : List String}
    {estimate plan : Value} {advice : List Suggestion}
    (h : q.advice c indexed estimate plan = .ok advice) :
    .unfiltered ∈ advice ↔ (rows estimate plan).Exceeds c.largeTable ∧ q.hasWhere = false := by
  obtain ⟨scans, -, joins, -, large, hlarge, sorts, -, rfl⟩ := Query.advice_eq_ok.mp h
  rw [← isLarge_eq_ok_true, hlarge]
  cases scans <;> cases joins <;> cases sorts <;> simp

/-- Advice is always given; where the plan makes no sense there is none. -/
theorem Query.suggestions_answers (q : Query) (c : Config) (indexed : List String)
    (estimate plan : Value) : (q.suggestions c indexed estimate plan).run.1 =
      .ok ((q.advice c indexed estimate plan).toOption.getD []) := by
  unfold Query.suggestions
  cases q.advice c indexed estimate plan with
  | ok advice => rfl
  | error f => rfl

/-- The review takes a query for filtered where its statement has a condition, unless it overlooks
all conditions of the query or takes groups without conditions for some. For every plan, filters are
advised exactly if the plan makes sense, as explained plans do, the table is large and the review
takes the query for unfiltered; so this advice is right about a large table exactly if the query is
none of these. -/
theorem unfiltered_advised_iff {catalog : Catalog} {table : String} {q : Query} {s : Select}
    (hs : q.statement catalog table = .ok s) :
    ((q.hasWhere = true ↔ s.body.criteria ≠ []) ↔ ¬ q.IsOverlooked ∧ ¬ q.IsHollow) ∧
    (∀ form w, s.written form = .ok w → ∃ tables columns source texts rest,
      w.sql = tables ++ ("SELECT " ++ columns ++ " \nFROM " ++ source ++ whereText texts ++ rest) ∧
        (texts = [] ↔ s.body.criteria = [])) ∧
    ∀ (c : Config) (indexed : List String) (estimate plan : Value),
      ∃ advice, (q.suggestions c indexed estimate plan).run.1 = .ok advice ∧
        (.unfiltered ∈ advice ↔ (q.advice c indexed estimate plan).isOk = true ∧
          (rows estimate plan).Exceeds c.largeTable ∧ q.hasWhere = false) ∧
        (c.HasMeasures → estimate = .null ∨ estimate.IsMeasure → IsExplained plan →
          (q.advice c indexed estimate plan).isOk = true) ∧
        ((q.advice c indexed estimate plan).isOk = true →
          (rows estimate plan).Exceeds c.largeTable →
            ((.unfiltered ∈ advice ↔ s.body.criteria = []) ↔ ¬ q.IsOverlooked ∧ ¬ q.IsHollow)) := by
  have hagrees := hasWhere_agrees_iff (expresses_statement hs)
  refine ⟨hagrees, fun form w => written_where_iff (expresses_statement hs).proper,
    fun c indexed estimate plan => ?_⟩
  refine ⟨_, q.suggestions_answers c indexed estimate plan, ?_⟩
  have hexplained (hc : c.HasMeasures) (hestimate : estimate = .null ∨ estimate.IsMeasure)
      (hplan : IsExplained plan) : (q.advice c indexed estimate plan).isOk = true := by
    obtain ⟨advice, hadvice⟩ := q.advice_answers hc indexed hestimate hplan
    rw [hadvice]
    rfl
  cases hadvice : q.advice c indexed estimate plan with
  | error f =>
    rw [hadvice] at hexplained
    exact ⟨iff_of_false List.not_mem_nil (fun h => nomatch h.1), hexplained, nofun⟩
  | ok advice =>
    have hmem := Query.unfiltered_mem_advice hadvice
    refine ⟨hmem.trans (and_iff_right rfl).symm, fun _ _ _ => rfl, fun _ hlarge => ?_⟩
    have hshown : .unfiltered ∈ advice ↔ q.hasWhere = false := hmem.trans (and_iff_right hlarge)
    change (.unfiltered ∈ advice ↔ _) ↔ _
    rw [hshown, ← Bool.not_eq_true, not_iff_comm]
    exact Iff.comm.trans hagrees

/-- The plan of a scan of a million posts. -/
def longScan : Value :=
  .map [("Node Type", .text "Limit"), ("Plan Rows", .int 1000000),
    ("Plans", .list [.map [("Node Type", .text "Seq Scan"), ("Plan Rows", .int 1000000)]])]

theorem isExplained_longScan : IsExplained longScan := by
  intro node hnode
  cases hnode
  have hscan : IsNode (.map [("Node Type", .text "Seq Scan"), ("Plan Rows", .int 1000000)]) :=
    .mk rfl nofun rfl (.inl rfl) (.inr (.inl ⟨_, rfl⟩))
  exact .mk rfl (List.forall_mem_singleton.mpr hscan) rfl (.inl rfl) (.inr (.inl ⟨_, rfl⟩))

theorem hasMeasures_default : Config.default.HasMeasures :=
  ⟨.inl ⟨_, rfl⟩, .inl ⟨_, rfl⟩, .inl ⟨_, rfl⟩⟩

theorem exceeds_longScan : (rows .null longScan).Exceeds Config.default.largeTable := ⟨rfl, rfl⟩

theorem all_posts_advised : ∃ s advice, (Query.empty none).statement [] "posts" = .ok s ∧
    s.body.criteria = [] ∧
    ((Query.empty none).suggestions .default [] .null longScan).run.1 = .ok advice ∧
    .unfiltered ∈ advice := by
  have hbuilt : ∃ s, (Query.empty none).statement [] "posts" = .ok s ∧ s.body.criteria = [] :=
    ⟨_, rfl, rfl⟩
  obtain ⟨s, hs, hnone⟩ := hbuilt
  obtain ⟨-, -, hadvised⟩ := unfiltered_advised_iff hs
  obtain ⟨advice, hadvice, -, hexplained, hright⟩ := hadvised .default [] .null longScan
  have hok := hexplained hasMeasures_default (.inl rfl) isExplained_longScan
  have hplain : ¬ (Query.empty none).IsOverlooked ∧ ¬ (Query.empty none).IsHollow :=
    ⟨fun h => h.filtered ⟨rfl, rfl, rfl, rfl, rfl⟩, fun h => h.groups rfl⟩
  exact ⟨s, advice, hs, hnone, hadvice, ((hright hok exceeds_longScan).mpr hplain).mpr hnone⟩

/-- Posts with one like, as a list of values says. -/
def onceLikedPosts : Query := { Query.empty none with isIn := [("likes", [.int 1])] }

theorem once_liked_posts_advised : ∃ s advice, onceLikedPosts.statement [] "posts" = .ok s ∧
    s.body.criteria ≠ [] ∧
    (onceLikedPosts.suggestions .default [] .null longScan).run.1 = .ok advice ∧
    .unfiltered ∈ advice := by
  obtain ⟨advice, hadvice⟩ := onceLikedPosts.advice_answers hasMeasures_default [] (.inl rfl)
    isExplained_longScan
  have hrun := onceLikedPosts.suggestions_answers .default [] .null longScan
  rw [hadvice] at hrun
  refine ⟨_, advice, rfl, List.cons_ne_nil _ _, hrun, ?_⟩
  exact (Query.unfiltered_mem_advice hadvice).mpr ⟨exceeds_longScan, rfl⟩

end RowGate
