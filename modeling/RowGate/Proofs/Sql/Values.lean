import RowGate.Sql.Draft
import RowGate.Proofs.Correspondence
import RowGate.Proofs.Sql.Applied
/-!
Statements that differ in values only. Main statement: operations that differ in values only build
such statements, or fail in the same way.
-/
namespace RowGate

/-- Values that are neither null nor truth values nor made of others. -/
def Value.isScalar : Value → Bool
  | .number _ | .text _ | .bytes _ | .moment _ | .uuid _ => true
  | _ => false

variable {V : Value → Value → Prop}

/-- Values that may stand for each other in a query: scalars, or lists of scalars of any lengths.
Null and truth values, which are part of the text, stand for themselves. -/
inductive Slot (V : Value → Value → Prop) : Value → Value → Prop
  | null : V .null .null → Slot V .null .null
  | bool (b : Bool) : V (.bool b) (.bool b) → Slot V (.bool b) (.bool b)
  | scalar {v w} : v.isScalar → w.isScalar → V v w → Slot V v w
  | list {vs ws} : (∀ v ∈ vs, v.isScalar) → (∀ w ∈ ws, w.isScalar) → V (.list vs) (.list ws) →
      Slot V (.list vs) (.list ws)

theorem Slot.corresponds {v w : Value} (h : Slot V v w) : V v w := by
  cases h with
  | null h | bool _ h | scalar _ _ h | list _ _ h => exact h

/-- Operands of conditions. The bounds of a range correspond one by one. -/
structure OperandAlike (V : Value → Value → Prop) (operator : String) (v w : Value) : Prop where
  slot : Slot V v w
  bounds : operator = "between" → ∀ vs ws, v = .list vs → w = .list ws → List.Forall₂ V vs ws

/-- Conditions that differ in their values only. -/
inductive Condition.Alike (V : Value → Value → Prop) : Condition → Condition → Prop
  | mk (field operator : String) (joiner : Option Connective) {v w} : OperandAlike V operator v w →
      Alike V ⟨field, operator, v, joiner⟩ ⟨field, operator, w, joiner⟩

mutual

/-- Group members that differ in values only. -/
inductive GroupMember.Alike (V : Value → Value → Prop) : GroupMember → GroupMember → Prop
  | condition {c d} : Condition.Alike V c d → GroupMember.Alike V (.condition c) (.condition d)
  | group (connective : Connective) (joiner : Option Connective) {ms ns} : MembersAlike V ms ns →
      GroupMember.Alike V (.group connective ms joiner) (.group connective ns joiner)

/-- Lists of group members that differ in values only. -/
inductive MembersAlike (V : Value → Value → Prop) : List GroupMember → List GroupMember → Prop
  | nil : MembersAlike V [] []
  | cons {m n ms ns} : GroupMember.Alike V m n → MembersAlike V ms ns →
      MembersAlike V (m :: ms) (n :: ns)

end

/-- Groups that differ in values only. -/
structure Group.Alike (V : Value → Value → Prop) (g h : Group) : Prop where
  connective : g.connective = h.connective
  members : MembersAlike V g.members h.members

/-- Framed window columns that differ in the values of their conditions only. -/
inductive FramedWindow.Alike (V : Value → Value → Prop) : FramedWindow → FramedWindow → Prop
  | mk (w : FramedWindow) {conditions} : List.Forall₂ (Condition.Alike V) w.conditions conditions →
      Alike V w { w with conditions := conditions }

/-- Records with the same keys whose values may stand for each other. -/
def Record.Alike (V : Value → Value → Prop) : Record → Record → Prop :=
  List.Forall₂ fun x y => x.1 = y.1 ∧ Slot V x.2 y.2

mutual

/-- Operations that differ in values only. -/
inductive Operation.Alike (V : Value → Value → Prop) : Operation → Operation → Prop
  | table {os ps} (name : String) (columns : List String) (source : Option String) :
      OperationsAlike V os ps →
      Operation.Alike V (.table name os columns source) (.table name ps columns source)
  | recursiveTable {os ps os' ps'} (name : String) (keepRepeats : Bool) (columns : List String)
      (source recursiveSource : Option String) (recursiveColumns : List String) :
      OperationsAlike V os ps → OperationsAlike V os' ps' →
      Operation.Alike V
        (.recursiveTable name os os' keepRepeats columns source recursiveSource recursiveColumns)
        (.recursiveTable name ps ps' keepRepeats columns source recursiveSource recursiveColumns)
  | window (label fragment : String) :
      Operation.Alike V (.window label fragment) (.window label fragment)
  | framedWindow {w x} : FramedWindow.Alike V w x →
      Operation.Alike V (.framedWindow w) (.framedWindow x)
  | equals {r s} : Record.Alike V r s → Operation.Alike V (.equals r) (.equals s)
  | fragment (sql : String) {vs ws} : List.Forall₂ (Slot V) vs ws →
      Operation.Alike V (.fragment sql vs) (.fragment sql ws)
  | aggregate (type field label : String) :
      Operation.Alike V (.aggregate type field label) (.aggregate type field label)
  | condition (field operator : String) {v w} : OperandAlike V operator v w →
      Operation.Alike V (.condition field operator v) (.condition field operator w)
  | range (field : String) {low high low' high'} : V low low' → V high high' →
      Operation.Alike V (.range field low high) (.range field low' high')
  | isNull (field : String) : Operation.Alike V (.isNull field) (.isNull field)
  | notNull (field : String) : Operation.Alike V (.notNull field) (.notNull field)
  | isIn (field : String) {vs ws} : V (.list vs) (.list ws) →
      Operation.Alike V (.isIn field vs) (.isIn field ws)
  | notIn (field : String) {vs ws} : V (.list vs) (.list ws) →
      Operation.Alike V (.notIn field vs) (.notIn field ws)
  | exists_ (sql : String) {vs ws} : List.Forall₂ (Slot V) vs ws →
      Operation.Alike V (.exists_ sql vs) (.exists_ sql ws)
  | group {g h} : Group.Alike V g h → Operation.Alike V (.group g) (.group h)
  | groupBy (fields : List String) : Operation.Alike V (.groupBy fields) (.groupBy fields)
  | having (field operator : String) {v w} : OperandAlike V operator v w →
      Operation.Alike V (.having field operator v) (.having field operator w)
  | orderBy (field direction : String) (nulls : Option String) :
      Operation.Alike V (.orderBy field direction nulls) (.orderBy field direction nulls)
  | limit (count : Value) : Operation.Alike V (.limit count) (.limit count)
  | offset (count : Int) : Operation.Alike V (.offset count) (.offset count)

/-- Lists of operations that differ in values only. -/
inductive OperationsAlike (V : Value → Value → Prop) : List Operation → List Operation → Prop
  | nil : OperationsAlike V [] []
  | cons {o p os ps} : Operation.Alike V o p → OperationsAlike V os ps →
      OperationsAlike V (o :: os) (p :: ps)

end

namespace Sql

/-- Parameters of raw text that differ in their values only. -/
structure RawBinding.Alike (V : Value → Value → Prop) (b c : RawBinding) : Prop where
  name : b.name = c.name
  many : b.many = c.many
  value : V b.value c.value

/-- Raw texts that differ in the values of their parameters only. -/
inductive RawText.Alike (V : Value → Value → Prop) : RawText → RawText → Prop
  | mk (text : List Char) {bs cs} : List.Forall₂ (RawBinding.Alike V) bs cs →
      Alike V ⟨text, bs⟩ ⟨text, cs⟩

/-- Tests that differ in their values only. -/
inductive Test.Alike (V : Value → Value → Prop) : Test → Test → Prop
  | isNull (c : Column) (negated : Bool) : Alike V (.isNull c negated) (.isNull c negated)
  | isTruth (c : Column) (equal b : Bool) : Alike V (.isTruth c equal b) (.isTruth c equal b)
  | compare (c : Column) (op : Comparison) {v w} : V v w →
      Alike V (.compare c op v) (.compare c op w)
  | like (c : Column) (negated : Bool) {v w} : V v w →
      Alike V (.like c negated v) (.like c negated w)
  | likeAnyCase (c : Column) {v w} : V v w → Alike V (.likeAnyCase c v) (.likeAnyCase c w)
  | between (c : Column) {low high low' high'} : V low low' → V high high' →
      Alike V (.between c low high) (.between c low' high')
  | isIn (c : Column) (negated : Bool) {vs ws} : V (.list vs) (.list ws) →
      Alike V (.isIn c negated vs) (.isIn c negated ws)
  | raw {r s} : RawText.Alike V r s → Alike V (.raw r) (.raw s)

mutual

/-- Conditions joined in the same way of related predicates. -/
inductive Joined.Alike {α β : Type} (R : α → β → Prop) : Joined α → Joined β → Prop
  | one {a b} : R a b → Joined.Alike R (.one a) (.one b)
  | all {js ks} : JoinedAlike R js ks → Joined.Alike R (.all js) (.all ks)
  | any {js ks} : JoinedAlike R js ks → Joined.Alike R (.any js) (.any ks)

/-- Lists of conditions joined in the same way of related predicates. -/
inductive JoinedAlike {α β : Type} (R : α → β → Prop) : List (Joined α) → List (Joined β) → Prop
  | nil : JoinedAlike R [] []
  | cons {j k js ks} : Joined.Alike R j k → JoinedAlike R js ks → JoinedAlike R (j :: js) (k :: ks)

end

/-- Conditions that differ in values only. -/
abbrev Criterion.Alike (V : Value → Value → Prop) : Criterion → Criterion → Prop :=
  Joined.Alike (Test.Alike V)

/-- Window columns that differ in the values of their condition only. -/
inductive Over.Alike (V : Value → Value → Prop) : Over → Over → Prop
  | mk (w : Over) {criterion} : Option.Rel (Criterion.Alike V) w.criterion criterion →
      Alike V w { w with criterion := criterion }

/-- Selected columns that differ in values only. -/
inductive Projection.Alike (V : Value → Value → Prop) : Projection → Projection → Prop
  | column (c : Column) : Alike V (.column c) (.column c)
  | aggregate (function : String) (c : Column) (label : String) :
      Alike V (.aggregate function c label) (.aggregate function c label)
  | window (text label : String) : Alike V (.window text label) (.window text label)
  | framed {w x} (label : String) : Over.Alike V w x → Alike V (.framed w label) (.framed x label)

/-- Statements that differ in values only, without their table expressions. -/
inductive Body.Alike (V : Value → Value → Prop) : Body → Body → Prop
  | mk (b : Body) {projection criteria having} :
      List.Forall₂ (Projection.Alike V) b.projection projection →
      JoinedAlike (Test.Alike V) b.criteria criteria → JoinedAlike (Test.Alike V) b.having having →
      Alike V b { b with projection := projection, criteria := criteria, having := having }

mutual

/-- Statements that differ in values only. -/
inductive Select.Alike (V : Value → Value → Prop) : Select → Select → Prop
  | mk {ts us b c} : TablesAlike V ts us → Body.Alike V b c → Select.Alike V (.mk ts b) (.mk us c)

/-- Table expressions that differ in values only. -/
inductive CommonTable.Alike (V : Value → Value → Prop) : CommonTable → CommonTable → Prop
  | plain (id : Nat) (name : String) {q r} : Select.Alike V q r →
      CommonTable.Alike V (.plain id name q) (.plain id name r)
  | recursive (id : Nat) (name : String) (keepRepeats : Bool) {q r q' r'} : Select.Alike V q r →
      Select.Alike V q' r' → CommonTable.Alike V (.recursive id name q q' keepRepeats)
        (.recursive id name r r' keepRepeats)

/-- Lists of table expressions that differ in values only. -/
inductive TablesAlike (V : Value → Value → Prop) : List CommonTable → List CommonTable → Prop
  | nil : TablesAlike V [] []
  | cons {t u ts us} : CommonTable.Alike V t u → TablesAlike V ts us →
      TablesAlike V (t :: ts) (u :: us)

end

/-- Drafts that differ in values only. -/
inductive Draft.Alike (V : Value → Value → Prop) : Draft → Draft → Prop
  | mk (d : Draft) {tables aggregates windows criteria having} : TablesAlike V d.tables tables →
      List.Forall₂ (Projection.Alike V) d.aggregates aggregates →
      List.Forall₂ (Projection.Alike V) d.windows windows →
      JoinedAlike (Test.Alike V) d.criteria criteria →
      JoinedAlike (Test.Alike V) d.having having →
      Alike V d { d with
        tables := tables, aggregates := aggregates, windows := windows, criteria := criteria,
        having := having }

section Joining

variable {α β : Type} {R : α → β → Prop}

theorem JoinedAlike.append {js js' : List (Joined α)} {ks ks' : List (Joined β)}
    (h : JoinedAlike R js ks) (h' : JoinedAlike R js' ks') :
    JoinedAlike R (js ++ js') (ks ++ ks') := by
  match h with
  | .nil => exact h'
  | .cons hj hjs => exact .cons hj (hjs.append h')

namespace Joined.Alike

variable {a a' : Joined α} {b b' : Joined β}

theorem conjuncts (h : Joined.Alike R a b) : JoinedAlike R a.conjuncts b.conjuncts := by
  cases h with
  | one hab => exact .cons (.one hab) .nil
  | all hjs => exact hjs
  | any hjs => exact .cons (.any hjs) .nil

theorem disjuncts (h : Joined.Alike R a b) : JoinedAlike R a.disjuncts b.disjuncts := by
  cases h with
  | one hab => exact .cons (.one hab) .nil
  | all hjs => exact .cons (.all hjs) .nil
  | any hjs => exact hjs

theorem join (c : Connective) (h : Joined.Alike R a b) (h' : Joined.Alike R a' b') :
    Joined.Alike R (Joined.join c a a') (Joined.join c b b') := by
  cases c with
  | and => exact .all (h.conjuncts.append h'.conjuncts)
  | or => exact .any (h.disjuncts.append h'.disjuncts)

end Joined.Alike

theorem JoinedAlike.flatMap_conjuncts {js : List (Joined α)} {ks : List (Joined β)}
    (h : JoinedAlike R js ks) :
    JoinedAlike R (js.flatMap Joined.conjuncts) (ks.flatMap Joined.conjuncts) := by
  match h with
  | .nil => exact .nil
  | .cons hj hjs => exact hj.conjuncts.append hjs.flatMap_conjuncts

theorem JoinedAlike.conjunction {js : List (Joined α)} {ks : List (Joined β)}
    (h : JoinedAlike R js ks) :
    Option.Rel (Joined.Alike R) (Joined.conjunction js) (Joined.conjunction ks) := by
  match h with
  | .nil => exact .none
  | .cons hj .nil => exact .some hj
  | .cons hj (.cons hk hjs) =>
    have hall := (JoinedAlike.cons hj (.cons hk hjs)).flatMap_conjuncts
    exact .some (.all hall)

theorem JoinedAlike.of_ones {as : List α} {bs : List β} (h : List.Forall₂ R as bs) :
    JoinedAlike R (as.map .one) (bs.map .one) := by
  induction h with
  | nil => exact .nil
  | cons hab _ ih => exact .cons (.one hab) ih

end Joining

end Sql

open Sql

section Tests

/-- Scalars are no lists of values. -/
theorem asValues_scalar {v : Value} (h : v.isScalar) :
    asValues v = .error (.violation (.notValues v)) := by
  cases v <;> first | rfl | cases h

/-- The operands of a list operator are lists, or both calls fail. -/
theorem Slot.asValues {v w : Value} (h : Slot V v w) :
    Correspond (fun vs ws => v = .list vs ∧ w = .list ws) (asValues v) (asValues w) := by
  cases h with
  | null => exact .error (.invalid ..)
  | bool => exact .error (.invalid ..)
  | scalar hv hw =>
    rw [asValues_scalar hv, asValues_scalar hw]
    exact .error (.invalid ..)
  | list => exact .ok ⟨rfl, rfl⟩

/-- A test with an order is refused for null and truth values: both operands are, or neither. -/
theorem Slot.ordered {v w : Value} (h : Slot V v w) {t u : Test} (ht : Test.Alike V t u) :
    Correspond (Test.Alike V) (Test.ordered v t) (Test.ordered w u) := by
  have hscalar {v : Value} {t : Test} (hv : v.isScalar) : Test.ordered v t = .ok t := by
    cases v <;> first | rfl | cases hv
  cases h with
  | null => exact .error (.same _)
  | bool => exact .error (.same _)
  | scalar hv hw =>
    rw [hscalar hv, hscalar hw]
    exact .ok ht
  | list => exact .ok ht

theorem Slot.equality {v w : Value} (h : Slot V v w) (c : Column) (equal : Bool) :
    Test.Alike V (Test.equality c equal v) (Test.equality c equal w) := by
  have hscalar {v : Value} (hv : v.isScalar) :
      Test.equality c equal v = .compare c (if equal then .equal else .unequal) v := by
    cases v <;> first | rfl | cases hv
  cases h with
  | null => exact .isNull c _
  | bool b => exact .isTruth c equal b
  | scalar hv hw hvw =>
    rw [hscalar hv, hscalar hw]
    exact .compare c _ hvw
  | list _ _ hvw => exact .compare c _ hvw

/-- A range has two bounds on both sides or on neither. -/
theorem OperandAlike.asBounds {v w : Value} (h : OperandAlike V "between" v w) :
    Correspond (fun x y => V x.1 y.1 ∧ V x.2 y.2) (asBounds v) (asBounds w) := by
  unfold Sql.asBounds
  refine h.slot.asValues.bind fun vs ws hvs => ?_
  obtain ⟨rfl, rfl⟩ := hvs
  have hbounds := h.bounds rfl vs ws rfl rfl
  match hbounds with
  | .cons hlow (.cons hhigh .nil) => exact .ok ⟨hlow, hhigh⟩
  | .nil => exact .error (.invalid ..)
  | .cons _ .nil => exact .error (.invalid ..)
  | .cons _ (.cons _ (.cons _ _)) => exact .error (.invalid ..)

/-- The test of a condition differs in values only. -/
theorem OperandAlike.test {field operator : String} {v w : Value} (h : OperandAlike V operator v w) :
    Correspond (Test.Alike V) (Test.of field operator v) (Test.of field operator w) := by
  unfold Test.of
  unfold Test.ofOperator?
  split
  · rename_i test hfound
    refine .checked fun c => ?_
    split at hfound <;> cases hfound
    · exact .ok (h.slot.equality c true)
    · exact .ok (h.slot.equality c false)
    · exact .ok (h.slot.equality c false)
    · exact h.slot.ordered (.compare c .less h.slot.corresponds)
    · exact h.slot.ordered (.compare c .atMost h.slot.corresponds)
    · exact h.slot.ordered (.compare c .greater h.slot.corresponds)
    · exact h.slot.ordered (.compare c .atLeast h.slot.corresponds)
    · exact h.slot.ordered (.like c false h.slot.corresponds)
    · exact h.slot.ordered (.likeAnyCase c h.slot.corresponds)
    · exact h.slot.ordered (.like c true h.slot.corresponds)
    · refine h.slot.asValues.bind fun vs ws hvs => ?_
      obtain ⟨rfl, rfl⟩ := hvs
      exact .ok (.isIn c false h.slot.corresponds)
    · refine h.slot.asValues.bind fun vs ws hvs => ?_
      obtain ⟨rfl, rfl⟩ := hvs
      exact .ok (.isIn c true h.slot.corresponds)
    · exact h.asBounds.bind fun x y hxy => .ok (.between c hxy.1 hxy.2)
    · exact .ok (.isNull c false)
    · exact .ok (.isNull c true)
  · exact .error (.same _)

theorem conditionTest_alike {c d : Condition} (h : Condition.Alike V c d) :
    Correspond (Test.Alike V) (conditionTest c) (conditionTest d) := by
  cases h with
  | mk field operator joiner hvw => exact hvw.test

theorem joinNext_alike (connective : Connective) (joiner : Option Connective)
    {before before' : Option Criterion} {j k : Criterion}
    (hbefore : Option.Rel (Criterion.Alike V) before before') (hj : Criterion.Alike V j k) :
    Criterion.Alike V (joinNext connective joiner before j)
      (joinNext connective joiner before' k) := by
  cases hbefore with
  | none => exact hj
  | some h => exact h.join _ hj

/-- Conditions of groups differ in values only. -/
theorem membersCriterion_alike {connective : Connective} {before before' : Option Criterion}
    {ms ns : List GroupMember} (hbefore : Option.Rel (Criterion.Alike V) before before')
    (h : MembersAlike V ms ns) :
    Correspond (Option.Rel (Criterion.Alike V)) (membersCriterion connective before ms)
      (membersCriterion connective before' ns) := by
  match h with
  | .nil =>
    simp only [membersCriterion]
    exact .ok hbefore
  | .cons hm hms =>
    cases hm with
    | @condition c d hcd =>
      simp only [membersCriterion]
      refine (conditionTest_alike hcd).bind fun t u ht => ?_
      have hjoiner : c.joiner = d.joiner := by
        cases hcd
        rfl
      rw [hjoiner]
      exact membersCriterion_alike (.some (joinNext_alike _ _ hbefore (.one ht))) hms
    | group inner joiner hinner =>
      simp only [membersCriterion]
      refine (membersCriterion_alike .none hinner).bind fun j k hjk => ?_
      cases hjk with
      | none => exact membersCriterion_alike hbefore hms
      | some hjk => exact membersCriterion_alike (.some (joinNext_alike _ _ hbefore hjk)) hms

end Tests

section Drafts

theorem TablesAlike.append {ts ts' us us' : List CommonTable} (h : TablesAlike V ts us)
    (h' : TablesAlike V ts' us') : TablesAlike V (ts ++ ts') (us ++ us') := by
  match h with
  | .nil => exact h'
  | .cons ht hts => exact .cons ht (TablesAlike.append hts h')

variable {d d' : Draft}

theorem knownColumns_alike (h : d.Alike V d') (name : String) :
    d'.knownColumns name = d.knownColumns name := by
  cases h
  rfl

theorem child_alike (h : d.Alike V d') (table : String) (columns : List String)
    (own : List (String × Source)) :
    (d.child table columns own).Alike V (d'.child table columns own) := by
  cases h
  exact .mk _ .nil .nil .nil .nil .nil

/-- The same column is selected on both sides. -/
theorem column_alike (x : Except Fault Column) : Correspond (Projection.Alike V)
    (do return .column (← x)) (do return .column (← x)) :=
  .checked fun c => .ok (.column c)

theorem listed_alike (entry : String) :
    Correspond (Projection.Alike V) (Draft.listed entry) (Draft.listed entry) := by
  unfold Draft.listed
  dsimp only
  split
  · exact column_alike _
  · exact .ok (.column _)

theorem projection_alike (h : d.Alike V d') :
    Correspond (List.Forall₂ (Projection.Alike V)) d.projection d'.projection := by
  cases h with
  | @mk _ aggregates windows _ _ _ haggregates hwindows =>
    have hdone (columns columns' : List Projection)
        (hcolumns : List.Forall₂ (Projection.Alike V) columns columns') :
        Correspond (List.Forall₂ (Projection.Alike V))
          (.ok (columns ++ d.aggregates ++ d.windows)) (.ok (columns' ++ aggregates ++ windows)) :=
      .ok (List.rel_append (List.rel_append hcolumns haggregates) hwindows)
    have hsame (names : List String) : List.Forall₂ Eq names names :=
      List.forall₂_same.mpr fun _ _ => rfl
    have hnone {ps qs : List Projection} (hps : List.Forall₂ (Projection.Alike V) ps qs) :
        ps.isEmpty = qs.isEmpty := by
      cases hps <;> rfl
    unfold Draft.projection
    rw [hnone haggregates]
    dsimp only
    split
    · refine (Correspond.mapM ?_ (hsame _)).bind hdone
      rintro a _ rfl
      exact listed_alike a
    · split
      · exact hdone _ _ (.cons (.column _) .nil)
      · refine (Correspond.mapM ?_ (hsame _)).bind hdone
        rintro a _ rfl
        exact column_alike _

theorem statement_alike (h : d.Alike V d') :
    Correspond (Select.Alike V) d.statement d'.statement := by
  have hprojection := projection_alike h
  cases h with
  | mk htables _ _ hcriteria hhaving =>
    unfold Draft.statement
    refine hprojection.bind fun projection projection' hprojections => ?_
    refine .checked fun source => .checked fun groupBy => .checked fun limit => ?_
    dsimp only
    split
    · refine .checked fun offset => .ok ?_
      exact .mk htables (.mk ⟨_, _, _, _, _, _, _, _⟩ hprojections hcriteria hhaving)
    · exact .ok (.mk htables (.mk ⟨_, _, _, _, _, _, _, _⟩ hprojections hcriteria hhaving))

/-- A change of drafts that has to do with no values. -/
def Plain (f : Draft → Draft) : Prop :=
  ∀ d tables aggregates windows criteria having,
    f { d with
      tables := tables, aggregates := aggregates, windows := windows, criteria := criteria,
      having := having } =
    { f d with
      tables := tables, aggregates := aggregates, windows := windows, criteria := criteria,
      having := having }

theorem Plain.alike {f : Draft → Draft} (hf : Plain f) (h : d.Alike V d') :
    (f d).Alike V (f d') := by
  have hself := hf d d.tables d.aggregates d.windows d.criteria d.having
  cases h with
  | @mk tables aggregates windows criteria having htables haggregates hwindows hcriteria
      hhaving =>
    have hother := hf d tables aggregates windows criteria having
    rw [hother]
    refine .mk (f d) ?_ ?_ ?_ ?_ ?_
    · exact (congrArg Draft.tables hself).symm ▸ htables
    · exact (congrArg Draft.aggregates hself).symm ▸ haggregates
    · exact (congrArg Draft.windows hself).symm ▸ hwindows
    · exact (congrArg Draft.criteria hself).symm ▸ hcriteria
    · exact (congrArg Draft.having hself).symm ▸ hhaving

/-- Two works on drafts that differ in values only. -/
abbrev Works {α β : Type} (V : Value → Value → Prop) (R : α → β → Prop) (x : Drafting α)
    (y : Drafting β) : Prop :=
  Pairs (Draft.Alike V) R x y

/-- Both works add a clause. -/
abbrev Adds (V : Value → Value → Prop) (x y : Drafting Unit) : Prop :=
  Works V (fun _ _ => True) x y

theorem adds_plain {f : Draft → Draft} (hf : Plain f) : Adds V (modify f) (modify f) :=
  .modify fun _ _ hd => hf.alike hd

theorem adds_criterion {j k : Criterion} (h : Criterion.Alike V j k) :
    Adds V (Drafting.addCriterion j) (Drafting.addCriterion k) := by
  refine .modify fun d d' hd => ?_
  cases hd with
  | mk htables haggregates hwindows hcriteria hhaving =>
    exact .mk _ htables haggregates hwindows (hcriteria.append (.cons h .nil)) hhaving

theorem adds_test {x y : Except Fault Test} (h : Correspond (Test.Alike V) x y) :
    Adds V (Drafting.addTest x) (Drafting.addTest y) :=
  (Pairs.lift h).bind fun _ _ ht => adds_criterion (.one ht)

theorem adds_fieldTest (field : String) {t u : Column → Test} (h : ∀ c, Test.Alike V (t c) (u c)) :
    Adds V (Drafting.addFieldTest field t) (Drafting.addFieldTest field u) :=
  adds_test (.checked fun c => .ok (h c))

theorem adds_equals {r s : Record} (h : Record.Alike V r s) :
    Adds V (Drafting.addEquals r) (Drafting.addEquals s) := by
  induction h with
  | nil => exact .pure trivial
  | @cons x y _ _ hxy _ ih =>
    obtain ⟨k, v⟩ := x
    obtain ⟨k', w⟩ := y
    obtain ⟨rfl, hvw⟩ := hxy
    refine .checked fun c => ?_
    exact (adds_criterion (.one (hvw.equality c true))).bind fun _ _ _ => ih

theorem Slot.binding (name : String) {v w : Value} (h : Slot V v w) :
    RawBinding.Alike V (rawBinding name v) (rawBinding name w) := by
  have hscalar {v : Value} (hv : v.isScalar) : rawBinding name v = ⟨name, v, false⟩ := by
    cases v <;> first | rfl | cases hv
  cases h with
  | null h => exact ⟨rfl, rfl, h⟩
  | bool _ h => exact ⟨rfl, rfl, h⟩
  | scalar hv hw h =>
    rw [hscalar hv, hscalar hw]
    exact ⟨rfl, rfl, h⟩
  | list _ _ h => exact ⟨rfl, rfl, h⟩

/-- Raw text has the same parameters whatever their values are. -/
theorem rawText_alike (first : Nat) (opening sql : String) {vs ws : List Value}
    (h : List.Forall₂ (Slot V) vs ws) :
    Correspond (RawText.Alike V) (RawText.of first opening sql vs)
      (RawText.of first opening sql ws) := by
  have hlength := h.length_eq
  have hbindings (names : List String) : List.Forall₂ (RawBinding.Alike V)
      (List.zipWith rawBinding names vs) (List.zipWith rawBinding names ws) := by
    clear hlength
    induction h generalizing names with
    | nil => simp only [List.zipWith_nil_right, List.Forall₂.nil]
    | cons hvw _ ih =>
      cases names with
      | nil => exact .nil
      | cons name names => exact .cons (hvw.binding name) (ih names)
  unfold RawText.of
  rw [hlength]
  dsimp only
  split
  · exact .ok (.mk _ (hbindings _))
  · exact .error (.same _)

theorem adds_raw (opening sql : String) {vs ws : List Value} (h : List.Forall₂ (Slot V) vs ws) :
    Adds V (Drafting.addRaw opening sql vs) (Drafting.addRaw opening sql ws) := by
  have hlength := h.length_eq
  have hchecked : Correspond (fun _ _ => True) (checkBindings sql vs) (checkBindings sql ws) := by
    unfold checkBindings
    rw [hlength]
    exact .refl (fun _ => trivial) _
  have htext : Works V (RawText.Alike V) (Drafting.rawText opening sql vs)
      (Drafting.rawText opening sql ws) := by
    unfold Drafting.rawText
    refine (Pairs.lift hchecked).bind fun _ _ _ => Pairs.get.bind fun d d' hd => ?_
    have hfirst : d.nextRaw = d'.nextRaw := by
      cases hd
      rfl
    rw [hfirst, hlength]
    exact (adds_plain fun _ _ _ _ _ _ => rfl).bind fun _ _ _ => .lift (rawText_alike _ _ _ h)
  exact htext.bind fun _ _ hr => adds_criterion (.one (.raw hr))

theorem adds_group {g h : Group} (hgh : Group.Alike V g h) :
    Adds V (Drafting.addGroup g) (Drafting.addGroup h) := by
  have hcriterion : Correspond (Option.Rel (Criterion.Alike V)) (groupCriterion g)
      (groupCriterion h) := by
    unfold groupCriterion
    rw [hgh.connective]
    exact membersCriterion_alike .none hgh.members
  refine (Pairs.lift hcriterion).bind fun j k hjk => ?_
  cases hjk with
  | none => exact .pure trivial
  | some hjk => exact adds_criterion hjk

/-- The argument of a window column. -/
def windowArgument (w : FramedWindow) : Except Fault (Option Column) :=
  match w.field with
  | none => .ok none
  | some f => if w.type = "row_number" then .ok none else some <$> Column.of f

/-- The frame of a window column. -/
def windowFrame (w : FramedWindow) : Except Fault (Option FrameEnds) :=
  match w.frame with
  | none => .ok none
  | some f => do
    let (start, stop) ← f.bounds
    return some ⟨f.type, start, stop⟩

theorem windowColumn_eq (w : FramedWindow) : Drafting.windowColumn w = (do
    let function ← Drafting.functionOf w.type
    let argument ← windowArgument w
    let tests ← w.conditions.mapM conditionTest
    let partition ← w.partitionBy.mapM Column.of
    let order ← w.orderBy.mapM fun o => Drafting.sort o.field o.direction o.nulls
    let frame ← windowFrame w
    return ⟨function, argument, Joined.conjunction (tests.map .one), partition, order, frame⟩) := by
  unfold Drafting.windowColumn windowArgument windowFrame
  refine bind_congr fun function => ?_
  obtain ⟨type, label, field, partitionBy, orderBy, frame, conditions⟩ := w
  dsimp only
  cases frame with
  | none =>
    cases field with
    | none => rfl
    | some f =>
      dsimp only
      split <;> rfl
  | some g =>
    have hframe (mk : Option FrameEnds → Over) : (do
        let ends ← g.bounds
        let frame ← pure (some ⟨g.type, ends.1, ends.2⟩)
        pure (mk frame) : Except Fault Over) = (do
        let frame ← (do
          let ends ← g.bounds
          pure (some ⟨g.type, ends.1, ends.2⟩))
        pure (mk frame)) := by
      cases g.bounds <;> rfl
    have hrest (argument : Option Column) := bind_congr (x := conditions.mapM conditionTest)
      fun tests => bind_congr (x := partitionBy.mapM Column.of)
        fun partition => bind_congr
          (x := orderBy.mapM fun o => Drafting.sort o.field o.direction o.nulls)
          fun order => hframe fun frame =>
            ⟨function, argument, Joined.conjunction (tests.map .one), partition, order, frame⟩
    cases field with
    | none => exact hrest none
    | some f =>
      dsimp only
      split
      · exact hrest none
      · exact bind_congr hrest

theorem windowColumn_alike {w x : FramedWindow} (h : FramedWindow.Alike V w x) :
    Correspond (Over.Alike V) (Drafting.windowColumn w) (Drafting.windowColumn x) := by
  rw [windowColumn_eq, windowColumn_eq]
  cases h with
  | mk hconditions =>
    have htests := Correspond.mapM (S := Test.Alike V) (fun _ _ h => conditionTest_alike h)
      hconditions
    refine .checked fun function => .checked fun argument => ?_
    refine htests.bind fun tests tests' htests => ?_
    refine .checked fun partition => .checked fun order => .checked fun frame => .ok ?_
    exact .mk ⟨_, _, _, _, _, _⟩ (JoinedAlike.of_ones htests).conjunction

/-- A window column is selected. -/
theorem adds_window {p q : Projection} (h : Projection.Alike V p q) :
    Adds V (modify fun d => { d with windows := d.windows ++ [p] })
      (modify fun d => { d with windows := d.windows ++ [q] }) := by
  refine .modify fun d d' hd => ?_
  cases hd with
  | mk htables haggregates hwindows hcriteria hhaving =>
    have hadded := List.rel_append hwindows (.cons h .nil)
    exact .mk _ htables haggregates hadded hcriteria hhaving

theorem adds_having {x y : Except Fault Test} (h : Correspond (Test.Alike V) x y) :
    Adds V (Drafting.addHaving x) (Drafting.addHaving y) := by
  refine (Pairs.lift h).bind fun t u ht => .modify fun d d' hd => ?_
  cases hd with
  | mk htables haggregates hwindows hcriteria hhaving =>
    have hadded := hhaving.append (.cons (.one ht) .nil)
    exact .mk _ htables haggregates hwindows hcriteria hadded

theorem inner_alike (table : String) (columns : List String) (own : List (String × Source))
    {work work' : Drafting Unit} (h : Adds V work work') :
    Works V (Select.Alike V) (Drafting.inner table columns own work)
      (Drafting.inner table columns own work') := by
  unfold Drafting.inner
  refine Pairs.get.bind fun d d' hd => ?_
  obtain ⟨hanswers, hstates⟩ := h _ _ (child_alike hd table columns own)
  rcases hrun : ExceptT.run work (d.child table columns own) with ⟨a | a, inside⟩ <;>
    rcases hrun' : ExceptT.run work' (d'.child table columns own) with ⟨b | b, inside'⟩ <;>
    rw [hrun, hrun'] at hanswers hstates <;> cases hanswers
  case error.error hab =>
    exact fun s s' _ => ⟨.error hab, nofun⟩
  case ok.ok =>
    have hinside : inside.Alike V inside' := hstates a b rfl rfl
    have hcounts : inside'.nextRaw = inside.nextRaw ∧ inside'.nextTable = inside.nextTable := by
      cases hinside
      exact ⟨rfl, rfl⟩
    have hset : Draft.Alike V { d with nextRaw := inside.nextRaw, nextTable := inside.nextTable }
        { d' with nextRaw := inside'.nextRaw, nextTable := inside'.nextTable } := by
      rw [hcounts.1, hcounts.2]
      have hplain : Plain fun e =>
          { e with nextRaw := inside.nextRaw, nextTable := inside.nextTable } :=
        fun _ _ _ _ _ _ => rfl
      exact hplain.alike hd
    refine (Pairs.set hset).bind fun _ _ _ => ?_
    exact Pairs.lift (statement_alike hinside)

theorem freshTable_alike : Works V Eq Drafting.freshTable Drafting.freshTable := by
  unfold Drafting.freshTable
  refine Pairs.get.bind fun d d' hd => ?_
  have hnext : d'.nextTable = d.nextTable := by
    cases hd
    rfl
  rw [hnext]
  exact (adds_plain fun _ _ _ _ _ _ => rfl).bind fun _ _ _ => .pure rfl

theorem declare_alike {t u : CommonTable} (h : CommonTable.Alike V t u) :
    Adds V (Drafting.declare t) (Drafting.declare u) := by
  have hname : u.name = t.name ∧ u.source = t.source := by
    cases h <;> exact ⟨rfl, rfl⟩
  unfold Drafting.declare
  rw [hname.1, hname.2]
  refine .modify fun d d' hd => ?_
  cases hd with
  | mk htables haggregates hwindows hcriteria hhaving =>
    exact .mk _ (TablesAlike.append htables (.cons h .nil)) haggregates hwindows hcriteria hhaving

theorem adds_table (name : String) (columns : List String) (source : Option String)
    {work work' : Drafting Unit} (h : Adds V work work') :
    Adds V (Drafting.addTable name work columns source)
      (Drafting.addTable name work' columns source) := by
  unfold Drafting.addTable
  refine Pairs.get.bind fun d d' hd => ?_
  have htable : d'.table = d.table := by
    cases hd
    rfl
  rw [htable]
  refine (inner_alike _ columns [] h).bind fun q r hqr => freshTable_alike.bind fun id _ hid => ?_
  subst hid
  exact declare_alike (.plain id name hqr)

theorem adds_recursiveTable (name : String) (keepRepeats : Bool) (columns : List String)
    (source recursiveSource : Option String) (recursiveColumns : List String)
    {initial initial' recursive recursive' : Drafting Unit} (hinitial : Adds V initial initial')
    (hrecursive : Adds V recursive recursive') :
    Adds V
      (Drafting.addRecursiveTable name initial recursive keepRepeats columns source recursiveSource
        recursiveColumns)
      (Drafting.addRecursiveTable name initial' recursive' keepRepeats columns source
        recursiveSource recursiveColumns) := by
  rw [Drafting.addRecursiveTable_eq, Drafting.addRecursiveTable_eq]
  refine Pairs.get.bind fun d d' hd => ?_
  have htable : d'.table = d.table := by
    cases hd
    rfl
  have hcolumns (name : String) : d'.recursiveColumns name columns =
      d.recursiveColumns name columns := by
    rw [Draft.recursiveColumns, Draft.recursiveColumns, knownColumns_alike hd]
  rw [htable, hcolumns]
  refine .checked fun listed => ?_
  unfold Drafting.addHalves
  split
  · exact .throw _
  · refine (inner_alike _ listed [] hinitial).bind fun q r hqr => ?_
    refine freshTable_alike.bind fun id _ hid => ?_
    subst hid
    refine (inner_alike _ _ _ hrecursive).bind fun q' r' hqr' => ?_
    exact declare_alike (.recursive id name keepRepeats hqr hqr')

theorem adds_groupBy (fields : List String) :
    Adds V (Drafting.addGroupBy fields) (Drafting.addGroupBy fields) := by
  induction fields with
  | nil => exact .pure trivial
  | cons f fields ih =>
    refine .checked fun f => ?_
    exact (adds_plain fun _ _ _ _ _ _ => rfl).bind fun _ _ _ => ih

theorem adds_aggregate (type field label : String) :
    Adds V (Drafting.addAggregate type field label) (Drafting.addAggregate type field label) := by
  unfold Drafting.addAggregate
  split
  · refine .checked fun c => .checked fun label => .modify fun d d' hd => ?_
    cases hd with
    | mk htables haggregates hwindows hcriteria hhaving =>
      have hadded := List.rel_append haggregates (.cons (.aggregate type c label) .nil)
      exact .mk _ htables hadded hwindows hcriteria hhaving
  · exact .throw _

end Drafts

section Operations

mutual

/-- Operations that differ in values only change drafts to such as differ in values only. -/
theorem operation_alike {o p : Operation} (h : Operation.Alike V o p) :
    Adds V (applyOperation o) (applyOperation p) := by
  match h with
  | .table name columns source hos => exact adds_table name columns source (operations_alike hos)
  | .recursiveTable name keepRepeats columns source recursiveSource recursiveColumns hos hps =>
    exact adds_recursiveTable name keepRepeats columns source recursiveSource recursiveColumns
      (operations_alike hos) (operations_alike hps)
  | .window label fragment => exact .checked fun label => adds_window (.window fragment label)
  | .framedWindow (w := w) hwx =>
    refine (Pairs.lift (windowColumn_alike hwx)).bind fun column column' hcolumn => ?_
    cases hwx with
    | mk hconditions => exact .checked fun label => adds_window (.framed label hcolumn)
  | .equals hrs => exact adds_equals hrs
  | .fragment sql hvs => exact adds_raw "(" sql hvs
  | .aggregate type field label => exact adds_aggregate type field label
  | .condition field operator hvw => exact adds_test hvw.test
  | .range field hlow hhigh => exact adds_fieldTest field fun c => .between c hlow hhigh
  | .isNull field => exact adds_fieldTest field fun c => .isNull c false
  | .notNull field => exact adds_fieldTest field fun c => .isNull c true
  | .isIn field hvs => exact adds_fieldTest field fun c => .isIn c false hvs
  | .notIn field hvs => exact adds_fieldTest field fun c => .isIn c true hvs
  | .exists_ sql hvs => exact adds_raw "EXISTS (" sql hvs
  | .group hgh => exact adds_group hgh
  | .groupBy fields => exact adds_groupBy fields
  | .having field operator hvw => exact adds_having hvw.test
  | .orderBy field direction nulls =>
    exact .checked fun term => adds_plain fun _ _ _ _ _ _ => rfl
  | .limit count => exact adds_plain fun _ _ _ _ _ _ => rfl
  | .offset count => exact adds_plain fun _ _ _ _ _ _ => rfl

theorem operations_alike {os ps : List Operation} (h : OperationsAlike V os ps) :
    Adds V (applyOperations os) (applyOperations ps) := by
  match h with
  | .nil => exact .pure trivial
  | .cons ho hos => exact (operation_alike ho).bind fun _ _ _ => operations_alike hos

end

end Operations

end RowGate
