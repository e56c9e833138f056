import Mathlib
import RowGate.Query.Reader
import RowGate.Sql.Draft
import RowGate.Sql.Writer
import RowGate.Proofs.Plan.Stages
import RowGate.Proofs.Sequence
import RowGate.Proofs.Sql.Applied
import RowGate.Proofs.Sql.Meaning
import RowGate.Proofs.Stateful
/-!
The conditions of a query and what the text of its statement says. Main statement: read with the
precedence of SQL, the text behind WHERE holds exactly where all conditions of the query hold, and a
group of conditions is joined from left to right.
-/
namespace RowGate

open Sql Stateful

/-- The statement for a query on a table. -/
def Query.statement (catalog : Catalog) (table : String) (q : Query) : Except Fault Select :=
  (Logged.run do build catalog table (← q.compile)).1

theorem compile_eq (q : Query) : q.compile = (do
    q.checkNames
    let ts ← compileTables q.tables
    let rs ← compileRecursiveTables q.recursiveTables
    return ts ++ rs ++ (← q.compileClauses)) := by
  cases q
  rw [Query.compile]

/-- A condition that is no group. -/
inductive Predicate where
  /-- An entry of the filter. -/
  | equals (field : String) (v : Value)
  | compare (field operator : String) (v : Value)
  | range (field : String) (low high : Value)
  | null (field : String) (negated : Bool)
  | isIn (field : String) (negated : Bool) (vs : List Value)
  | raw (opening sql : String) (bindings : List Value)

/-- A test of a statement is the one for a predicate. -/
def Predicate.Tests : Predicate → Test → Prop
  | equals field v, t => ∃ c, Column.of field = .ok c ∧ t = .equality c true v
  | compare field operator v, t => Test.of field operator v = .ok t
  | range field low high, t => ∃ c, Column.of field = .ok c ∧ t = .between c low high
  | null field negated, t => ∃ c, Column.of field = .ok c ∧ t = .isNull c negated
  | isIn field negated vs, t => ∃ c, Column.of field = .ok c ∧ t = .isIn c negated vs
  | raw opening sql bindings, t =>
    ∃ first r, RawText.of first opening sql bindings = .ok r ∧ t = .raw r

/-- The predicate of a condition. -/
def Condition.predicate (c : Condition) : Predicate := .compare c.field c.operator c.value

mutual

/-- The predicates of a group member at all depths. -/
def GroupMember.predicates : GroupMember → List Predicate
  | .condition c => [c.predicate]
  | .group _ members _ => memberPredicates members

/-- The predicates of group members. -/
def memberPredicates : List GroupMember → List Predicate
  | [] => []
  | m :: ms => m.predicates ++ memberPredicates ms

end

/-- How a group member is joined to those before it, if it says so itself. -/
def GroupMember.joiner : GroupMember → Option Connective
  | .condition c => c.joiner
  | .group _ _ joiner => joiner

/-- The truth value of a chain that goes on with a member. A member without conditions leaves no
trace; the first one with conditions starts the chain. -/
def chained (connective : Connective) (joiner : Option Connective) (before next : Option Bool) :
    Option Bool :=
  match before, next with
  | none, next => next
  | before, none => before
  | some b, some n => some ((joiner.getD connective).apply b n)

mutual

/-- The truth value of a group member; there is none without conditions at any depth. -/
def GroupMember.value (t : Nat → Bool) : GroupMember → Option Bool
  | .condition _ => some (t 0)
  | .group connective members _ => chain t connective none members

/-- The truth value of group members from left to right, behind those before them. -/
def chain (t : Nat → Bool) (connective : Connective) (before : Option Bool) :
    List GroupMember → Option Bool
  | [] => before
  | m :: ms =>
    chain (after m.predicates.length t) connective
      (chained connective m.joiner before (m.value t)) ms

end

/-- A condition of a query. -/
inductive Clause where
  | single (p : Predicate)
  | group (g : Group)

namespace Clause

/-- The predicates of a condition. -/
def predicates : Clause → List Predicate
  | single p => [p]
  | group g => memberPredicates g.members

/-- Whether a condition holds; a group without conditions at any depth does. -/
def holds (t : Nat → Bool) : Clause → Bool
  | single _ => t 0
  | group g => (chain t g.connective none g.members).getD true

/-- Whether all of some conditions hold. -/
def allHold (t : Nat → Bool) : List Clause → Bool
  | [] => true
  | c :: cs => c.holds t && allHold (after c.predicates.length t) cs

end Clause

/-- The conditions of a query, in the order of the text. -/
def Query.clauses (q : Query) : List Clause :=
  (q.filter.map fun (k, v) => Clause.single (.equals k v)) ++
    q.fragments.map (fun f => Clause.single (.raw "(" f.sql f.bindings)) ++
    q.conditions.map (fun c => Clause.single c.predicate) ++
    q.ranges.map (fun r => Clause.single (.range r.field r.low r.high)) ++
    q.nulls.map (fun f => Clause.single (.null f false)) ++
    q.notNulls.map (fun f => Clause.single (.null f true)) ++
    q.isIn.map (fun (k, vs) => Clause.single (.isIn k false vs)) ++
    q.notIn.map (fun (k, vs) => Clause.single (.isIn k true vs)) ++
    q.exists_.map (fun f => Clause.single (.raw "EXISTS (" f.sql f.bindings)) ++
    q.groups.map .group

/-- Joined conditions of a statement say what conditions of a query say, by the same predicates. -/
structure Expresses (cs : List Clause) (js : List Criterion) : Prop where
  proper : Joined.AllProper js
  tests : List.Forall₂ Predicate.Tests (cs.flatMap Clause.predicates) (Joined.leavesOf js)
  holds : ∀ t, Joined.allHold t js = Clause.allHold t cs

section Expressing

theorem allHold_append (t : Nat → Bool) (cs ds : List Clause) :
    Clause.allHold t (cs ++ ds) = (Clause.allHold t cs &&
      Clause.allHold (after (cs.flatMap Clause.predicates).length t) ds) := by
  induction cs generalizing t with
  | nil =>
    simp only [List.nil_append, List.flatMap_nil, List.length_nil, after_zero, Clause.allHold,
      Bool.true_and]
  | cons c cs ih =>
    simp only [List.cons_append, Clause.allHold, List.flatMap_cons, List.length_append, ih,
      after_after, Bool.and_assoc]

theorem expresses_nil : Expresses [] [] := ⟨trivial, .nil, fun _ => rfl⟩

theorem Expresses.append {cs ds : List Clause} {js ks : List Criterion} (hcs : Expresses cs js)
    (hds : Expresses ds ks) : Expresses (cs ++ ds) (js ++ ks) where
  proper := Joined.allProper_append.mpr ⟨hcs.proper, hds.proper⟩
  tests := by
    rw [List.flatMap_append, Joined.leavesOf_append]
    exact List.rel_append hcs.tests hds.tests
  holds t := by
    have hlength := hcs.tests.length_eq
    rw [Joined.allHold_append, allHold_append, hcs.holds, hds.holds, hlength]

theorem expresses_single {p : Predicate} {t : Test} (h : p.Tests t) :
    Expresses [.single p] [.one t] :=
  ⟨⟨trivial, trivial⟩, .cons h .nil, fun _ => rfl⟩

/-- What is joined so far says what the members so far say. -/
structure Chains (ps : List Predicate) (value : (Nat → Bool) → Option Bool)
    (c : Option Criterion) : Prop where
  proper : Joined.AllProper c.toList
  tests : List.Forall₂ Predicate.Tests ps (Joined.leavesOf c.toList)
  holds : ∀ t, c.map (Joined.holds t) = value t

theorem chains_none : Chains [] (fun _ => none) none := ⟨trivial, .nil, fun _ => rfl⟩

/-- What is joined so far, gone on with a member. -/
def linked (connective : Connective) (joiner : Option Connective) (before next : Option Criterion) :
    Option Criterion :=
  match next with
  | none => before
  | some j => some (joinNext connective joiner before j)

/-- A member is joined to those before it. -/
theorem Chains.next {ps qs : List Predicate} {before value : (Nat → Bool) → Option Bool}
    {c next : Option Criterion} (hc : Chains ps before c) (hnext : Chains qs value next)
    (connective : Connective) (joiner : Option Connective) :
    Chains (ps ++ qs)
      (fun t => chained connective joiner (before t) (value (after ps.length t)))
      (linked connective joiner c next) := by
  have hlength := hc.tests.length_eq
  cases next with
  | none =>
    have hqs : qs = [] := List.forall₂_nil_right_iff.mp hnext.tests
    refine ⟨hc.proper, ?_, fun t => ?_⟩
    · rw [hqs, List.append_nil]
      exact hc.tests
    · rw [← hnext.holds, ← hc.holds]
      cases c <;> rfl
  | some j =>
    cases c with
    | none =>
      have hps : ps = [] := List.forall₂_nil_right_iff.mp hc.tests
      refine ⟨hnext.proper, ?_, fun t => ?_⟩
      · rw [hps, List.nil_append]
        exact hnext.tests
      · rw [← hc.holds, ← hnext.holds, hps, List.length_nil, after_zero]
        rfl
    | some i =>
      refine ⟨⟨hc.proper.1.join _ hnext.proper.1, trivial⟩, ?_, fun t => ?_⟩
      · have htests := List.rel_append hc.tests hnext.tests
        simpa only [Option.toList_some, Joined.leavesOf, List.append_nil, linked, joinNext,
          Joined.leaves_join] using htests
      · have hi : i.leaves.length = ps.length := by
          simpa only [Option.toList_some, Joined.leavesOf, List.append_nil] using hlength.symm
        rw [← hc.holds, ← hnext.holds, ← hi]
        simp only [Option.map_some, linked, joinNext, Joined.holds_join, chained]

/-- The members of a group are joined from left to right. -/
theorem chains_members {connective : Connective} {ps : List Predicate}
    {before : (Nat → Bool) → Option Bool} {c r : Option Criterion} (hc : Chains ps before c) :
    (ms : List GroupMember) → membersCriterion connective c ms = .ok r →
      Chains (ps ++ memberPredicates ms)
        (fun t => chain (after ps.length t) connective (before t) ms) r
  | [], h => by
    rw [membersCriterion] at h
    obtain rfl := Except.ok.inj h
    rw [memberPredicates, List.append_nil]
    exact hc
  | .condition d :: ms, h => by
    rw [membersCriterion] at h
    obtain ⟨test, htest, hrest⟩ := sequence_eq_ok.mp h
    have hfirst : Chains [d.predicate] (fun t => some (t 0)) (some (.one test)) :=
      ⟨⟨trivial, trivial⟩, .cons htest .nil, fun _ => rfl⟩
    have hall := chains_members (hc.next hfirst connective d.joiner) ms hrest
    simpa only [memberPredicates, GroupMember.predicates, chain, GroupMember.value,
      GroupMember.joiner, after_after, List.append_assoc, List.length_append] using hall
  | .group inner members joiner :: ms, h => by
    rw [membersCriterion] at h
    obtain ⟨next, hnext, hrest⟩ := sequence_eq_ok.mp h
    have hinner := chains_members chains_none members hnext
    have hall : membersCriterion connective (linked connective joiner c next) ms = .ok r := by
      cases next <;> exact hrest
    have hdone := chains_members (hc.next hinner connective joiner) ms hall
    simpa only [memberPredicates, GroupMember.predicates, chain, GroupMember.value,
      GroupMember.joiner, after_after, List.append_assoc, List.length_append, List.nil_append,
      List.length_nil, Nat.add_zero] using hdone

/-- A group says what its members say; without conditions it is left out. -/
theorem expresses_group {g : Group} {c : Option Criterion} (h : groupCriterion g = .ok c) :
    Expresses [.group g] c.toList := by
  have hchains := chains_members chains_none g.members h
  refine ⟨hchains.proper, ?_, fun t => ?_⟩
  · rw [List.flatMap_cons, List.flatMap_nil, List.append_nil]
    exact hchains.tests
  · have hvalue := hchains.holds t
    simp only [List.length_nil, after_zero] at hvalue
    simp only [Clause.allHold, Clause.holds, Bool.and_true, ← hvalue]
    cases c with
    | none => rfl
    | some j => simp only [Option.toList_some, Joined.allHold, Bool.and_true, Option.map_some,
        Option.getD_some]

end Expressing

section Gaining

/-- Work adds joined conditions to a draft that say what some conditions say. -/
def Gains {α : Type} (work : Drafting α) (cs : List Clause) : Prop :=
  ∀ before, Ensures (fun d => d.criteria = before) work fun _ d =>
    ∃ js, d.criteria = before ++ js ∧ Expresses cs js

theorem gains_pure {α : Type} (a : α) : Gains (pure a) [] := by
  intro before
  exact ensures_pure fun d hd => ⟨[], by rw [hd, List.append_nil], expresses_nil⟩

theorem gains_lift {α : Type} (y : Except Fault α) : Gains (liftM y) [] := by
  intro before
  exact ensures_lift fun _ d _ hd => ⟨[], by rw [hd, List.append_nil], expresses_nil⟩

theorem gains_throw {α : Type} (g : Fault) (cs : List Clause) :
    Gains (throw g : Drafting α) cs := by
  intro before
  exact ensures_throw

theorem gains_get : Gains get [] := by
  intro before
  exact ensures_get fun d hd => ⟨[], by rw [hd, List.append_nil], expresses_nil⟩

/-- A change that leaves the conditions alone. -/
theorem gains_modify {f : Draft → Draft} (hf : ∀ d, (f d).criteria = d.criteria) :
    Gains (modify f : Drafting PUnit) [] := by
  intro before
  exact ensures_modify fun d hd => ⟨[], by rw [hf, hd, List.append_nil], expresses_nil⟩

theorem gains_bind {α β : Type} {x : Drafting α} {f : α → Drafting β} {cs ds : List Clause}
    (hx : Gains x cs) (hf : ∀ a, Gains (f a) ds) : Gains (x >>= f) (cs ++ ds) := by
  intro before
  refine ensures_bind (hx before) fun a s b t hs hrun => ?_
  obtain ⟨js, hjs, hcs⟩ := hs
  obtain ⟨ks, hks, hds⟩ := hf a (before ++ js) s b t hjs hrun
  exact ⟨js ++ ks, by rw [hks, List.append_assoc], hcs.append hds⟩

theorem gains_behind {α β : Type} {x : Drafting α} {f : α → Drafting β} {cs : List Clause}
    (hx : Gains x []) (hf : ∀ a, Gains (f a) cs) : Gains (x >>= f) cs :=
  gains_bind hx hf

/-- What is added behind a check may depend on its answer. -/
theorem gains_checked {α β : Type} {y : Except Fault α} {f : α → Drafting β} {cs : List Clause}
    (hf : ∀ a, y = .ok a → Gains (f a) cs) : Gains (liftM y >>= f) cs := by
  intro before
  refine ensures_bind (ensures_lift (Q := fun a d => d.criteria = before ∧ y = .ok a)
    fun a d ha hd => ⟨hd, ha⟩) fun a s b t hs hrun => ?_
  exact hf a hs.2 before s b t hs.1 hrun

theorem gains_criterion {j : Criterion} {cs : List Clause} (h : Expresses cs [j]) :
    Gains (Drafting.addCriterion j) cs := by
  intro before
  exact ensures_modify fun d hd => ⟨[j], by rw [hd], h⟩

theorem gains_test {y : Except Fault Test} {p : Predicate} (h : ∀ t, y = .ok t → p.Tests t) :
    Gains (Drafting.addTest y) [.single p] :=
  gains_checked fun t ht => gains_criterion (expresses_single (h t ht))

theorem gains_fieldTest {field : String} {test : Column → Test} {p : Predicate}
    (h : ∀ c, Column.of field = .ok c → p.Tests (test c)) :
    Gains (Drafting.addFieldTest field test) [.single p] := by
  refine gains_test fun t ht => ?_
  obtain ⟨c, hc, hdone⟩ := sequence_eq_ok.mp ht
  obtain rfl := Except.ok.inj hdone
  exact h c hc

theorem gains_equals : (values : Record) →
    Gains (Drafting.addEquals values) (values.map fun (k, v) => .single (.equals k v))
  | [] => gains_pure ()
  | (k, v) :: rest => by
    refine gains_checked fun c hc => ?_
    have htest : (Predicate.equals k v).Tests (.equality c true v) := ⟨c, hc, rfl⟩
    exact gains_bind (gains_criterion (expresses_single htest)) fun _ => gains_equals rest

theorem gains_raw (opening sql : String) (bindings : List Value) :
    Gains (Drafting.addRaw opening sql bindings) [.single (.raw opening sql bindings)] := by
  intro before
  have hraw : Ensures (fun d => d.criteria = before) (Drafting.rawText opening sql bindings)
      fun r d => d.criteria = before ∧ ∃ first, RawText.of first opening sql bindings = .ok r := by
    unfold Drafting.rawText
    refine ensures_bind (ensures_lift (Q := fun _ d => d.criteria = before) fun _ _ _ hd => hd)
      fun _ => ?_
    refine ensures_bind (ensures_get (Q := fun _ d => d.criteria = before) fun _ hd => hd)
      fun d => ?_
    refine ensures_bind (ensures_modify (Q := fun _ d => d.criteria = before) fun _ hd => hd)
      fun _ => ?_
    exact ensures_lift fun r _ hr hd => ⟨hd, d.nextRaw, hr⟩
  refine ensures_bind hraw fun r s b t hs hrun => ?_
  obtain ⟨hd, first, hr⟩ := hs
  have htest : (Predicate.raw opening sql bindings).Tests (.raw r) := ⟨first, r, hr, rfl⟩
  exact gains_criterion (expresses_single htest) before s b t hd hrun

theorem gains_group (g : Group) : Gains (Drafting.addGroup g) [.group g] := by
  refine gains_checked fun c hc => ?_
  have hgroup := expresses_group hc
  cases c with
  | none =>
    intro before
    exact ensures_pure fun d hd => ⟨[], by rw [hd, List.append_nil], hgroup⟩
  | some j => exact gains_criterion hgroup

/-- Work on a draft inside leaves the conditions of the outer one alone. -/
theorem gains_inner (table : String) (columns : List String) (own : List (String × Source))
    (work : Drafting Unit) : Gains (Drafting.inner table columns own work) [] := by
  intro before
  unfold Drafting.inner
  refine ensures_bind (ensures_get (Q := fun d _ => d.criteria = before) fun _ hd => hd) fun d => ?_
  rcases ExceptT.run work (d.child table columns own) with ⟨result, inside⟩
  intro s q t hd hrun
  have hrest : Ensures (fun e => e.criteria = before)
      (liftM result >>= fun _ => liftM inside.statement : Drafting Select) fun _ e =>
        ∃ js, e.criteria = before ++ js ∧ Expresses [] js :=
    gains_bind (gains_lift result) (fun _ => gains_lift inside.statement) before
  have hset : Ensures (fun _ => d.criteria = before)
      (set { d with nextRaw := inside.nextRaw, nextTable := inside.nextTable } : Drafting PUnit)
      fun _ e => e.criteria = before := ensures_set fun _ _ => hd
  exact ensures_bind hset (fun _ => hrest) s q t hd hrun

theorem gains_freshTable : Gains Drafting.freshTable [] := by
  unfold Drafting.freshTable
  refine gains_behind gains_get fun d => ?_
  exact gains_behind (gains_modify fun _ => rfl) fun _ => gains_pure d.nextTable

theorem gains_addTable (name : String) (work : Drafting Unit) (columns : List String)
    (source : Option String) : Gains (Drafting.addTable name work columns source) [] := by
  unfold Drafting.addTable
  refine gains_behind gains_get fun d => gains_behind (gains_inner _ _ _ _) fun query => ?_
  exact gains_behind gains_freshTable fun id => gains_modify fun _ => rfl

theorem gains_addRecursiveTable (name : String) (initial recursive : Drafting Unit)
    (keepRepeats : Bool) (columns : List String) (source recursiveSource : Option String)
    (recursiveColumns : List String) :
    Gains (Drafting.addRecursiveTable name initial recursive keepRepeats columns source
      recursiveSource recursiveColumns) [] := by
  rw [Drafting.addRecursiveTable_eq]
  refine gains_behind gains_get fun d => gains_behind (gains_lift _) fun listed => ?_
  unfold Drafting.addHalves
  split
  · exact gains_throw _ _
  · refine gains_behind (gains_inner _ _ _ _) fun first => gains_behind gains_freshTable fun id => ?_
    exact gains_behind (gains_inner _ _ _ _) fun next => gains_modify fun _ => rfl

theorem gains_groupBy : (fields : List String) → Gains (Drafting.addGroupBy fields) []
  | [] => gains_pure ()
  | _ :: rest =>
    gains_behind (gains_lift _) fun _ => gains_behind (gains_modify fun _ => rfl) fun _ =>
      gains_groupBy rest

theorem gains_aggregate (type field name : String) :
    Gains (Drafting.addAggregate type field name) [] := by
  unfold Drafting.addAggregate
  split
  · exact gains_behind (gains_lift _) fun _ => gains_behind (gains_lift _) fun _ =>
      gains_modify fun _ => rfl
  · exact gains_throw _ _

/-- The conditions that an operation adds. -/
def Operation.clauses : Operation → List Clause
  | .equals values => values.map fun (k, v) => .single (.equals k v)
  | .fragment sql bindings => [.single (.raw "(" sql bindings)]
  | .condition field operator v => [.single (.compare field operator v)]
  | .range field low high => [.single (.range field low high)]
  | .isNull field => [.single (.null field false)]
  | .notNull field => [.single (.null field true)]
  | .isIn field vs => [.single (.isIn field false vs)]
  | .notIn field vs => [.single (.isIn field true vs)]
  | .exists_ sql bindings => [.single (.raw "EXISTS (" sql bindings)]
  | .group g => [.group g]
  | _ => []

theorem gains_operation (o : Operation) : Gains (applyOperation o) o.clauses := by
  cases o with
  | table => exact gains_addTable _ _ _ _
  | recursiveTable => exact gains_addRecursiveTable _ _ _ _ _ _ _ _
  | window | having | orderBy => exact gains_behind (gains_lift _) fun _ => gains_modify fun _ => rfl
  | framedWindow =>
    exact gains_behind (gains_lift _) fun _ => gains_behind (gains_lift _) fun _ =>
      gains_modify fun _ => rfl
  | equals values => exact gains_equals values
  | fragment sql bindings => exact gains_raw "(" sql bindings
  | aggregate => exact gains_aggregate _ _ _
  | condition => exact gains_test fun _ ht => ht
  | range | isNull | notNull | isIn | notIn => exact gains_fieldTest fun c hc => ⟨c, hc, rfl⟩
  | exists_ sql bindings => exact gains_raw "EXISTS (" sql bindings
  | group g => exact gains_group g
  | groupBy fields => exact gains_groupBy fields
  | limit | offset => exact gains_modify fun _ => rfl

theorem gains_operations (os : List Operation) :
    Gains (applyOperations os) (os.flatMap Operation.clauses) := by
  induction os with
  | nil => exact gains_pure ()
  | cons o os ih => exact gains_bind (gains_operation o) fun _ => ih

end Gaining

section Compiling

/-- Conditions that say the same by the same predicates. -/
def Same (cs ds : List Clause) : Prop :=
  cs.flatMap Clause.predicates = ds.flatMap Clause.predicates ∧
    ∀ t, Clause.allHold t cs = Clause.allHold t ds

theorem Same.of_eq {cs ds : List Clause} (h : cs = ds) : Same cs ds := by
  subst h
  exact ⟨rfl, fun _ => rfl⟩

theorem Same.append {cs ds es fs : List Clause} (h : Same cs ds) (h' : Same es fs) :
    Same (cs ++ es) (ds ++ fs) := by
  refine ⟨?_, fun t => ?_⟩
  · rw [List.flatMap_append, List.flatMap_append, h.1, h'.1]
  · rw [allHold_append, allHold_append, h.1, h.2, h'.2]

theorem Expresses.of_same {cs ds : List Clause} {js : List Criterion} (hcs : Expresses cs js)
    (h : Same cs ds) : Expresses ds js :=
  ⟨hcs.proper, h.1 ▸ hcs.tests, fun t => (hcs.holds t).trans (h.2 t)⟩

/-- Conditions of a query have joined conditions in a statement exactly if they have predicates. -/
theorem Expresses.eq_nil_iff {cs : List Clause} {js : List Criterion} (h : Expresses cs js) :
    js = [] ↔ cs.flatMap Clause.predicates = [] := by
  constructor
  · rintro rfl
    exact List.forall₂_nil_right_iff.mp h.tests
  · intro hnone
    by_contra hne
    have htests := h.tests
    rw [hnone, List.forall₂_nil_left_iff] at htests
    exact Joined.leavesOf_ne_nil js hne h.proper htests

theorem clauses_map {α : Type} {f : α → Operation} {g : α → Clause} (as : List α)
    (h : ∀ a, (f a).clauses = [g a]) : (as.map f).flatMap Operation.clauses = as.map g := by
  induction as with
  | nil => rfl
  | cons a as ih => rw [List.map_cons, List.flatMap_cons, h, ih, List.map_cons, List.singleton_append]

theorem clauses_none {os : List Operation} (h : ∀ o ∈ os, o.clauses = []) :
    os.flatMap Operation.clauses = [] := List.flatMap_eq_nil_iff.mpr h

/-- A group without members is left out; it would hold anyway. -/
theorem clauses_groups (gs : List Group) :
    Same ((gs.filter fun g => !g.members.isEmpty).map .group) (gs.map .group) := by
  induction gs with
  | nil => exact .of_eq rfl
  | cons g gs ih =>
    rw [List.filter_cons, List.map_cons]
    cases hmembers : g.members with
    | nil =>
      have hvoid : Same [] [.group g] := by
        constructor
        · simp [Clause.predicates, hmembers, memberPredicates]
        · intro t
          simp [Clause.allHold, Clause.holds, hmembers, chain]
      exact hvoid.append ih
    | cons m ms =>
      have hone : Same [.group g] [.group g] := .of_eq rfl
      exact hone.append ih

/-- The conditions that the operations of a stage add. -/
def Query.clausesAt (q : Query) : Stage → List Clause
  | .filter => q.filter.map fun (k, v) => .single (.equals k v)
  | .rawExpressions => q.fragments.map fun f => .single (.raw "(" f.sql f.bindings)
  | .whereRaw => q.conditions.map fun c => .single c.predicate
  | .whereBetween => q.ranges.map fun r => .single (.range r.field r.low r.high)
  | .whereNull => q.nulls.map (fun f => .single (.null f false)) ++
      q.notNulls.map (fun f => .single (.null f true))
  | .whereIn => q.isIn.map (fun (k, vs) => .single (.isIn k false vs)) ++
      q.notIn.map (fun (k, vs) => .single (.isIn k true vs))
  | .whereExists => q.exists_.map fun f => .single (.raw "EXISTS (" f.sql f.bindings)
  | .whereGroups => (q.groups.filter fun g => !g.members.isEmpty).map .group
  | _ => []

theorem clauses_planned {q : Query} {windows : List Operation}
    (hwindows : List.Forall₂ Window.Planned q.windows windows) (s : Stage) :
    (q.planned [] [] windows s).flatMap Operation.clauses = q.clausesAt s := by
  have hsilent {α : Type} (as : List α) {f : α → Operation} (hf : ∀ a, (f a).clauses = []) :
      (as.map f).flatMap Operation.clauses = [] := by
    apply clauses_none
    intro o ho
    obtain ⟨a, -, rfl⟩ := List.mem_map.mp ho
    exact hf a
  cases s with
  | ctes | recursiveCtes => rfl
  | windows =>
    apply clauses_none
    intro o ho
    have hstage := planned_windows_stage hwindows o ho
    cases o with
    | window => rfl
    | _ => cases hstage
  | filter =>
    simp only [Query.planned, Query.clausesAt]
    cases q.filter with
    | nil => rfl
    | cons field fields => exact List.append_nil _
  | whereNull | whereIn =>
    simp only [Query.planned, Query.clausesAt, List.flatMap_append]
    rw [clauses_map _ fun _ => rfl, clauses_map _ fun _ => rfl]
  | rawExpressions | whereRaw | whereBetween | whereExists | whereGroups =>
    exact clauses_map _ fun _ => rfl
  | advancedWindows | aggregates | having | orderBy => exact hsilent _ fun _ => rfl
  | groupBy | offset =>
    simp only [Query.planned, Query.clausesAt]
    split <;> rfl
  | limit =>
    simp only [Query.planned, Query.clausesAt]
    cases q.limit <;> rfl

/-- The operations of stages add the conditions of these stages. -/
theorem clauses_stages {q : Query} {windows : List Operation}
    (hwindows : List.Forall₂ Window.Planned q.windows windows) (stages : List Stage) :
    (stages.flatMap (q.planned [] [] windows)).flatMap Operation.clauses =
      stages.flatMap q.clausesAt := by
  rw [List.flatMap_assoc]
  exact List.flatMap_congr fun s _ => clauses_planned hwindows s

/-- The operations of a query add the conditions of the query. -/
theorem clauses_compileClauses {q : Query} {os : List Operation} (h : q.compileClauses = .ok os) :
    Same (os.flatMap Operation.clauses) q.clauses := by
  obtain ⟨windows, hwindows, rfl⟩ := compileClauses_eq_ok h
  rw [clauses_stages hwindows]
  simp only [Stage.all, Query.clausesAt, List.flatMap_cons, List.flatMap_nil, List.nil_append,
    List.append_nil, ← List.append_assoc]
  exact Same.append (.of_eq rfl) (clauses_groups q.groups)

theorem clauses_compileTables (ts : List (TableExpr Query)) :
    Yields (compileTables ts) fun os => os.flatMap Operation.clauses = [] := by
  induction ts with
  | nil => exact yields_pure rfl
  | cons t rest ih =>
    refine yields_bind (yields_lift fun _ _ => trivial) fun _ _ => ?_
    refine yields_bind (p := fun _ => True) (fun _ _ _ _ _ => trivial) fun _ _ => ?_
    exact yields_bind ih fun os hos => yields_pure hos

theorem clauses_compileRecursiveTables (ts : List (RecursiveExpr Query)) :
    Yields (compileRecursiveTables ts) fun os => os.flatMap Operation.clauses = [] := by
  induction ts with
  | nil => exact yields_pure rfl
  | cons t rest ih =>
    obtain ⟨name, initial, recursive, keepRepeats, columns, table, recursiveTable,
      recursiveColumns⟩ := t
    have hany {α : Type} (x : Logged α) : Yields x fun _ => True := fun _ _ _ _ _ => trivial
    have hparts : Yields (do
        let name ← checkIdentifier name
        let first ← initial.compile
        let next ← recursive.compile
        return .recursiveTable name first next keepRepeats columns table recursiveTable
          recursiveColumns :: (← compileRecursiveTables rest) : Logged (List Operation))
        fun os => os.flatMap Operation.clauses = [] := by
      refine yields_bind (hany _) fun _ _ => yields_bind (hany _) fun _ _ => ?_
      refine yields_bind (hany _) fun _ _ => ?_
      exact yields_bind ih fun os hos => yields_pure hos
    unfold compileRecursiveTables
    split
    · exact yields_bind (hany _) fun _ _ => hparts
    · exact hparts

theorem clauses_compile (q : Query) :
    Yields q.compile fun os => Same (os.flatMap Operation.clauses) q.clauses := by
  rw [compile_eq]
  refine yields_bind (yields_lift fun _ _ => trivial) fun _ _ => ?_
  refine yields_bind (clauses_compileTables q.tables) fun ts hts => ?_
  refine yields_bind (clauses_compileRecursiveTables q.recursiveTables) fun rs hrs => ?_
  refine yields_bind (yields_lift fun _ => clauses_compileClauses) fun cs hcs => ?_
  refine yields_pure ?_
  rw [List.flatMap_append, List.flatMap_append, hts, hrs]
  exact hcs

/-- The statement for a query says what the conditions of the query say. -/
theorem expresses_statement {catalog : Catalog} {table : String} {q : Query} {s : Select}
    (h : q.statement catalog table = .ok s) : Expresses q.clauses s.body.criteria := by
  have hbuilt : Yields (do build catalog table (← q.compile) : Logged Select)
      fun s => Expresses q.clauses s.body.criteria := by
    refine yields_bind (clauses_compile q) fun os hos => yields_lift fun s hs => ?_
    unfold build at hs
    rcases hrun : ExceptT.run (applyOperations os) (Draft.start catalog table []) with ⟨result, d⟩
    rw [hrun] at hs
    obtain ⟨u, rfl, hstatement⟩ := sequence_eq_ok.mp hs
    obtain ⟨js, hjs, hexpresses⟩ := gains_operations os [] _ u d rfl hrun
    have hcriteria : s.body.criteria = js := by
      unfold Draft.statement at hstatement
      simp only [sequence_eq_ok] at hstatement
      obtain ⟨projection, -, source, -, groupBy, -, limit, -, hrest⟩ := hstatement
      split at hrest
      all_goals
        obtain ⟨offset, -, hdone⟩ := sequence_eq_ok.mp hrest
        obtain rfl := Except.ok.inj hdone
        exact hjs
    rw [hcriteria]
    exact hexpresses.of_same hos
  exact hbuilt [] s _ trivial (Prod.ext h rfl)

end Compiling

section Writing

/-- The text of a piece of a condition. -/
def Spells (form : Form) (p : Piece Test) (text : String) : Prop :=
  ∃ before after, (Writing.piece form p).run before = .ok (text, after)

/-- Text behind WHERE; without conditions there is none. -/
def whereText (texts : List String) : String :=
  if texts.isEmpty then "" else " \nWHERE " ++ String.join texts

theorem spells_pieces {form : Form} {ps : List (Piece Test)} {texts : List String}
    {p p' : Progress} (h : (ps.mapM (Writing.piece form)).run p = .ok (texts, p')) :
    List.Forall₂ (Spells form) ps texts := by
  induction ps generalizing texts p with
  | nil =>
    cases h
    exact .nil
  | cons piece ps ih =>
    rw [List.mapM_cons] at h
    obtain ⟨text, q, htext, h⟩ := run_sequence_eq_ok.mp h
    obtain ⟨rest, q', hrest, h⟩ := run_sequence_eq_ok.mp h
    cases h
    exact .cons ⟨p, q, htext⟩ (ih hrest)

/-- The condition of a statement is written piece by piece. -/
theorem spells_condition {form : Form} {js : List Criterion} {text : String} {p p' : Progress}
    (hproper : Joined.AllProper js)
    (h : (Writing.condition form " \nWHERE " js).run p = .ok (text, p')) :
    ∃ texts, List.Forall₂ (Spells form) (Joined.conjunctionPieces js) texts ∧
      text = whereText texts := by
  unfold Writing.condition at h
  unfold Joined.conjunctionPieces
  cases hjs : Joined.conjunction js with
  | none =>
    rw [hjs] at h
    cases h
    exact ⟨[], .nil, rfl⟩
  | some j =>
    rw [hjs] at h
    obtain ⟨condition, q, hcondition, h⟩ := run_sequence_eq_ok.mp h
    cases h
    obtain ⟨texts, q', htexts, h⟩ := run_sequence_eq_ok.mp hcondition
    cases h
    have hspells := spells_pieces htexts
    have hnonempty : texts ≠ [] := by
      rintro rfl
      have hpieces : j.pieces = [] := List.forall₂_nil_right_iff.mp hspells
      exact Joined.pieces_ne_nil (Joined.proper_conjunction hproper hjs) hpieces
    refine ⟨texts, hspells, ?_⟩
    simp [whereText, hnonempty]

/-- Where the text of a condition stands among the clauses of a statement. -/
theorem body_where {form : Form} {b : Body} {text : String} {p p' : Progress}
    (hproper : Joined.AllProper b.criteria) (h : (Writing.body form b).run p = .ok (text, p')) :
    ∃ columns source texts rest,
      text = "SELECT " ++ columns ++ " \nFROM " ++ source ++ whereText texts ++ rest ∧
        List.Forall₂ (Spells form) (Joined.conjunctionPieces b.criteria) texts := by
  unfold Writing.body at h
  obtain ⟨columns, p₂, -, h⟩ := run_sequence_eq_ok.mp h
  obtain ⟨source, p₃, -, h⟩ := run_sequence_eq_ok.mp h
  obtain ⟨criteria, p₄, hcriteria, h⟩ := run_sequence_eq_ok.mp h
  obtain ⟨having, p₅, -, h⟩ := run_sequence_eq_ok.mp h
  obtain ⟨limit, p₆, -, h⟩ := run_sequence_eq_ok.mp h
  obtain ⟨offset, p₇, -, h⟩ := run_sequence_eq_ok.mp h
  cases h
  obtain ⟨texts, htexts, rfl⟩ := spells_condition hproper hcriteria
  refine ⟨commas columns, source, texts, Writing.clause " GROUP BY " (b.groupBy.map Writing.column) ++
    having ++ Writing.clause " ORDER BY " (b.orderBy.map Writing.sort) ++ limit ++
    (if b.limit.isNone && b.offset.isSome then "\n LIMIT -1" else "") ++ offset, ?_, htexts⟩
  simp only [String.append_assoc]

/-- Where the text of a condition stands in the text of a statement. -/
theorem written_where {form : Form} {s : Select} {w : Written}
    (hproper : Joined.AllProper s.body.criteria) (h : s.written form = .ok w) :
    ∃ tables columns source texts rest,
      w.sql = tables ++ ("SELECT " ++ columns ++ " \nFROM " ++ source ++ whereText texts ++ rest) ∧
        List.Forall₂ (Spells form) (Joined.conjunctionPieces s.body.criteria) texts := by
  unfold Select.written at h
  obtain ⟨⟨text, p⟩, hwrite, hdone⟩ := sequence_eq_ok.mp h
  obtain rfl := Except.ok.inj hdone
  cases s with
  | mk tables body =>
    rw [Select.write] at hwrite
    obtain ⟨u, q, -, hbody⟩ := run_sequence_eq_ok.mp hwrite
    obtain ⟨columns, source, texts, rest, rfl, htexts⟩ := body_where hproper hbody
    exact ⟨_, columns, source, texts, rest, rfl, htexts⟩

/-- The text of a statement has a condition behind WHERE exactly if the statement has one. -/
theorem written_where_iff {form : Form} {s : Select} {w : Written}
    (hproper : Joined.AllProper s.body.criteria) (h : s.written form = .ok w) :
    ∃ tables columns source texts rest,
      w.sql = tables ++ ("SELECT " ++ columns ++ " \nFROM " ++ source ++ whereText texts ++ rest) ∧
        (texts = [] ↔ s.body.criteria = []) := by
  obtain ⟨tables, columns, source, texts, rest, hsql, htexts⟩ := written_where hproper h
  refine ⟨tables, columns, source, texts, rest, hsql, ?_⟩
  have hpieces : texts = [] ↔ Joined.conjunctionPieces s.body.criteria = [] := by
    rw [← List.length_eq_zero_iff, ← htexts.length_eq, List.length_eq_zero_iff]
  rw [hpieces, Joined.conjunctionPieces_eq_nil hproper]

/-- A filter, and a group with an empty group, a tagged member and a group of alternatives. -/
def grouped : Query :=
  { Query.empty none with
    filter := [("dept", .text "eng")]
    groups := [⟨.and, [.group .or [] none, .condition ⟨"id", "=", .int 1, none⟩,
      .condition ⟨"age", ">", .int 2, some .or⟩,
      .group .or [.condition ⟨"a", "=", .int 3, none⟩, .condition ⟨"b", "=", .int 4, none⟩] none],
      none⟩] }

end Writing

end RowGate
