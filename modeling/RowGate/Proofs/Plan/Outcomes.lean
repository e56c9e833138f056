import RowGate.Proofs.Plan.Levels
import RowGate.Proofs.Sql.Counts
import RowGate.Proofs.Sql.RawText
import RowGate.Proofs.Sql.Values
/-!
How the building of a statement ends. Main statement: a query with whole limits that is compiled is
built, or refused for a feature that is not supported, or for one of its comparisons or raw texts; and
if it is built, each of them fits.
-/
namespace RowGate

open Sql Stateful

/-- Operators that compare by order or by pattern. -/
def orderOperators : List String := ["<", "<=", ">", ">=", "like", "ilike", "not like"]

/-- Operators that take a list. -/
def listOperators : List String := ["in", "not in", "between"]

/-- How a comparison or a raw text makes a statement fail. -/
inductive Predicate.Fails : Predicate → Fault → Prop
  /-- Null and truth values have no order, and are no patterns. -/
  | unordered {field operator : String} {v : Value} : operator ∈ orderOperators →
      v = .null ∨ (∃ b, v = .bool b) → Fails (.compare field operator v) .badArgument
  | notValues {field operator : String} {v : Value} : operator ∈ listOperators →
      (∀ vs, asValues v ≠ .ok vs) → Fails (.compare field operator v) (.violation (.notValues v))
  | notBounds {field : String} {v : Value} {vs : List Value} : asValues v = .ok vs →
      vs.length ≠ 2 → Fails (.compare field "between" v) (.violation (.notBounds v))
  | bindings {opening sql : String} {bindings : List Value} :
      sql.toList.count '?' ≠ bindings.length →
      Fails (.raw opening sql bindings)
        (.violation (.bindingCount (sql.toList.count '?') bindings.length sql))
  /-- A parameter that runs into the text around it is not there. -/
  | placeholders {opening sql : String} {bindings : List Value} :
      sql.toList.count '?' = bindings.length → standsApart none sql.toList = false →
      Fails (.raw opening sql bindings) .badArgument

/-- A comparison that cannot fail, or a raw text with a value for each question mark. -/
def Predicate.Fits : Predicate → Prop
  | .compare field operator v => ∀ f, ¬ (Predicate.compare field operator v).Fails f
  | .raw _ sql bindings => sql.toList.count '?' = bindings.length
  | _ => True

/-- A failure for a feature that is not supported, or for one of some predicates. -/
def Blames (ps : List Predicate) (f : Fault) : Prop :=
  (∃ feature, f = .unsupported feature) ∨ ∃ p ∈ ps, p.Fails f

theorem Blames.mono {ps qs : List Predicate} {f : Fault} (h : Blames ps f)
    (hsub : ∀ p ∈ ps, p ∈ qs) : Blames qs f := by
  rcases h with hfeature | ⟨p, hp, hfails⟩
  · exact .inl hfeature
  · exact .inr ⟨p, hsub p hp, hfails⟩

/-! ## Checks -/

/-- A call that answers only if some predicates fit, and else fails for one of them or for a feature
that is not supported. -/
structure Probes {α : Type} (ps : List Predicate) (y : Except Fault α) : Prop where
  ok : ∀ a, y = .ok a → ∀ p ∈ ps, p.Fits
  error : ∀ f, y = .error f → Blames ps f

section Probing

variable {α β : Type} {ps qs : List Predicate}

theorem probes_ok (a : α) : Probes [] (.ok a) :=
  ⟨fun _ _ => List.forall_mem_nil _, nofun⟩

theorem probes_unsupported (feature : Unsupported) :
    Probes [] (.error (.unsupported feature) : Except Fault α) := by
  constructor
  · nofun
  · intro f h
    exact .inl ⟨feature, (Except.error.inj h).symm⟩

theorem probes_single {p : Predicate} {y : Except Fault α} (hok : ∀ a, y = .ok a → p.Fits)
    (herror : ∀ f, y = .error f → p.Fails f) : Probes [p] y := by
  constructor
  · intro a h q hq
    rw [List.mem_singleton.mp hq]
    exact hok a h
  · intro f h
    exact .inr ⟨p, List.mem_singleton_self p, herror f h⟩

theorem probes_bind {y : Except Fault α} {g : α → Except Fault β} (hy : Probes ps y)
    (hg : ∀ a, Probes qs (g a)) : Probes (ps ++ qs) (y >>= g) := by
  cases y with
  | error f =>
    constructor
    · nofun
    · intro f' h
      obtain rfl := Except.error.inj h
      exact (hy.error f rfl).mono fun p hp => List.mem_append_left qs hp
  | ok a =>
    constructor
    · intro b h
      exact List.forall_mem_append.mpr ⟨hy.ok a rfl, (hg a).ok b h⟩
    · intro f h
      exact ((hg a).error f h).mono fun p hp => List.mem_append_right ps hp

/-- Behind a check that concerns no predicates, those of the rest count. -/
theorem probes_behind {y : Except Fault α} {g : α → Except Fault β} (hy : Probes [] y)
    (hg : ∀ a, Probes ps (g a)) : Probes ps (y >>= g) :=
  probes_bind hy hg

theorem probes_map {y : Except Fault α} {g : α → Except Fault β} (hy : Probes ps y)
    (hg : ∀ a, Probes [] (g a)) : Probes ps (y >>= g) := by
  have h := probes_bind hy hg
  rwa [List.append_nil] at h

theorem probes_mapM {f : α → Except Fault β} {g : α → List Predicate}
    (hf : ∀ a, Probes (g a) (f a)) (as : List α) : Probes (as.flatMap g) (as.mapM f) := by
  induction as with
  | nil => exact probes_ok []
  | cons a as ih =>
    rw [List.mapM_cons, List.flatMap_cons]
    apply probes_bind (hf a)
    intro b
    exact probes_map ih fun bs => probes_ok _

theorem probes_checks {f : α → Except Fault β} (hf : ∀ a, Probes [] (f a)) (as : List α) :
    Probes [] (as.mapM f) := by
  have h := probes_mapM hf as
  rwa [List.flatMap_eq_nil_iff.mpr fun _ _ => rfl] at h

theorem probes_checkIdentifier (name : String) : Probes [] (checkIdentifier name) := by
  unfold checkIdentifier
  split
  · exact probes_ok _
  · exact probes_unsupported _

theorem probes_column (name : String) : Probes [] (Column.of name) := by
  have hcheck : Probes [] (checkColumn name) := by
    unfold checkColumn
    split
    · exact probes_ok _
    · exact probes_checkIdentifier name
  exact probes_behind hcheck fun _ => probes_ok _

theorem probes_sort (field direction : String) (nulls : Option String) :
    Probes [] (Drafting.sort field direction nulls) :=
  probes_behind (probes_column field) fun _ => probes_ok _

theorem probes_rows (b : FrameBound) (atStart : Bool) : Probes [] (b.rows atStart) := by
  cases b with
  | offset n =>
    unfold FrameBound.rows
    dsimp only
    split
    · exact probes_unsupported _
    · exact probes_ok _
  | named name =>
    unfold FrameBound.rows
    dsimp only
    split
    · exact probes_ok _
    by_cases hname : name = if atStart then "UNBOUNDED PRECEDING" else "UNBOUNDED FOLLOWING"
    · rw [if_pos hname]
      exact probes_ok _
    · rw [if_neg hname]
      exact probes_unsupported _

theorem probes_bounds (f : Frame) : Probes [] f.bounds := by
  have hends : Probes [] (do
      let start ← f.start.rows true
      return (start, ← (f.stop.getD (.named "CURRENT ROW")).rows false)) := by
    apply probes_behind (probes_rows _ _)
    intro start
    exact probes_behind (probes_rows _ _) fun _ => probes_ok _
  unfold Frame.bounds
  dsimp only
  split
  · exact probes_behind (probes_unsupported _) fun _ => hends
  · exact hends

/-! ## Comparisons -/

variable {field operator : String} {v : Value}

theorem fits_of_operator (horder : operator ∉ orderOperators) (hlist : operator ∉ listOperators) :
    (Predicate.compare field operator v).Fits := by
  intro f h
  cases h with
  | unordered h _ => exact horder h
  | notValues h _ => exact hlist h
  | notBounds _ _ => exact hlist (by decide)

theorem probes_unordered (t : Test) (horder : operator ∈ orderOperators)
    (hlist : operator ∉ listOperators) : Probes [.compare field operator v] (Test.ordered v t) := by
  have hfits (hv : v ≠ .null) (hb : ∀ b, v ≠ .bool b) :
      (Predicate.compare field operator v).Fits := by
    intro f h
    cases h with
    | unordered _ h =>
      rcases h with rfl | ⟨b, rfl⟩
      · exact hv rfl
      · exact hb b rfl
    | notValues h _ => exact hlist h
    | notBounds _ _ => exact hlist (by decide)
  apply probes_single
  · intro u h
    apply hfits
    · rintro rfl
      cases h
    · rintro b rfl
      cases h
  · intro f h
    unfold Test.ordered at h
    split at h
    · rw [← Except.error.inj h]
      exact .unordered horder (.inl rfl)
    · rw [← Except.error.inj h]
      exact .unordered horder (.inr ⟨_, rfl⟩)
    · cases h

theorem asValues_error {f : Fault} (h : asValues v = .error f) : f = .violation (.notValues v) := by
  unfold asValues at h
  split at h
  · exact (Except.error.inj h).symm
  · exact (Except.error.inj h).symm
  · split at h
    · cases h
    · exact (Except.error.inj h).symm

theorem fails_of_asValues {f : Fault} (hlist : operator ∈ listOperators)
    (h : asValues v = .error f) : (Predicate.compare field operator v).Fails f := by
  rw [asValues_error h]
  apply Predicate.Fails.notValues hlist
  intro vs hvs
  rw [h] at hvs
  cases hvs

theorem probes_values {g : List Value → Test} (hlist : operator ∈ listOperators)
    (horder : operator ∉ orderOperators) (hbetween : operator ≠ "between") :
    Probes [.compare field operator v] (do return g (← asValues v)) := by
  cases hvs : asValues v with
  | error f =>
    apply probes_single
    · nofun
    · intro f' h
      rw [← Except.error.inj h]
      exact fails_of_asValues hlist hvs
  | ok vs =>
    apply probes_single
    · intro t _ f h
      cases h with
      | unordered h _ => exact horder h
      | notValues _ h => exact h vs hvs
      | notBounds _ _ => exact hbetween rfl
    · nofun

theorem probes_between {g : Value → Value → Test} :
    Probes [.compare field "between" v] (do
      let (low, high) ← asBounds v
      return g low high) := by
  have hlist : "between" ∈ listOperators := by decide
  have horder : "between" ∉ orderOperators := by decide
  unfold asBounds
  cases hvs : asValues v with
  | error f =>
    apply probes_single
    · nofun
    · intro f' h
      rw [← Except.error.inj h]
      exact fails_of_asValues hlist hvs
  | ok vs =>
    match vs with
    | [low, high] =>
      apply probes_single
      · intro t _ f h
        cases h with
        | unordered h _ => exact horder h
        | notValues _ h => exact h _ hvs
        | notBounds hother hlength =>
          rw [hvs] at hother
          obtain rfl := Except.ok.inj hother
          exact hlength rfl
      · nofun
    | [] | [_] | _ :: _ :: _ :: _ =>
      apply probes_single
      · nofun
      · intro f h
        rw [← Except.error.inj h]
        exact .notBounds hvs (by simp)

theorem probes_operator {test : Column → Value → Except Fault Test}
    (h : Test.ofOperator? operator = some test) (c : Column) :
    Probes [.compare field operator v] (test c v) := by
  unfold Test.ofOperator? at h
  have hfits (horder : operator ∉ orderOperators) (hlist : operator ∉ listOperators) (t : Test) :
      Probes [.compare field operator v] (.ok t) := by
    apply probes_single
    · exact fun _ _ => fits_of_operator horder hlist
    · nofun
  split at h
  case h_16 => cases h
  case h_4 | h_5 | h_6 | h_7 | h_8 | h_9 | h_10 =>
    rw [← Option.some.inj h]
    exact probes_unordered _ (by decide) (by decide)
  case h_11 | h_12 =>
    rw [← Option.some.inj h]
    exact probes_values (by decide) (by decide) (by decide)
  case h_13 =>
    rw [← Option.some.inj h]
    exact probes_between
  all_goals
    rw [← Option.some.inj h]
    exact hfits (by decide) (by decide) _

theorem probes_test (field operator : String) (v : Value) :
    Probes [.compare field operator v] (Test.of field operator v) := by
  unfold Test.of
  cases h : Test.ofOperator? operator with
  | none =>
    constructor
    · nofun
    · intro f hf
      exact .inl ⟨_, (Except.error.inj hf).symm⟩
  | some test => exact probes_behind (probes_column field) fun c => probes_operator h c

/-- The members of a group are compared one after another, at all depths. -/
theorem probes_members (connective : Connective) : (before : Option Criterion) →
    (ms : List GroupMember) →
    Probes (memberPredicates ms) (membersCriterion connective before ms)
  | before, [] => by
    rw [membersCriterion]
    exact probes_ok before
  | before, .condition c :: ms => by
    rw [membersCriterion, memberPredicates]
    apply probes_bind (probes_test _ _ _)
    intro t
    exact probes_members connective _ ms
  | before, .group inner members joiner :: ms => by
    rw [membersCriterion, memberPredicates]
    apply probes_bind (probes_members inner none members)
    intro c
    cases c with
    | none => exact probes_members connective _ ms
    | some j => exact probes_members connective _ ms

theorem probes_windowColumn {w : FramedWindow} (hw : w.type ∈ windowTypes) :
    Probes (w.conditions.map (·.predicate)) (Drafting.windowColumn w) := by
  have hfunction : Probes [] (Drafting.functionOf w.type) := by
    have hall : ∀ type ∈ windowTypes, (Drafting.functionOf type).toOption.isSome = true := by
      decide
    have hsome := hall w.type hw
    cases hname : Drafting.functionOf w.type with
    | error f =>
      rw [hname] at hsome
      cases hsome
    | ok name => exact probes_ok name
  have hconditions : Probes (w.conditions.map (·.predicate)) (w.conditions.mapM conditionTest) := by
    rw [List.map_eq_flatMap]
    exact probes_mapM (fun c => probes_test c.field c.operator c.value) w.conditions
  have hargument : Probes [] (windowArgument w) := by
    unfold windowArgument
    split
    · exact probes_ok none
    · split
      · exact probes_ok none
      · exact probes_behind (probes_column _) fun _ => probes_ok _
  have hframe : Probes [] (windowFrame w) := by
    unfold windowFrame
    split
    · exact probes_ok none
    · exact probes_behind (probes_bounds _) fun _ => probes_ok _
  rw [windowColumn_eq]
  apply probes_behind hfunction
  intro function
  apply probes_behind hargument
  intro argument
  apply probes_map hconditions
  intro tests
  apply probes_behind (probes_checks probes_column _)
  intro partition
  apply probes_behind (probes_checks (fun o => probes_sort _ _ _) _)
  intro order
  exact probes_behind hframe fun _ => probes_ok _

/-! ## Drafts -/

/-- Counts of a draft that are whole numbers, or absent. -/
def Sql.Draft.HasWholeCounts (d : Draft) : Prop :=
  (d.limit = .null ∨ ∃ n : Int, d.limit = .int n) ∧
    (d.offset = .null ∨ ∃ n : Int, d.offset = .int n)

theorem probes_count {v : Value} (h : v = .null ∨ ∃ n : Int, v = .int n) :
    Probes [] (Draft.count? v) := by
  rcases h with rfl | ⟨n, rfl⟩
  · exact probes_ok none
  · rw [count?_int]
    exact probes_ok _

theorem probes_resolve (d : Draft) (name : String) : Probes [] (d.resolve name) := by
  unfold Draft.resolve
  split
  · exact probes_ok _
  · dsimp only
    split
    · exact probes_ok _
    · exact probes_behind (probes_checkIdentifier name) fun _ => probes_ok _

theorem probes_projection (d : Draft) : Probes [] d.projection := by
  have hlisted (entry : String) : Probes [] (Draft.listed entry) := by
    unfold Draft.listed
    dsimp only
    split
    · exact probes_behind (probes_column entry) fun _ => probes_ok _
    · exact probes_ok _
  unfold Draft.projection
  dsimp only
  split
  · exact probes_behind (probes_checks hlisted _) fun _ => probes_ok _
  split
  · exact probes_ok _
  · apply probes_behind (probes_checks (fun g => ?_) _) fun _ => probes_ok _
    exact probes_behind (probes_column g) fun _ => probes_ok _

theorem probes_statement {d : Draft} (h : d.HasWholeCounts) : Probes [] d.statement := by
  unfold Draft.statement
  apply probes_behind (probes_projection d)
  intro projection
  apply probes_behind (probes_resolve d _)
  intro source
  apply probes_behind (probes_checks probes_column _)
  intro groupBy
  apply probes_behind (probes_count h.1)
  intro limit
  dsimp only
  split
  · exact probes_behind (probes_count h.2) fun _ => probes_ok _
  · exact probes_ok _

end Probing

/-- Work on a draft with whole counts that ends only if some predicates fit, with whole counts again,
and else fails for one of them or for a feature that is not supported. -/
structure Sql.Drafting.Probes {α : Type} (ps : List Predicate) (x : Drafting α) : Prop where
  ok : Ensures Draft.HasWholeCounts x fun _ d => d.HasWholeCounts ∧ ∀ p ∈ ps, p.Fits
  error : ∀ d f d', d.HasWholeCounts → x.run d = (.error f, d') → Blames ps f

namespace Sql.Drafting

section

variable {α β : Type} {ps qs : List Predicate}

theorem probes_pure (a : α) : Probes [] (pure a) := by
  constructor
  · exact ensures_pure fun d hd => ⟨hd, List.forall_mem_nil _⟩
  · intro d f d' _ h
    cases h

theorem probes_throw (ps : List Predicate) (feature : Unsupported) :
    Probes ps (throw (.unsupported feature) : Drafting α) := by
  constructor
  · exact ensures_throw
  · intro d f d' _ h
    cases h
    exact .inl ⟨feature, rfl⟩

theorem probes_lift {y : Except Fault α} (h : RowGate.Probes ps y) :
    Probes ps (liftM y : Drafting α) := by
  constructor
  · exact ensures_lift fun a d ha hd => ⟨hd, h.ok a ha⟩
  · intro d f d' _ hrun
    cases y with
    | ok a => cases hrun
    | error g =>
      cases hrun
      exact h.error _ rfl

theorem probes_get : Probes [] (get : Drafting Draft) := by
  constructor
  · exact ensures_get fun d hd => ⟨hd, List.forall_mem_nil _⟩
  · intro d f d' _ h
    cases h

theorem probes_modify {g : Draft → Draft} (hg : ∀ d, d.HasWholeCounts → (g d).HasWholeCounts) :
    Probes [] (modify g : Drafting PUnit) := by
  constructor
  · exact ensures_modify fun d hd => ⟨hg d hd, List.forall_mem_nil _⟩
  · intro d f d' _ h
    cases h

theorem probes_bind {x : Drafting α} {f : α → Drafting β} (hx : Probes ps x)
    (hf : ∀ a, Probes qs (f a)) : Probes (ps ++ qs) (x >>= f) := by
  constructor
  · intro d b d' hd hrun
    obtain ⟨a, e, hfirst, hrest⟩ := run_sequence_ok hrun
    obtain ⟨he, hps⟩ := hx.ok d a e hd hfirst
    obtain ⟨hd', hqs⟩ := (hf a).ok e b d' he hrest
    exact ⟨hd', List.forall_mem_append.mpr ⟨hps, hqs⟩⟩
  · intro d g d' hd hrun
    rw [run_sequence] at hrun
    rcases hfirst : x.run d with ⟨a | a, e⟩
    · rw [hfirst] at hrun
      cases hrun
      exact (hx.error d _ _ hd hfirst).mono fun p hp => List.mem_append_left qs hp
    · rw [hfirst] at hrun
      have he := (hx.ok d a e hd hfirst).1
      exact ((hf a).error e g d' he hrun).mono fun p hp => List.mem_append_right ps hp

theorem probes_behind {x : Drafting α} {f : α → Drafting β} (hx : Probes [] x)
    (hf : ∀ a, Probes ps (f a)) : Probes ps (x >>= f) :=
  probes_bind hx hf

/-- Predicates that fit anyway may be added. -/
theorem Probes.mono {x : Drafting α} (h : Probes ps x) (hsub : ∀ p ∈ ps, p ∈ qs)
    (hfits : ∀ p ∈ qs, p ∈ ps ∨ p.Fits) : Probes qs x := by
  constructor
  · intro d a d' hd hrun
    obtain ⟨hd', hps⟩ := h.ok d a d' hd hrun
    exact ⟨hd', fun p hp => (hfits p hp).elim (hps p) id⟩
  · intro d f d' hd hrun
    exact (h.error d f d' hd hrun).mono hsub

theorem probes_map {x : Drafting α} {f : α → Drafting β} (hx : Probes ps x)
    (hf : ∀ a, Probes [] (f a)) : Probes ps (x >>= f) := by
  have h := probes_bind hx hf
  rwa [List.append_nil] at h

/-- Work that checks something and then adds it. -/
theorem probes_checked {y : Except Fault α} {f : α → Draft → Draft} (hy : RowGate.Probes ps y)
    (hf : ∀ a d, d.HasWholeCounts → (f a d).HasWholeCounts) :
    Probes ps (do modify (f (← liftM y)) : Drafting PUnit) :=
  probes_map (probes_lift hy) fun a => probes_modify (hf a)

theorem probes_failed {y : Except Fault α} {f : α → Drafting β} {g : Fault} (hy : y = .error g)
    (hg : Blames ps g) : Probes ps (liftM y >>= f) := by
  subst hy
  constructor
  · intro d b d' _ h
    cases h
  · intro d f' d' _ h
    cases h
    exact hg

variable {opening : String} (hopening : IsOpening opening)

include hopening in
theorem probes_rawText (sql : String) (bindings : List Value) :
    Probes [.raw opening sql bindings] (rawText opening sql bindings) := by
  unfold rawText
  rw [checkBindings_eq]
  by_cases hcount : sql.toList.count '?' = bindings.length
  · have htext (first : Nat) :
        RowGate.Probes [.raw opening sql bindings] (RawText.of first opening sql bindings) := by
      apply probes_single
      · exact fun _ _ => hcount
      · intro f hf
        have hbad : f = .badArgument := by
          unfold RawText.of at hf
          dsimp only at hf
          split at hf
          · cases hf
          · exact (Except.error.inj hf).symm
        rw [hbad]
        apply Predicate.Fails.placeholders hcount
        by_contra hapart
        obtain ⟨r, hr⟩ := of_standsApart first hopening hcount (by simpa using hapart)
        rw [hr] at hf
        cases hf
    rw [if_pos hcount]
    apply probes_behind (probes_lift (RowGate.probes_ok ()))
    intro _
    apply probes_behind probes_get
    intro d
    apply probes_behind
    · exact probes_modify fun _ h => h
    · exact fun _ => probes_lift (htext d.nextRaw)
  · apply probes_failed (if_neg hcount)
    exact .inr ⟨_, List.mem_singleton_self _, .bindings hcount⟩

theorem probes_addCriterion (j : Criterion) : Probes [] (addCriterion j) :=
  probes_modify fun _ h => h

include hopening in
theorem probes_addRaw (sql : String) (bindings : List Value) :
    Probes [.raw opening sql bindings] (addRaw opening sql bindings) :=
  probes_map (probes_rawText hopening sql bindings) fun _ => probes_addCriterion _

theorem probes_addTest {y : Except Fault Test} (h : RowGate.Probes ps y) : Probes ps (addTest y) :=
  probes_map (probes_lift h) fun _ => probes_addCriterion _

theorem probes_addFieldTest (field : String) (test : Column → Test) :
    Probes [] (addFieldTest field test) :=
  probes_addTest (RowGate.probes_behind (probes_column field) fun _ => RowGate.probes_ok _)

theorem probes_addEquals (values : Record) : Probes [] (addEquals values) := by
  induction values with
  | nil => exact probes_pure ()
  | cons field rest ih =>
    apply probes_behind (probes_lift (probes_column _))
    intro column
    exact probes_behind (probes_addCriterion _) fun _ => ih

theorem probes_addGroupBy (fields : List String) : Probes [] (addGroupBy fields) := by
  induction fields with
  | nil => exact probes_pure ()
  | cons field rest ih =>
    apply probes_behind (probes_lift (probes_checkIdentifier _))
    intro f
    apply probes_behind
    · exact probes_modify fun _ h => h
    · exact fun _ => ih

theorem probes_addGroup (g : Group) : Probes (memberPredicates g.members) (addGroup g) := by
  apply probes_map (probes_lift (probes_members g.connective none g.members))
  intro c
  cases c with
  | none => exact probes_pure ()
  | some j => exact probes_addCriterion j

theorem probes_addAggregate (type field name : String) :
    Probes [] (addAggregate type field name) := by
  unfold addAggregate
  split
  · apply probes_behind (probes_lift (probes_column field))
    intro column
    exact probes_checked (probes_checkIdentifier name) fun _ _ h => h
  · exact probes_throw _ _

/-- Work on a draft inside ends as it does there. -/
theorem probes_inner (table : String) (columns : List String) (own : List (String × Source))
    {work : Drafting Unit} (h : Probes ps work) : Probes ps (inner table columns own work) := by
  have hchild (d : Draft) : (d.child table columns own).HasWholeCounts := ⟨.inl rfl, .inl rfl⟩
  constructor
  · intro d s d' hd hrun
    obtain ⟨inside, hinside, -, rfl⟩ := inner_ok hrun
    exact ⟨hd, (h.ok _ _ _ (hchild d) hinside).2⟩
  · intro d f d' hd hrun
    rcases hwork : work.run (d.child table columns own) with ⟨result, inside⟩
    rw [run_inner hwork] at hrun
    have hresult := (Prod.mk.inj hrun).1
    cases result with
    | error g =>
      rw [error_sequence] at hresult
      rw [← Except.error.inj hresult]
      exact h.error _ _ _ (hchild d) hwork
    | ok u =>
      have hwhole := (h.ok _ _ _ (hchild d) hwork).1
      exact ((probes_statement hwhole).error f hresult).mono nofun

theorem probes_freshTable : Probes [] freshTable := by
  apply probes_behind probes_get
  intro d
  apply probes_behind
  · exact probes_modify fun _ h => h
  · exact fun _ => probes_pure _

theorem probes_declare (t : CommonTable) : Probes [] (declare t) := probes_modify fun _ h => h

theorem probes_addTable (name : String) {work : Drafting Unit} (h : Probes ps work)
    (columns : List String) (source : Option String) :
    Probes ps (addTable name work columns source) := by
  apply probes_behind probes_get
  intro d
  apply probes_map (probes_inner _ columns [] h)
  intro query
  exact probes_behind probes_freshTable fun _ => probes_declare _

theorem probes_addRecursiveTable (name : String) {initial recursive : Drafting Unit}
    (hinitial : Probes ps initial) (hrecursive : Probes qs recursive) (keepRepeats : Bool)
    (columns : List String) (source recursiveSource : Option String)
    (recursiveColumns : List String) :
    Probes (ps ++ qs) (addRecursiveTable name initial recursive keepRepeats columns source
      recursiveSource recursiveColumns) := by
  have hcolumns (d : Draft) (source : String) :
      RowGate.Probes [] (d.recursiveColumns source columns) := by
    unfold Draft.recursiveColumns Draft.knownColumns
    split
    · apply RowGate.probes_behind (probes_resolve d source)
      intro s
      cases s <;> exact RowGate.probes_ok _
    · exact RowGate.probes_ok _
  rw [addRecursiveTable_eq]
  apply probes_behind probes_get
  intro d
  apply probes_behind (probes_lift (hcolumns d _))
  intro listed
  unfold addHalves
  split
  · exact probes_throw _ _
  · apply probes_bind (probes_inner _ listed [] hinitial)
    intro first
    apply probes_behind probes_freshTable
    intro id
    apply probes_map (probes_inner _ _ _ hrecursive)
    exact fun next => probes_declare _

end

/-- An operation that holds no others ends as its predicates say. -/
theorem probes_clause {o : Operation} (ho : o.isClause = true) (hready : o.IsReady) :
    Probes o.predicates (applyOperation o) := by
  have hnone {x : Drafting Unit} (hx : Probes [] x) (hfits : ∀ p ∈ o.predicates, p.Fits) :
      Probes o.predicates x := hx.mono nofun fun p hp => .inr (hfits p hp)
  cases o with
  | table | recursiveTable => cases ho
  | window label fragment => exact probes_checked (probes_checkIdentifier label) fun _ _ h => h
  | framedWindow w =>
    apply probes_map (probes_lift (probes_windowColumn hready))
    intro column
    exact probes_checked (probes_checkIdentifier w.label) fun _ _ h => h
  | equals values =>
    apply hnone (probes_addEquals values)
    intro p hp
    simp only [Operation.predicates, Operation.clauses, Operation.asidePredicates, List.append_nil,
      List.mem_flatMap, List.mem_map] at hp
    obtain ⟨_, ⟨field, -, rfl⟩, hp⟩ := hp
    rw [List.mem_singleton.mp hp]
    trivial
  | fragment sql bindings => exact probes_addRaw isOpening_parenthesis sql bindings
  | aggregate type field label => exact probes_addAggregate type field label
  | condition field operator v => exact probes_addTest (probes_test field operator v)
  | range field low high =>
    apply hnone (probes_addFieldTest field _)
    exact List.forall_mem_singleton.mpr trivial
  | isNull field | notNull field | isIn field vs | notIn field vs =>
    apply hnone (probes_addFieldTest field _)
    exact List.forall_mem_singleton.mpr trivial
  | exists_ sql bindings => exact probes_addRaw isOpening_exists sql bindings
  | group g =>
    have hsame (p : Predicate) :
        p ∈ memberPredicates g.members ↔ p ∈ (Operation.group g).predicates := by
      simp [Operation.predicates, Operation.clauses, Operation.asidePredicates, Clause.predicates]
    apply (probes_addGroup g).mono
    · exact fun p hp => (hsame p).mp hp
    · exact fun p hp => .inl ((hsame p).mpr hp)
  | groupBy fields => exact probes_addGroupBy fields
  | having field operator v => exact probes_checked (probes_test field operator v) fun _ _ h => h
  | orderBy field direction nulls =>
    exact probes_checked (probes_sort field direction nulls) fun _ _ h => h
  | limit v =>
    obtain ⟨n, rfl⟩ := hready
    apply probes_modify
    exact fun d hd => ⟨.inr ⟨n, rfl⟩, hd.2⟩
  | offset n =>
    apply probes_modify
    exact fun d hd => ⟨hd.1, .inr ⟨n, rfl⟩⟩

/-- The comparisons and the raw texts of lists of operations. -/
def predicatesAt (levels : List (List Operation)) : List Predicate :=
  levels.flatMap (·.flatMap Operation.predicates)

theorem predicatesAt_append (ls ms : List (List Operation)) :
    predicatesAt (ls ++ ms) = predicatesAt ls ++ predicatesAt ms := List.flatMap_append

theorem probes_leaf {o : Operation} (ho : o.isClause = true) (hready : o.IsReady) :
    Probes (o.predicates ++ predicatesAt o.levels) (applyOperation o) := by
  rw [levels_clause ho, predicatesAt, List.flatMap_nil, List.append_nil]
  exact probes_clause ho hready

/-- The predicates of operations in a row are those of the first and of the rest. -/
theorem mem_predicatesAt_cons (o : Operation) (os : List Operation) (p : Predicate) :
    p ∈ (o.predicates ++ predicatesAt o.levels) ++ predicatesAt (planLevels os) ↔
      p ∈ predicatesAt (planLevels (o :: os)) := by
  simp only [planLevels, innerLevels, predicatesAt, List.flatMap_append, List.flatMap_cons,
    List.mem_append]
  tauto

mutual

/-- An operation ends as its predicates and those of the operations inside it say. -/
theorem probes_operation : (o : Operation) → o.IsReady →
    (∀ os ∈ o.levels, ∀ p ∈ os, p.IsReady) →
    Probes (o.predicates ++ predicatesAt o.levels) (applyOperation o)
  | .table name operations columns source, _, hinner => by
    simp only [applyOperation]
    exact probes_addTable name (probes_operations operations hinner) columns source
  | .recursiveTable name initial recursive keepRepeats columns source recursiveSource
      recursiveColumns, _, hinner => by
    obtain ⟨hinitial, hrecursive⟩ := List.forall_mem_append.mp hinner
    have hparts := probes_addRecursiveTable name (probes_operations initial hinitial)
      (probes_operations recursive hrecursive) keepRepeats columns source recursiveSource
      recursiveColumns
    simp only [applyOperation]
    rw [← predicatesAt_append] at hparts
    exact hparts
  | .window .., hready, _ | .framedWindow .., hready, _ | .equals .., hready, _
  | .fragment .., hready, _ | .aggregate .., hready, _ | .condition .., hready, _
  | .range .., hready, _ | .isNull .., hready, _ | .notNull .., hready, _ | .isIn .., hready, _
  | .notIn .., hready, _ | .exists_ .., hready, _ | .group .., hready, _ | .groupBy .., hready, _
  | .having .., hready, _ | .orderBy .., hready, _ | .limit .., hready, _ | .offset .., hready, _ =>
    probes_leaf rfl hready

/-- Operations end as their predicates and those of the operations inside them say. -/
theorem probes_operations : (os : List Operation) →
    (∀ ps ∈ planLevels os, ∀ p ∈ ps, p.IsReady) →
    Probes (predicatesAt (planLevels os)) (applyOperations os)
  | [], _ => by
    simp only [applyOperations]
    exact probes_pure ()
  | o :: os, h => by
    obtain ⟨hinner, hlast⟩ := List.forall_mem_append.mp h
    obtain ⟨hfirst, hrest⟩ := List.forall_mem_append.mp hinner
    obtain ⟨ho, hos⟩ := List.forall_mem_cons.mp (List.forall_mem_singleton.mp hlast)
    have hboth : Probes ((o.predicates ++ predicatesAt o.levels) ++ predicatesAt (planLevels os))
        (do applyOperation o; applyOperations os) := by
      apply probes_bind (probes_operation o ho hfirst)
      intro _
      apply probes_operations os
      exact List.forall_mem_append.mpr ⟨hrest, List.forall_mem_singleton.mpr hos⟩
    simp only [applyOperations]
    apply hboth.mono
    · exact fun p hp => (mem_predicatesAt_cons o os p).mp hp
    · exact fun p hp => .inl ((mem_predicatesAt_cons o os p).mpr hp)

end

end Sql.Drafting

/-- The comparisons and the raw texts of a query and of the queries inside it. -/
def Query.everyPredicate (q : Query) : List Predicate := q.levels.flatMap Query.predicates

theorem LevelPlan.mem_predicatesAt {qs : List Query} {levels : List (List Operation)}
    (h : List.Forall₂ LevelPlan qs levels) (p : Predicate) :
    p ∈ Drafting.predicatesAt levels ↔ p ∈ qs.flatMap Query.predicates := by
  induction h with
  | nil => rfl
  | cons hfirst _ ih =>
    have hlevel := hfirst.predicates p
    rw [← List.mem_flatMap] at hlevel
    unfold Drafting.predicatesAt at ih ⊢
    rw [List.flatMap_cons, List.flatMap_cons, List.mem_append, List.mem_append, ih, hlevel]

theorem LevelPlan.areReady {qs : List Query} {levels : List (List Operation)}
    (h : List.Forall₂ LevelPlan qs levels) (hlimits : ∀ l ∈ qs, l.HasWholeLimit) :
    ∀ os ∈ levels, ∀ o ∈ os, o.IsReady := by
  induction h with
  | nil => exact List.forall_mem_nil _
  | cons hfirst _ ih =>
    obtain ⟨hl, hls⟩ := List.forall_mem_cons.mp hlimits
    exact List.forall_mem_cons.mpr ⟨hfirst.isReady hl, ih hls⟩

/-- A statement is built of what its query is compiled to. -/
theorem statement_eq (catalog : Catalog) (table : String) (q : Query) :
    q.statement catalog table = q.compile.run.1 >>= build catalog table := by
  change (ExceptT.run (q.compile >>= fun os => liftM (build catalog table os)) []).1 =
    (ExceptT.run q.compile []).1 >>= build catalog table
  rw [run_sequence]
  rcases ExceptT.run q.compile [] with ⟨f | os, log⟩
  · rfl
  · dsimp only [ok_sequence]
    cases build catalog table os <;> rfl

theorem statement_of_compile {catalog : Catalog} {table : String} {q : Query} {os : List Operation}
    (h : q.compile.run.1 = .ok os) : q.statement catalog table = build catalog table os := by
  rw [statement_eq, h]
  rfl

/-- A query with whole limits that is compiled is refused for a feature that is not supported or for
one of its predicates, and if it is built all of them fit. -/
theorem outcome_of_statement (catalog : Catalog) (table : String) {q : Query}
    {os : List Operation} (hcompile : q.compile.run.1 = .ok os)
    (hlimits : ∀ l ∈ q.levels, l.HasWholeLimit) :
    Probes q.everyPredicate (q.statement catalog table) := by
  have hlevels := compiled_levels hcompile
  have hprobes := Drafting.probes_operations os (LevelPlan.areReady hlevels hlimits)
  have hstart : (Draft.start catalog table []).HasWholeCounts := ⟨.inl rfl, .inl rfl⟩
  rw [statement_of_compile hcompile]
  unfold build
  rcases hrun : (applyOperations os).run (Draft.start catalog table []) with ⟨result, d⟩
  cases result with
  | error f =>
    have hblames := hprobes.error _ f d hstart hrun
    constructor
    · nofun
    · intro g hg
      rw [← Except.error.inj hg]
      exact hblames.mono fun p hp => (LevelPlan.mem_predicatesAt hlevels p).mp hp
  | ok u =>
    obtain ⟨hd, hfits⟩ := hprobes.ok _ u d hstart hrun
    have hstatement := probes_statement hd
    constructor
    · exact fun s _ p hp => hfits p ((LevelPlan.mem_predicatesAt hlevels p).mpr hp)
    · exact fun f hf => (hstatement.error f hf).mono nofun

end RowGate
