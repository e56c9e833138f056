import RowGate.Proofs.Plan.Bodies
import RowGate.Proofs.Sql.Aggregates
/-!
Joiners outside groups. Conditions of a query and of its framed windows may say how they are joined
to those before them, as the members of groups do. Main statement: what is built for them holds
exactly where all of them do, whatever they say; so it holds as they say exactly if none of them but
the first asks for OR, and it holds less often otherwise.
-/
namespace RowGate

open Sql Stateful

/-! ## What joiners say -/

/-- Whether something holds that is joined to conditions behind it, from left to right, each by its
own joiner, by AND without one. -/
def joinedBehind (t : Nat → Bool) (before : Bool) : List Condition → Bool
  | [] => before
  | c :: cs => joinedBehind (after 1 t) ((c.joiner.getD .and).apply before (t 0)) cs

/-- Whether conditions hold that are joined as they say. The first one starts the chain. -/
def joinedAsSaid (t : Nat → Bool) : List Condition → Bool
  | [] => true
  | _ :: cs => joinedBehind (after 1 t) (t 0) cs

/-- No condition asks for OR, the first one aside. -/
def NoAlternative (cs : List Condition) : Prop := ∀ c ∈ cs.tail, c.joiner ≠ some .or

/-- Truth values behind a first one. -/
def startingWith (b : Bool) (u : Nat → Bool) : Nat → Bool
  | 0 => b
  | i + 1 => u i

theorem after_startingWith (b : Bool) (u : Nat → Bool) : after 1 (startingWith b u) = u := by
  funext i
  rw [after, Nat.add_comm 1 i, startingWith]

theorem forall_lt_succ_iff {t : Nat → Bool} {n : Nat} :
    (∀ i < n + 1, t i = true) ↔ t 0 = true ∧ ∀ i < n, after 1 t i = true := by
  simp only [Nat.forall_lt_succ_left, after, Nat.add_comm 1]

theorem chain_conditions (t : Nat → Bool) (b : Bool) (cs : List Condition) :
    chain t .and (some b) (cs.map .condition) = some (joinedBehind t b cs) := by
  induction cs generalizing t b with
  | nil => rfl
  | cons c cs ih => exact ih (after 1 t) ((c.joiner.getD .and).apply b (t 0))

theorem holds_group_eq_joinedAsSaid (t : Nat → Bool) (cs : List Condition) :
    Clause.holds t (.group ⟨.and, cs.map .condition, none⟩) = joinedAsSaid t cs := by
  cases cs with
  | nil => rfl
  | cons c cs =>
    change (chain (after 1 t) .and (some (t 0)) (cs.map .condition)).getD true = _
    rw [chain_conditions]
    rfl

theorem joinedBehind_of_all {t : Nat → Bool} (cs : List Condition)
    (h : ∀ i < cs.length, t i = true) : joinedBehind t true cs = true := by
  induction cs generalizing t with
  | nil => rfl
  | cons c cs ih =>
    obtain ⟨hfirst, hothers⟩ := forall_lt_succ_iff.mp h
    have hboth : (c.joiner.getD .and).apply true (t 0) = true := by
      rw [hfirst]
      cases c.joiner.getD .and <;> rfl
    rw [joinedBehind, hboth]
    exact ih hothers

theorem joinedAsSaid_of_all {t : Nat → Bool} {cs : List Condition}
    (h : ∀ i < cs.length, t i = true) : joinedAsSaid t cs = true := by
  cases cs with
  | nil => rfl
  | cons c cs =>
    obtain ⟨hfirst, hothers⟩ := forall_lt_succ_iff.mp h
    rw [joinedAsSaid, hfirst]
    exact joinedBehind_of_all cs hothers

/-- Without OR, what is joined holds only where all of it does. -/
theorem all_of_joinedBehind {t : Nat → Bool} {b : Bool} {cs : List Condition}
    (hcs : ∀ c ∈ cs, c.joiner ≠ some .or) (h : joinedBehind t b cs = true) :
    b = true ∧ ∀ i < cs.length, t i = true := by
  induction cs generalizing t b with
  | nil => exact ⟨h, nofun⟩
  | cons c cs ih =>
    obtain ⟨hc, hrest⟩ := List.forall_mem_cons.mp hcs
    have hand : c.joiner.getD .and = .and := by
      cases hjoiner : c.joiner with
      | none => rfl
      | some j =>
        cases j with
        | and => rfl
        | or => exact absurd hjoiner hc
    rw [joinedBehind, hand] at h
    obtain ⟨hboth, hothers⟩ := ih hrest h
    obtain ⟨hb, hfirst⟩ := (Bool.and_eq_true _ _).mp hboth
    exact ⟨hb, forall_lt_succ_iff.mpr ⟨hfirst, hothers⟩⟩

/-- With OR, what is joined to something that does not hold may hold. -/
theorem exists_joinedBehind {cs : List Condition} (h : ∃ c ∈ cs, c.joiner = some .or) :
    ∃ t, joinedBehind t false cs = true := by
  induction cs with
  | nil => simp at h
  | cons c cs ih =>
    by_cases hc : c.joiner = some .or
    · refine ⟨fun _ => true, ?_⟩
      rw [joinedBehind, hc]
      exact joinedBehind_of_all cs fun _ _ => rfl
    · obtain ⟨d, hd, hor⟩ := h
      have hrest : ∃ c ∈ cs, c.joiner = some .or := by
        rcases List.mem_cons.mp hd with rfl | hd
        · exact absurd hor hc
        · exact ⟨d, hd, hor⟩
      obtain ⟨u, hu⟩ := ih hrest
      -- the condition itself does not hold, so that the chain is still open behind it
      refine ⟨startingWith false u, ?_⟩
      have hneither : (c.joiner.getD .and).apply false (startingWith false u 0) = false := by
        cases c.joiner.getD .and <;> rfl
      rw [joinedBehind, hneither, after_startingWith]
      exact hu

/-! ## What is built -/

/-- Joined conditions of a statement that hold where all of some conditions do, with a test for each
of them. -/
structure Conjoins (cs : List Condition) (js : List Criterion) : Prop where
  tests : List.Forall₂ (fun c test => conditionTest c = .ok test) cs (Joined.leavesOf js)
  holds : ∀ t, Joined.allHold t js = true ↔ ∀ i < cs.length, t i = true

/-- Conjoined conditions, compared with the conditions as they say: they hold at most where these do,
and exactly where these do if and only if none but the first asks for OR. -/
structure Disregards (cs : List Condition) (js : List Criterion) : Prop extends Conjoins cs js where
  narrower : ∀ t, Joined.allHold t js = true → joinedAsSaid t cs = true
  asSaid : (∀ t, Joined.allHold t js = joinedAsSaid t cs) ↔ NoAlternative cs

section Conjoins

variable {cs : List Condition} {js : List Criterion}

theorem Conjoins.narrower (h : Conjoins cs js) {t : Nat → Bool}
    (ht : Joined.allHold t js = true) : joinedAsSaid t cs = true :=
  joinedAsSaid_of_all ((h.holds t).mp ht)

theorem Conjoins.asSaid_iff (h : Conjoins cs js) :
    (∀ t, Joined.allHold t js = joinedAsSaid t cs) ↔ NoAlternative cs := by
  constructor
  · intro hsame c hc hor
    cases cs with
    | nil => cases hc
    | cons first rest =>
      obtain ⟨u, hu⟩ := exists_joinedBehind ⟨c, hc, hor⟩
      have hsaid : joinedAsSaid (startingWith false u) (first :: rest) = true := by
        rw [joinedAsSaid, after_startingWith]
        exact hu
      have hall := (h.holds _).mp ((hsame _).trans hsaid)
      cases hall 0 (Nat.succ_pos _)
  · intro hnone t
    rw [Bool.eq_iff_iff]
    refine ⟨h.narrower, fun hsaid => (h.holds t).mpr ?_⟩
    cases cs with
    | nil => exact nofun
    | cons first rest => exact forall_lt_succ_iff.mpr (all_of_joinedBehind hnone hsaid)

theorem Conjoins.disregards (h : Conjoins cs js) : Disregards cs js :=
  ⟨h, fun _ => h.narrower, h.asSaid_iff⟩

theorem allHold_singles (t : Nat → Bool) (cs : List Condition) :
    Clause.allHold t (cs.map fun c => .single c.predicate) = true ↔
      ∀ i < cs.length, t i = true := by
  induction cs generalizing t with
  | nil => exact ⟨fun _ => nofun, fun _ => rfl⟩
  | cons c cs ih =>
    have hall : Clause.allHold t ((c :: cs).map fun c => .single c.predicate) =
        (t 0 && Clause.allHold (after 1 t) (cs.map fun c => .single c.predicate)) := rfl
    rw [hall, Bool.and_eq_true, ih, List.length_cons, forall_lt_succ_iff]

/-- Joined conditions that express conditions one by one conjoin them. -/
theorem Expresses.conjoins (h : Expresses (cs.map fun c => .single c.predicate) js) :
    Conjoins cs js := by
  have hpredicates : (cs.map fun c => Clause.single c.predicate).flatMap Clause.predicates =
      cs.map (·.predicate) := by
    rw [List.flatMap_map]
    exact List.map_eq_flatMap.symm
  refine ⟨?_, fun t => ?_⟩
  · have htests := h.tests
    rw [hpredicates, List.forall₂_map_left_iff] at htests
    exact htests
  · rw [h.holds]
    exact allHold_singles t cs

theorem expresses_tests {tests : List Test}
    (h : List.Forall₂ (fun c test => conditionTest c = .ok test) cs tests) :
    Expresses (cs.map fun c => .single c.predicate) (tests.map .one) := by
  induction h with
  | nil => exact expresses_nil
  | @cons c test cs tests hfirst _ ih =>
    have hone : Expresses [.single c.predicate] [.one test] := expresses_single hfirst
    exact hone.append ih

theorem Conjoins.conjunction (h : Conjoins cs js) : Conjoins cs (Joined.conjunction js).toList := by
  match js with
  | [] => exact h
  | [j] => exact h
  | i :: j :: js =>
    have hleaves : Joined.leavesOf (Joined.conjunction (i :: j :: js)).toList =
        Joined.leavesOf (i :: j :: js) :=
      (List.append_nil _).trans Joined.leavesOf_flatMap
    have hholds (t : Nat → Bool) : Joined.allHold t (Joined.conjunction (i :: j :: js)).toList =
        Joined.allHold t (i :: j :: js) :=
      (Bool.and_true _).trans (Joined.allHold_flatMap t)
    exact ⟨hleaves ▸ h.tests, fun t => hholds t ▸ h.holds t⟩

end Conjoins

/-- A framed window in the columns of a body, over the rows that meet all of its conditions. -/
def FramedWindow.IsConjoined (w : FramedWindow) (p : Projection) : Prop :=
  ∃ column, p = .framed column w.label ∧ Disregards w.conditions column.criterion.toList

/-- A body in which the conditions of a query that stand outside groups are conjoined: its own ones,
at their place among the others, and those of its framed windows. -/
structure Query.IsConjoined (q : Query) (b : Body) : Prop where
  conditions : ∃ before behind front own back,
    q.clauses = before ++ q.conditions.map (fun c => .single c.predicate) ++ behind ∧
      b.criteria = front ++ own ++ back ∧
      Expresses before front ∧ Disregards q.conditions own ∧ Expresses behind back
  windows : ∃ rest framed, b.projection = rest ++ framed ∧
    List.Forall₂ FramedWindow.IsConjoined q.framedWindows framed

theorem FramedWindow.Selected.isConjoined {w : FramedWindow} {p : Projection} (h : w.Selected p) :
    w.IsConjoined p := by
  obtain ⟨column, hcolumn, rfl⟩ := h
  rw [windowColumn_eq] at hcolumn
  simp only [sequence_eq_ok, pure_answers] at hcolumn
  obtain ⟨_, -, _, -, tests, htests, _, -, _, -, _, -, rfl⟩ := hcolumn
  exact ⟨_, rfl, (expresses_tests (mapM_eq_ok_iff.mp htests)).conjoins.conjunction.disregards⟩

/-- Operations that are applied add joined conditions that express their own, behind those that are
there. -/
theorem expresses_operations {os : List Operation} {d d' : Draft}
    (h : (applyOperations os).run d = (.ok (), d')) :
    ∃ js, d'.criteria = d.criteria ++ js ∧ Expresses (os.flatMap Operation.clauses) js :=
  gains_operations os d.criteria d () d' rfl h

/-- The stages before that of the conditions of a query outside groups, and those behind it. -/
def stagesBefore : List Stage :=
  [.ctes, .recursiveCtes, .windows, .advancedWindows, .filter, .rawExpressions, .aggregates]

/-- The stages behind that of the conditions of a query outside groups. -/
def stagesBehind : List Stage :=
  [.whereBetween, .whereNull, .whereIn, .whereExists, .whereGroups, .groupBy, .having, .orderBy,
    .limit, .offset]

/-- The operations for a query are those before its conditions outside groups, one for each of these,
and those behind; so are the conditions that they add. -/
theorem LevelPlan.split_conditions {q : Query} {os : List Operation} (h : LevelPlan q os) :
    ∃ front back before behind,
      os = front ++ q.conditions.map (fun c => .condition c.field c.operator c.value) ++ back ∧
        q.clauses = before ++ q.conditions.map (fun c => .single c.predicate) ++ behind ∧
        front.flatMap Operation.clauses = before ∧
        Same (back.flatMap Operation.clauses) behind := by
  obtain ⟨tables, clauses, rfl, htables, hclauses⟩ := h.split
  obtain ⟨windows, hwindows, rfl⟩ := compileClauses_eq_ok hclauses
  have hnone : tables.flatMap Operation.clauses = [] := clauses_tables htables
  have hstages : Stage.all = stagesBefore ++ [.whereRaw] ++ stagesBehind := rfl
  refine ⟨tables ++ stagesBefore.flatMap (q.planned [] [] windows),
    stagesBehind.flatMap (q.planned [] [] windows), stagesBefore.flatMap q.clausesAt,
    [Stage.whereBetween, .whereNull, .whereIn, .whereExists].flatMap q.clausesAt ++
      q.groups.map .group, ?_, ?_, ?_, ?_⟩
  · rw [hstages, List.flatMap_append, List.flatMap_append, List.flatMap_singleton]
    simp only [Query.planned, List.append_assoc]
  · simp only [Query.clauses, stagesBefore, List.flatMap_cons, List.flatMap_nil, Query.clausesAt,
      List.nil_append, List.append_nil, List.append_assoc]
  · rw [List.flatMap_append, hnone, List.nil_append, clauses_stages hwindows]
  · rw [clauses_stages hwindows]
    simp only [stagesBehind, Query.clausesAt, List.flatMap_cons, List.flatMap_nil, List.append_nil,
      List.append_assoc]
    refine Same.append (.of_eq rfl) (Same.append (.of_eq rfl) (Same.append (.of_eq rfl) ?_))
    refine Same.append (.of_eq rfl) (Same.append (.of_eq rfl) (Same.append (.of_eq rfl) ?_))
    exact clauses_groups q.groups

/-- A body drafted from the operations for a query conjoins the conditions of the query. -/
theorem LevelPlan.conditions {q : Query} {os : List Operation} (h : LevelPlan q os)
    {listed : List String} {b : Body} (hb : Drafted listed os b) :
    ∃ before behind front own back,
      q.clauses = before ++ q.conditions.map (fun c => .single c.predicate) ++ behind ∧
        b.criteria = front ++ own ++ back ∧
        Expresses before front ∧ Disregards q.conditions own ∧ Expresses behind back := by
  obtain ⟨d, d', s, hblank, -, hrun, hs, rfl⟩ := hb
  obtain ⟨os₁, os₂, before, behind, rfl, hclauses, hbefore, hbehind⟩ := h.split_conditions
  rw [Drafting.applyOperations_append, Drafting.applyOperations_append] at hrun
  obtain ⟨_, d₂, hrun, hrun₂⟩ := run_sequence_ok hrun
  obtain ⟨_, d₁, hrun₁, hrunOwn⟩ := run_sequence_ok hrun
  obtain ⟨front, hfront, hfrontSays⟩ := expresses_operations hrun₁
  obtain ⟨own, hown, hownSays⟩ := expresses_operations hrunOwn
  obtain ⟨back, hback, hbackSays⟩ := expresses_operations hrun₂
  rw [clauses_map q.conditions fun _ => rfl] at hownSays
  refine ⟨before, behind, front, own, back, hclauses, ?_, hbefore ▸ hfrontSays,
    hownSays.conjoins.disregards, hbackSays.of_same hbehind⟩
  rw [Draft.statement_criteria hs, hback, hown, hfront, hblank.criteria, List.nil_append]

/-- In a statement the conditions that stand outside groups are conjoined, those of the query, of its
framed windows and of the queries inside it: whatever joiners they name, they hold together at most
where they hold as they say, and exactly there if and only if none but the first asks for OR. -/
theorem joiners_outside_groups_disregarded {catalog : Catalog} {table : String} {q : Query}
    {s : Select} (hs : q.statement catalog table = .ok s) :
    List.Forall₂ Query.IsConjoined q.levels s.bodies := by
  have hcompiled := hs
  rw [statement_eq] at hcompiled
  obtain ⟨os, hcompile, -⟩ := sequence_eq_ok.mp hcompiled
  apply (drafted_of_statement hcompile hs).imp
  rintro l b ⟨os, hlevel, listed, hdrafted⟩
  obtain ⟨front, aggregates, plain, framed, -, -, -, hframed, hprojection⟩ :=
    (hlevel.selects hdrafted).projection
  refine ⟨hlevel.conditions hdrafted, front ++ aggregates ++ plain, framed, ?_, ?_⟩
  · rw [hprojection, ← List.append_assoc]
  · exact hframed.imp fun _ _ => FramedWindow.Selected.isConjoined

/-- Posts that are liked or pinned, and their number; each list of conditions asks for OR. -/
def likedOrPinned : Query :=
  let either : List Condition :=
    [⟨"likes", "=", .int 1, none⟩, ⟨"pinned", "=", .int 2, some .or⟩]
  { Query.empty none with
    conditions := either
    framedWindows := [⟨"count", "total", none, [], [], none, either⟩] }

theorem liked_and_pinned_conjoined : ∃ s, likedOrPinned.statement [] "posts" = .ok s ∧
    List.Forall₂ Query.IsConjoined likedOrPinned.levels s.bodies := by
  have hbuilt : ∃ s, likedOrPinned.statement [] "posts" = .ok s := ⟨_, rfl⟩
  obtain ⟨s, hs⟩ := hbuilt
  exact ⟨s, hs, joiners_outside_groups_disregarded hs⟩

theorem alternative_lost : ∃ s column, likedOrPinned.statement [] "posts" = .ok s ∧
    s.body.projection = [.column (.verbatim "*"), .framed column "total"] ∧
    joinedAsSaid (fun i => i == 0) likedOrPinned.conditions = true ∧
    Joined.allHold (fun i => i == 0) s.body.criteria = false ∧
    Joined.allHold (fun i => i == 0) column.criterion.toList = false :=
  ⟨_, _, rfl, rfl, rfl, rfl, rfl⟩

end RowGate
