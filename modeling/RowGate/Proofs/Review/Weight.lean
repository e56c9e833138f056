import RowGate.Proofs.Number.Exact
import RowGate.Proofs.Plan.Bodies
import RowGate.Review.Limits
/-!
The complexity of a query as a weight of the plan for it. Main statement: the complexity is the sum
of the weights of the operations of the plan, does not depend on the order of clauses, and does not
go down if clauses or members of groups are added.
-/
namespace RowGate

/-! ## Plans -/

theorem membersSize_append (ms ns : List GroupMember) :
    membersSize (ms ++ ns) = membersSize ms + membersSize ns := by
  induction ms with
  | nil => rw [List.nil_append, membersSize, Nat.zero_add]
  | cons m ms ih => rw [List.cons_append, membersSize, membersSize, ih, Nat.add_assoc]

/-- A number that stays the same, or grows if something is added. -/
def Grows (adding : Prop) (m n : Nat) : Prop := m ≤ n ∧ (¬ adding → m = n)

section Growth

variable {adding : Prop}

theorem Grows.refl (n : Nat) : Grows adding n n := ⟨le_rfl, fun _ => rfl⟩

theorem Grows.trans {l m n : Nat} (h : Grows adding l m) (h' : Grows adding m n) :
    Grows adding l n := ⟨h.1.trans h'.1, fun hnone => (h.2 hnone).trans (h'.2 hnone)⟩

theorem Grows.add {k l m n : Nat} (h : Grows adding k l) (h' : Grows adding m n) :
    Grows adding (k + m) (l + n) :=
  ⟨Nat.add_le_add h.1 h'.1, fun hnone => congrArg₂ (· + ·) (h.2 hnone) (h'.2 hnone)⟩

theorem Grows.mul {m n : Nat} (k : Nat) (h : Grows adding m n) : Grows adding (k * m) (k * n) :=
  ⟨Nat.mul_le_mul_left k h.1, fun hnone => congrArg (k * ·) (h.2 hnone)⟩

/-- Items in any order, with further ones among them if something is added. -/
def Placed {α : Type} (adding : Prop) (as bs : List α) : Prop :=
  ∃ more, bs.Perm (as ++ more) ∧ (more ≠ [] → adding)

/-- Members of a group in any order, at all depths, with further ones among them if something is
added. -/
inductive MembersPlaced (adding : Prop) : List GroupMember → List GroupMember → Prop
  | nil : MembersPlaced adding [] []
  | condition (c : Condition) {ms ns : List GroupMember} (h : MembersPlaced adding ms ns) :
      MembersPlaced adding (.condition c :: ms) (.condition c :: ns)
  | group (connective : Connective) (joiner : Option Connective) {ms ns os ps : List GroupMember}
      (hinner : MembersPlaced adding ms ns) (hrest : MembersPlaced adding os ps) :
      MembersPlaced adding (.group connective ms joiner :: os) (.group connective ns joiner :: ps)
  | swap (m n : GroupMember) (ms : List GroupMember) :
      MembersPlaced adding (m :: n :: ms) (n :: m :: ms)
  | trans {ms ns os : List GroupMember} (h : MembersPlaced adding ms ns)
      (h' : MembersPlaced adding ns os) : MembersPlaced adding ms os
  | more (m : GroupMember) (ms : List GroupMember) (h : adding) : MembersPlaced adding ms (m :: ms)

theorem MembersPlaced.grows {ms ns : List GroupMember} (h : MembersPlaced adding ms ns) :
    Grows adding (membersSize ms) (membersSize ns) := by
  induction h with
  | nil => exact .refl _
  | condition c h ih => exact (Grows.refl _).add ih
  | group connective joiner hinner hrest ihinner ihrest =>
    exact ((Grows.refl 1).add ihinner).add ihrest
  | swap m n ms =>
    simp only [membersSize]
    rw [Nat.add_left_comm]
    exact .refl _
  | trans h h' ih ih' => exact ih.trans ih'
  | more m ms h =>
    refine ⟨Nat.le_add_left _ _, fun hnone => absurd h hnone⟩

theorem Placed.grows {α : Type} {as bs : List α} (h : Placed adding as bs) (f : α → Nat) :
    Grows adding (as.map f).sum (bs.map f).sum := by
  obtain ⟨more, hperm, hmore⟩ := h
  rw [(hperm.map f).sum_eq, List.map_append, List.sum_append]
  refine ⟨Nat.le_add_right _ _, fun hnone => ?_⟩
  have hno : more = [] := by
    by_contra hne
    exact hnone (hmore hne)
  rw [hno]
  rfl

/-- A query with the clauses of another one in any order, with further ones among them if something
is added; clauses without a weight may be any. -/
structure Query.Placed (adding : Prop) (q r : Query) : Prop where
  conditions : RowGate.Placed adding q.conditions r.conditions
  ranges : RowGate.Placed adding q.ranges r.ranges
  isIn : RowGate.Placed adding q.isIn r.isIn
  exists_ : RowGate.Placed adding q.exists_ r.exists_
  groups : ∃ gs, List.Forall₂ (fun g g' => MembersPlaced adding g.members g'.members) q.groups gs ∧
    RowGate.Placed adding gs r.groups
  groupBy : RowGate.Placed adding q.groupBy r.groupBy
  having : RowGate.Placed adding q.having r.having
  windows : RowGate.Placed adding q.windows r.windows

theorem Placed.length {α : Type} {as bs : List α} (h : RowGate.Placed adding as bs) :
    Grows adding as.length bs.length := by
  have hones (cs : List α) : (cs.map fun _ => 1).sum = cs.length := by simp
  rw [← hones as, ← hones bs]
  exact h.grows _

theorem membersSize_flatMap (gs : List Group) : membersSize (gs.flatMap (·.members)) =
    (gs.map fun g => membersSize g.members).sum := by
  induction gs with
  | nil => rfl
  | cons g gs ih => rw [List.flatMap_cons, membersSize_append, ih, List.map_cons, List.sum_cons]

theorem groups_grow {gs hs : List Group}
    (h : List.Forall₂ (fun g g' => MembersPlaced adding g.members g'.members) gs hs) :
    Grows adding (gs.map fun g => membersSize g.members).sum
      (hs.map fun g => membersSize g.members).sum := by
  induction h with
  | nil => exact .refl _
  | cons hg _ ih =>
    rw [List.map_cons, List.sum_cons, List.map_cons, List.sum_cons]
    exact hg.grows.add ih

theorem groupBy_grows {as bs : List String} (h : RowGate.Placed adding as bs) :
    Grows adding (if as.isEmpty then 0 else 4) (if bs.isEmpty then 0 else 4) := by
  cases as with
  | nil =>
    refine ⟨Nat.zero_le _, fun hnone => ?_⟩
    have hbs : bs = [] := List.length_eq_zero_iff.mp (h.length.2 hnone).symm
    rw [hbs]
  | cons a as =>
    cases bs with
    | nil => exact absurd h.length.1 (Nat.not_succ_le_zero _)
    | cons b bs => exact .refl _

theorem Query.Placed.grows {q r : Query} (h : q.Placed adding r) :
    Grows adding q.halves r.halves := by
  obtain ⟨gs, hgroups, hplaced⟩ := h.groups
  have hmembers : Grows adding (membersSize (q.groups.flatMap (·.members)))
      (membersSize (r.groups.flatMap (·.members))) := by
    rw [membersSize_flatMap, membersSize_flatMap]
    exact (groups_grow hgroups).trans (hplaced.grows _)
  unfold Query.halves
  refine Grows.add (Grows.add (Grows.add (Grows.add (Grows.add (Grows.add (Grows.add ?_ ?_) ?_) ?_)
    ?_) ?_) ?_) (hmembers.mul 3)
  · exact h.conditions.length.mul 2
  · exact h.ranges.length.mul 3
  · exact h.isIn.length.mul 4
  · exact h.exists_.length.mul 6
  · exact groupBy_grows h.groupBy
  · exact h.having.length.mul 4
  · exact h.windows.length.mul 6

end Growth

end RowGate
