import RowGate.Proofs.Query.Written
import RowGate.Proofs.Text.Case
import RowGate.Proofs.Value.Texts
/-!
Queries read back from the maps that they are written as. What is read is settled: reading folds the
case of operators and names of kinds, and does nothing to them a second time. Main statement: a query
is read back from its map, and written as that map again, exactly if it and the queries inside it
have no transforms that writing loses.
-/
namespace RowGate

open Read

namespace Read

/-! ## Reading what was written -/

variable {α β : Type} {r : Record} {key : String}

@[simp] theorem list_listOf (xs : List α) (f : α → Value) (place : String) :
    list ((Record.listOf xs f).getD .null) place = .ok (xs.map f) := by
  cases xs <;> rfl

@[simp] theorem texts_listOf (xs : List String) (place : String) :
    texts ((Record.listOf xs .text).getD .null) place = .ok xs := by
  rw [texts, list_listOf, ok_sequence, Value.map_plain_text]
  rfl

@[simp] theorem textOrNone_map (o : Option String) : textOrNone ((o.map .text).getD .null) = o := by
  cases o <;> rfl

@[simp] theorem joining_map (o : Option Connective) (place : String) :
    joining (((o.map (·.name)).map .text).getD .null) place = .ok o := by
  cases o with
  | none => rfl
  | some c => cases c <;> rfl

@[simp] theorem texts_texts (xs : List String) (place : String) :
    texts (Value.texts xs) place = .ok xs := by
  cases xs with
  | nil => rfl
  | cons x xs => exact texts_listOf (x :: xs) place

/-- A value that is there, unless it is null. -/
theorem required_of_get {v : Value} (hnull : v.isNull = false) {place : String}
    (h : r.get? key = some v) : required r key place = .ok v := by
  rw [required, Record.get_eq, h]
  cases v with
  | null => cases hnull
  | _ => rfl

theorem required_text {s place : String} (h : r.get? key = some (.text s)) :
    required r key place = .ok (.text s) := required_of_get rfl h

@[simp] theorem object_map (fields : Record) (place : String) :
    object (.map fields) place = .ok fields := rfl

/-- What is written if it is there, and is true then. -/
theorem unlessFalse_map {read : Value → Reading β} {f : β → Value} {o : Option β}
    (h : ∀ x ∈ o, (f x).truthy = true ∧ read (f x) = .ok x) :
    unlessFalse ((o.map f).getD .null) read = .ok o := by
  cases o with
  | none => rfl
  | some x =>
    obtain ⟨htruthy, hread⟩ := h x rfl
    change unlessFalse (f x) read = _
    rw [unlessFalse, if_pos htruthy, hread]
    rfl

/-- A record that is written unless it is empty. -/
theorem object_written (fields : Record) (place : String) :
    object (orEmpty ((if fields = [] then none else some (.map fields)).getD .null)) place =
      .ok fields := by
  cases fields <;> rfl

theorem textOr_text {s : String} (h : s ≠ "") (other : String) : textOr (.text s) other = s := by
  have htruthy : (Value.text s).truthy = true := by simpa [Value.truthy] using h
  rw [textOr, if_pos htruthy]
  rfl

theorem eachAt_map {read : Nat → Value → Reading β} {f : β → Value} {xs : List β}
    (h : ∀ x ∈ xs, ∀ i, read i (f x) = .ok x) (i : Nat) : eachAt read i (xs.map f) = .ok xs := by
  induction xs generalizing i with
  | nil => rfl
  | cons x xs ih =>
    rw [List.map_cons, eachAt, h x List.mem_cons_self, ok_sequence,
      ih fun y hy => h y (List.mem_cons_of_mem x hy)]
    rfl

theorem items_written {read : Value → String → Reading β} {f : β → Value} {xs : List β}
    (hkey : r.get? key = Record.listOf xs f) (h : ∀ x ∈ xs, ∀ place, read (f x) place = .ok x) :
    items r key read = .ok xs := by
  rw [items, Record.get_eq, hkey, list_listOf]
  exact eachAt_map (fun x hx i => h x hx _) 0

theorem mapM_written {read : Value → Reading β} {f : β → Value} {xs : List β}
    (h : ∀ x ∈ xs, read (f x) = .ok x) : (xs.map f).mapM read = .ok xs := by
  induction xs with
  | nil => rfl
  | cons x xs ih =>
    rw [List.map_cons, List.mapM_cons, h x List.mem_cons_self, ok_sequence,
      ih fun y hy => h y (List.mem_cons_of_mem x hy)]
    rfl

end Read

/-! ## Records -/

/-- A text in lower case that is not empty. -/
def Text.IsFolded (s : String) : Prop := s ≠ "" ∧ lower s = s

theorem Text.isFolded_textOr (v : Value) {other : String} (h : other ≠ "") :
    IsFolded (lower (textOr v other)) := by
  refine ⟨lower_ne_empty ?_, lower_lower _⟩
  unfold textOr
  split
  · exact Value.plain_ne_empty ‹_›
  · exact h

/-- Reading changes nothing about an ordering term. -/
def OrderTerm.IsSettled (o : OrderTerm) : Prop :=
  Text.IsFolded o.direction ∧ ∀ s ∈ o.nulls, Text.lower s = s

theorem OrderTerm.isSettled {v : Value} {place : String} {o : OrderTerm}
    (h : OrderTerm.read v place = .ok o) : o.IsSettled := by
  simp only [OrderTerm.read, sequence_eq_ok, pure_answers] at h
  obtain ⟨r, -, field, -, rfl⟩ := h
  refine ⟨Text.isFolded_textOr _ (by decide), fun s hs => ?_⟩
  obtain ⟨t, -, rfl⟩ := Option.map_eq_some_iff.mp hs
  exact Text.lower_lower t

theorem Read.map_lower {o : Option String} (h : ∀ s ∈ o, Text.lower s = s) :
    o.map Text.lower = o := by
  cases o with
  | none => rfl
  | some s => exact congrArg some (h s rfl)

theorem OrderTerm.read_toValue {o : OrderTerm} (h : o.IsSettled) (place : String) :
    OrderTerm.read o.toValue place = .ok o := by
  obtain ⟨⟨hdirection, hlower⟩, hnulls⟩ := h
  simp [toValue, OrderTerm.read, required, Record.get_eq,
    textOr_text hdirection, hlower, map_lower hnulls]

/-- Reading changes nothing about a condition. -/
def Condition.IsSettled (c : Condition) : Prop := Text.IsFolded c.operator

theorem Condition.isSettled {v : Value} {place : String} {c : Condition}
    (h : Condition.read v place = .ok c) : c.IsSettled := by
  simp only [Condition.read, sequence_eq_ok, pure_answers] at h
  obtain ⟨r, -, field, -, joiner, -, rfl⟩ := h
  exact Text.isFolded_textOr _ (by decide)

theorem Condition.read_toValue {c : Condition} (h : c.IsSettled) (place : String) :
    Condition.read c.toValue place = .ok c := by
  obtain ⟨hoperator, hlower⟩ := h
  simp [toValue, Condition.read, required, Record.get_eq,
    textOr_text hoperator, hlower, -Option.map_map]

theorem Range.read_toValue (r : Range) (place : String) : Range.read r.toValue place = .ok r := by
  simp [toValue, Range.read, required, Record.get_eq, list]

theorem Fragment.read_toValue (f : Fragment) (place : String) :
    Fragment.read f.toValue place = .ok f := by
  simp [toValue, Fragment.read, required, Record.get_eq, list]

mutual

/-- Reading changes nothing about a member of a group. -/
def GroupMember.IsSettled : GroupMember → Prop
  | .condition c => c.IsSettled
  | .group _ members _ => MembersSettled members

/-- Reading changes nothing about the members of a group. -/
def MembersSettled : List GroupMember → Prop
  | [] => True
  | m :: ms => m.IsSettled ∧ MembersSettled ms

end

section

variable (connective : Connective) (members : List Value) (joiner : Option Connective)

/-- The fields of a group. -/
def groupFields : Record :=
  [("type", .text connective.name), ("clauses", .list members)] ++
    Write.textField "boolean" (joiner.map (·.name))

theorem joining_type (place : String) :
    joining ((groupFields connective members joiner).get "type") place = .ok (some connective) := by
  have htype : (groupFields connective members joiner).get "type" = .text connective.name := by
    simp [groupFields, Record.get_eq]
  rw [htype]
  exact joining_map (some connective) place

theorem joining_boolean (place : String) :
    joining ((groupFields connective members joiner).get "boolean") place = .ok joiner := by
  simp [groupFields, Record.get_eq, -Option.map_map]

theorem clauses_groupFields :
    (groupFields connective members joiner).get? "clauses" = some (.list members) := by
  simp [groupFields]

end

mutual

theorem GroupMember.read_toValue (place : String) (m : GroupMember) (h : m.IsSettled) :
    GroupMember.read place m.toValue = .ok m := by
  match m with
  | .condition c =>
    obtain ⟨fields, hfields, hclauses⟩ : ∃ fields : Record, c.toValue = .map fields ∧
        fields.lookup "clauses" = none := ⟨_, rfl, by change Record.get? _ _ = _; simp⟩
    rw [GroupMember.toValue, hfields, GroupMember.read, hclauses, ← hfields, Condition.read_toValue h]
    rfl
  | .group connective members joiner =>
    have hmembers : membersUnder place
        (groupFields connective (membersToValues members) joiner) = .ok members := by
      rw [membersUnder_eq, Record.get_eq, clauses_groupFields]
      exact membersAt_toValues place members h 0
    have hclauses : (groupFields connective (membersToValues members) joiner).lookup "clauses" =
        some (.list (membersToValues members)) := clauses_groupFields _ _ _
    change GroupMember.read place
      (.map (groupFields connective (membersToValues members) joiner)) = _
    rw [GroupMember.read, hclauses, hmembers, joining_type, joining_boolean]
    rfl

theorem membersAt_toValues (place : String) (ms : List GroupMember) (h : MembersSettled ms)
    (i : Nat) : membersAt place i (membersToValues ms) = .ok ms := by
  match ms with
  | [] => rfl
  | m :: ms =>
    rw [membersToValues, membersAt, GroupMember.read_toValue _ m h.1, ok_sequence,
      membersAt_toValues place ms h.2]
    rfl

end

/-- Reading changes nothing about a group. -/
def Group.IsSettled (g : Group) : Prop := MembersSettled g.members

theorem Group.read_toValue {g : Group} (h : g.IsSettled) (place : String) :
    Group.read g.toValue place = .ok g := by
  change Group.read (.map (groupFields g.connective (membersToValues g.members) g.joiner)) place = _
  rw [Group.read, object_map, ok_sequence, membersUnder_eq, Record.get_eq, clauses_groupFields,
    joining_type, joining_boolean]
  change (membersAt place 0 (membersToValues g.members) >>= _) = _
  rw [membersAt_toValues place g.members h]
  rfl

theorem membersSettled_iff {ms : List GroupMember} :
    MembersSettled ms ↔ ∀ m ∈ ms, m.IsSettled := by
  induction ms with
  | nil => exact iff_of_true trivial (List.forall_mem_nil _)
  | cons m ms ih => rw [MembersSettled, ih, List.forall_mem_cons]

theorem Group.isSettled {v : Value} {place : String} {g : Group}
    (h : Group.read v place = .ok g) : g.IsSettled := by
  simp only [Group.read, membersUnder_eq, sequence_eq_ok, pure_answers] at h
  obtain ⟨r, -, members, hmembers, own, -, joiner, -, rfl⟩ := h
  refine membersSettled_iff.mpr ((members_hold (W := fun _ => True) (fun _ _ _ _ => trivial)
    (fun _ _ _ _ => Condition.isSettled) (fun _ _ _ => membersSettled_iff.mpr) _ trivial).2 place
      members hmembers)

theorem HavingTerm.isSettled {v : Value} {place : String} {t : HavingTerm}
    (h : HavingTerm.read v place = .ok t) : Text.IsFolded t.operator := by
  simp only [HavingTerm.read, sequence_eq_ok, pure_answers] at h
  obtain ⟨r, -, field, -, rfl⟩ := h
  exact Text.isFolded_textOr _ (by decide)

theorem HavingTerm.read_toValue {t : HavingTerm} (h : Text.IsFolded t.operator) (place : String) :
    HavingTerm.read t.toValue place = .ok t := by
  obtain ⟨hoperator, hlower⟩ := h
  simp [toValue, HavingTerm.read, required, Record.get_eq,
    textOr_text hoperator, hlower]

theorem Aggregate.read_toValue {a : Aggregate} (h : Text.lower a.type = a.type) (place : String) :
    Aggregate.read a.toValue place = .ok a := by
  simp [toValue, Aggregate.read, required, Record.get_eq, h]

theorem Aggregate.isSettled {v : Value} {place : String} {a : Aggregate}
    (h : Aggregate.read v place = .ok a) : Text.lower a.type = a.type := by
  simp only [Aggregate.read, sequence_eq_ok, pure_answers] at h
  obtain ⟨r, -, type, -, field, -, rfl⟩ := h
  exact Text.lower_lower _

/-- Reading changes nothing about a window column. -/
def Window.IsSettled (w : Window) : Prop :=
  Text.lower w.type = w.type ∧ (∀ o ∈ w.orderBy, o.IsSettled) ∧ ∀ s ∈ w.frame, s ≠ ""

theorem Window.isSettled {v : Value} {place : String} {w : Window}
    (h : Window.read v place = .ok w) : w.IsSettled := by
  simp only [Window.read, sequence_eq_ok, pure_answers] at h
  obtain ⟨r, -, type, -, label, -, partition, -, terms, -, order, horder, rfl⟩ := h
  refine ⟨Text.lower_lower _, forall_of_mapM horder fun _ _ _ => OrderTerm.isSettled, fun s hs => ?_⟩
  dsimp only at hs
  split at hs
  · rw [← Option.some.inj hs]
    exact Value.plain_ne_empty ‹_›
  · cases hs

/-- A text that is written unless it is empty. -/
theorem frame_written {frame : Option String} (h : ∀ s ∈ frame, s ≠ "") :
    (if ((frame.map Value.text).getD .null).truthy then
      some ((frame.map Value.text).getD .null).plain else none) = frame := by
  cases frame with
  | none => rfl
  | some s =>
    have htruthy : (Value.text s).truthy = true := by simpa [Value.truthy] using h s rfl
    exact if_pos htruthy

theorem Window.read_toValue {w : Window} (h : w.IsSettled) (place : String) :
    Window.read w.toValue place = .ok w := by
  obtain ⟨htype, horder, hframe⟩ := h
  have horder' : (w.orderBy.map OrderTerm.toValue).mapM
      (OrderTerm.read · (place ++ ".orderBy")) = .ok w.orderBy :=
    mapM_written fun o ho => OrderTerm.read_toValue (horder o ho) _
  simp [toValue, Window.read, required, Record.get_eq, htype, horder', frame_written hframe]

/-- Reading changes nothing about the end of a frame. -/
def FrameBound.IsSettled : FrameBound → Prop
  | .offset _ => True
  | .named s => Text.upper s = s

theorem FrameBound.isSettled_read (v : Value) : (FrameBound.read v).IsSettled := by
  unfold FrameBound.read
  split
  · exact Text.upper_upper _
  · cases integer? v with
    | none => exact Text.upper_upper _
    | some n => trivial

theorem FrameBound.read_toValue {b : FrameBound} (h : b.IsSettled) :
    FrameBound.read b.toValue = b := by
  cases b with
  | offset n => rfl
  | named s => exact congrArg FrameBound.named h

/-- Reading changes nothing about a frame. -/
def Frame.IsSettled (f : Frame) : Prop :=
  Text.upper f.type = f.type ∧ f.start.IsSettled ∧ ∀ b ∈ f.stop, b.IsSettled

theorem Frame.isSettled {v : Value} {place : String} {f : Frame}
    (h : Frame.read v place = .ok f) : f.IsSettled := by
  simp only [Frame.read, sequence_eq_ok, pure_answers] at h
  obtain ⟨r, -, type, -, start, -, rfl⟩ := h
  refine ⟨Text.upper_upper _, FrameBound.isSettled_read _, fun b hb => ?_⟩
  obtain ⟨v, -, rfl⟩ := Option.map_eq_some_iff.mp hb
  exact FrameBound.isSettled_read v

theorem Frame.read_toValue {f : Frame} (h : f.IsSettled) (place : String) :
    Frame.read f.toValue place = .ok f := by
  obtain ⟨type, start, stop⟩ := f
  obtain ⟨htype, hstart, hstop⟩ := h
  have hstart' := FrameBound.read_toValue hstart
  have hstop' : ((stop.map FrameBound.toValue).getD .null).toOption.map FrameBound.read = stop := by
    cases stop with
    | none => rfl
    | some b =>
      have hb := FrameBound.read_toValue (hstop b rfl)
      cases b <;> exact congrArg some hb
  dsimp only at htype hstart'
  cases start <;> simpa [toValue, FrameBound.toValue.eq_1, FrameBound.toValue.eq_2, Frame.read, required, Record.get_eq, htype,
    hstop'] using hstart'

/-- Reading changes nothing about a window column with a frame by its ends. -/
def FramedWindow.IsSettled (w : FramedWindow) : Prop :=
  Text.lower w.type = w.type ∧ (∀ o ∈ w.orderBy, o.IsSettled) ∧ (∀ f ∈ w.frame, f.IsSettled) ∧
    ∀ c ∈ w.conditions, c.IsSettled

theorem FramedWindow.isSettled {v : Value} {place : String} {w : FramedWindow}
    (h : FramedWindow.read v place = .ok w) : w.IsSettled := by
  simp only [FramedWindow.read, sequence_eq_ok, pure_answers] at h
  obtain ⟨r, -, clause, -, type, -, label, -, partition, -, terms, -, order, horder, frame, hframe,
    filter, -, conditions, hconditions, rfl⟩ := h
  exact ⟨Text.lower_lower _, forall_of_mapM horder fun _ _ _ => OrderTerm.isSettled,
    fun f hf => Frame.isSettled (read_of_unlessFalse hframe f hf),
    forall_of_mapM hconditions fun _ _ _ => Condition.isSettled⟩

/-- What describes the window, as it is written. -/
def FramedWindow.clause (w : FramedWindow) : Record :=
  Write.textsField "partitionBy" w.partitionBy ++
    Write.listField "orderBy" w.orderBy OrderTerm.toValue ++
    (w.frame.map fun f => ("frame", f.toValue)).toList

theorem FramedWindow.read_toValue {w : FramedWindow} (h : w.IsSettled) (place : String) :
    FramedWindow.read w.toValue place = .ok w := by
  obtain ⟨htype, horder, hframe, hconditions⟩ := h
  have horder' : (w.orderBy.map OrderTerm.toValue).mapM
      (OrderTerm.read · (place ++ ".orderBy")) = .ok w.orderBy :=
    mapM_written fun o ho => OrderTerm.read_toValue (horder o ho) _
  have hconditions' : (w.conditions.map Condition.toValue).mapM
      (Condition.read · (place ++ ".filter")) = .ok w.conditions :=
    mapM_written fun c hc => Condition.read_toValue (hconditions c hc) _
  have hvalue : w.toValue = .map ([("type", .text w.type), ("alias", .text w.label)] ++
    Write.textField "field" w.field ++ Write.entry (!w.clause.isEmpty) "over" (.map w.clause) ++
    Write.listField "filter" w.conditions Condition.toValue) := rfl
  have hpartition : w.clause.get? "partitionBy" = Record.listOf w.partitionBy .text := by
    simp [clause]
  have hterms : w.clause.get? "orderBy" = Record.listOf w.orderBy OrderTerm.toValue := by
    simp [clause]
  have hframe' : w.clause.get? "frame" = w.frame.map Frame.toValue := by
    simp [clause]
  rw [hvalue]
  have hframe'' : unlessFalse ((w.frame.map Frame.toValue).getD .null)
      (Frame.read · (place ++ ".frame")) = .ok w.frame :=
    unlessFalse_map fun f hf => ⟨rfl, Frame.read_toValue (hframe f hf) _⟩
  simp [FramedWindow.read, Record.get_eq, htype, horder', hconditions', object_written,
    required_text, hpartition, hterms, hframe', hframe'']

/-- Reading changes nothing about a pivot. -/
def Pivot.IsSettled (p : Pivot) : Prop := Text.lower p.aggregate.type = p.aggregate.type

theorem Pivot.isSettled {v : Value} {place : String} {p : Pivot}
    (h : Pivot.read v place = .ok p) : p.IsSettled := by
  simp only [Pivot.read, sequence_eq_ok, pure_answers] at h
  obtain ⟨r, -, column, -, values, -, v, -, aggregate, haggregate, rfl⟩ := h
  exact Aggregate.isSettled haggregate

theorem Pivot.read_toValue {p : Pivot} (h : p.IsSettled) (place : String) :
    Pivot.read p.toValue place = .ok p := by
  have haggregate := Aggregate.read_toValue h place
  obtain ⟨fields, hfields⟩ : ∃ fields, p.aggregate.toValue = .map fields := ⟨_, rfl⟩
  rw [hfields] at haggregate
  simp [toValue, Pivot.read, required, Record.get_eq, hfields, haggregate]

/-! ## Transforms -/

/-- Reading changes nothing about transforms. -/
def Transforms.IsSettled (t : Transforms) : Prop := ∀ p ∈ t.pivot, p.IsSettled

/-- Transforms that writing keeps: there are some, and none of them is computed. -/
def Transforms.IsKept (t : Transforms) : Prop :=
  t.compute = [] ∧ ¬ (t.groupBy = [] ∧ t.pivot = none ∧ t.flatten = false ∧ t.select = [])

theorem Transforms.isSettled {v : Value} {place : String} {t : Transforms}
    (h : Transforms.read v place = .ok t) : t.IsSettled := by
  simp only [Transforms.read, sequence_eq_ok, pure_answers] at h
  obtain ⟨r, -, groupBy, -, pivot, hpivot, select, -, compute, -, rfl⟩ := h
  intro p hp
  exact Pivot.isSettled (read_of_unlessFalse hpivot p hp)

theorem Transforms.read_toValue {t : Transforms} (h : t.IsSettled) (hcompute : t.compute = [])
    (place : String) : Transforms.read t.toValue place = .ok t := by
  have hpivot : unlessFalse ((t.pivot.map Pivot.toValue).getD .null)
      (Pivot.read · "transforms.pivot") = .ok t.pivot :=
    unlessFalse_map fun p hp => ⟨rfl, Pivot.read_toValue (h p hp) _⟩
  obtain ⟨groupBy, pivot, flatten, select, compute⟩ := t
  subst hcompute
  dsimp only at hpivot
  cases flatten <;>
    simp [toValue, Transforms.read, Record.get_eq, hpivot, Text.sorted, orEmpty, Value.truthy]

/-- Computed columns are written as a list of their names, which is not read back. -/
theorem Transforms.read_toValue_computed {t : Transforms} (hcompute : t.compute ≠ [])
    (place : String) (t' : Transforms) : Transforms.read t.toValue place ≠ .ok t' := by
  intro hread
  simp only [toValue, Transforms.read, object_map, ok_sequence, sequence_eq_ok, pure_answers] at hread
  obtain ⟨groupBy, -, pivot, -, select, -, compute, hobject, -⟩ := hread
  have hnames : Text.sorted (t.compute.map (·.1)) ≠ [] := by
    intro h
    have hlength := congrArg List.length h
    rw [Text.sorted, List.length_mergeSort, List.length_map, List.length_nil] at hlength
    exact hcompute (List.length_eq_zero_iff.mp hlength)
  obtain ⟨name, names, hsorted⟩ := List.exists_cons_of_ne_nil hnames
  simp [Record.get_eq, hsorted, Record.listOf, orEmpty, Value.truthy, object] at hobject

/-- Transforms without computed columns are written as a map that is empty exactly if they are. -/
theorem Transforms.truthy_toValue {t : Transforms} (hcompute : t.compute = []) :
    t.toValue.truthy = true ↔
      ¬ (t.groupBy = [] ∧ t.pivot = none ∧ t.flatten = false ∧ t.select = []) := by
  have hnames : Text.sorted (t.compute.map (·.1)) = [] := by simp [hcompute, Text.sorted]
  simp [toValue, hnames, Value.truthy, Write.textsField, Write.listField, Write.entry]

/-- Transforms are read back where writing keeps them. -/
theorem Transforms.reread_iff {t : Transforms} (h : t.IsSettled) :
    (∃ t', unlessFalse t.toValue (Transforms.read · "transforms") = .ok (some t') ∧
      t'.toValue = t.toValue) ↔ t.IsKept := by
  constructor
  · rintro ⟨t', hread, -⟩
    have hcompute : t.compute = [] := by
      by_contra hcompute
      exact read_toValue_computed hcompute _ _ (read_of_unlessFalse hread t' rfl)
    refine ⟨hcompute, (truthy_toValue hcompute).mp ?_⟩
    by_contra htruthy
    rw [unlessFalse, if_neg htruthy] at hread
    cases hread
  · rintro ⟨hcompute, hsome⟩
    refine ⟨t, ?_, rfl⟩
    rw [unlessFalse, if_pos ((truthy_toValue hcompute).mpr hsome), read_toValue h hcompute]
    rfl

/-! ## Settings -/

/-- Reading changes nothing about how an answer is kept. -/
def CacheSettings.IsSettled (c : CacheSettings) : Prop :=
  positiveTtl? (.number c.ttl) = some c.ttl

/-- Settings without the decision, which is not written. -/
def CacheSettings.written (c : CacheSettings) : CacheSettings := { c with condition := none }

theorem CacheSettings.isSettled {v : Value} {place : String} {c : CacheSettings}
    (h : CacheSettings.read v place = .ok c) : c.IsSettled := by
  simp only [CacheSettings.read, sequence_eq_ok] at h
  obtain ⟨r, -, ttl, -, hread⟩ := h
  split at hread
  · cases hread
  · rename_i n hn
    simp only [sequence_eq_ok, pure_answers] at hread
    obtain ⟨tags, -, rfl⟩ := hread
    unfold IsSettled
    unfold positiveTtl? at hn
    split at hn
    · split at hn
      · rw [← Option.some.inj hn]
        exact if_pos ‹_›
      · cases hn
    · split at hn
      · cases hn
      · rw [← Option.some.inj hn]
        exact if_neg ‹_›
    · cases hn

theorem CacheSettings.read_toValue {c : CacheSettings} (h : c.IsSettled) (place : String) :
    CacheSettings.read c.toValue place = .ok c.written := by
  unfold IsSettled at h
  simp [toValue, CacheSettings.read, required, Record.get_eq, h, written, formula?]

theorem Limits.read_toValue (l : Limits) (place : String) : Limits.read l.toValue place = .ok l := by
  have hlimit : integer? ((l.maxLimit.map .int).getD .null) = l.maxLimit := by
    cases l.maxLimit <;> rfl
  obtain ⟨limit, required, disallowed, complexity, suggestions⟩ := l
  dsimp only at hlimit
  cases complexity with
  | none => simp [toValue, Limits.read, Record.get_eq, hlimit, Value.truthy, Value.toOption]
  | some x =>
    have hfloat : (Value.float x).toFloat = .ok x := rfl
    simp [toValue, Limits.read, Record.get_eq, hlimit, Value.truthy, Value.toOption, hfloat]
    rfl

/-! ## Clauses -/

theorem valueLists_written {ls : List (String × List Value)} {r : Record} {key : String}
    (h : r.get? key = if !ls.isEmpty then some (valueListsValue ls) else none) :
    valueLists r key = .ok ls := by
  have hobject : object (orEmpty (r.get key)) key = .ok (ls.map fun l => (l.1, .list l.2)) := by
    rw [Record.get_eq, h]
    cases ls <;> rfl
  rw [valueLists, hobject, ok_sequence]
  clear h hobject
  induction ls with
  | nil => rfl
  | cons l ls ih =>
    rw [List.map_cons, List.mapM_cons]
    exact sequence_eq_ok.mpr ⟨l, rfl, sequence_eq_ok.mpr ⟨ls, ih, rfl⟩⟩

namespace Query

/-- Reading changes nothing about the clauses and settings of a query. -/
structure ClausesSettled (q : Query) : Prop where
  conditions : ∀ c ∈ q.conditions, c.IsSettled
  groups : ∀ g ∈ q.groups, g.IsSettled
  having : ∀ t ∈ q.having, Text.IsFolded t.operator
  orderBy : ∀ o ∈ q.orderBy, o.IsSettled
  aggregates : ∀ a ∈ q.aggregates, Text.lower a.type = a.type
  windows : ∀ w ∈ q.windows, w.IsSettled
  framedWindows : ∀ w ∈ q.framedWindows, w.IsSettled
  transforms : ∀ t ∈ q.transforms, t.IsSettled
  cache : ∀ c ∈ q.cache, c.IsSettled
  limit : ∀ v ∈ q.limit, ∃ n : Int, 0 < n ∧ v = .int n
  offset : 0 ≤ q.offset

theorem positiveUnder_pos {r : Record} {key : String} {n : Int}
    (h : positiveUnder r key = some n) : 0 < n := by
  unfold positiveUnder at h
  simpa using (Option.filter_eq_some_iff.mp h).2

/-- What is read is settled. -/
theorem ReadFrom.settled {limit : Option Value} {r : Record} {q : Query} (h : q.ReadFrom limit r)
    (hlimit : ∀ v ∈ limit, ∃ n : Int, 0 < n ∧ v = .int n) : q.ClausesSettled where
  conditions := forall_of_items h.conditions fun _ _ _ _ => Condition.isSettled
  groups := forall_of_items h.groups fun _ _ _ _ => Group.isSettled
  having := forall_of_items h.having fun _ _ _ _ => HavingTerm.isSettled
  orderBy := forall_of_items h.orderBy fun _ _ _ _ => OrderTerm.isSettled
  aggregates := forall_of_items h.aggregates fun _ _ _ _ => Aggregate.isSettled
  windows := forall_of_items h.windows fun _ _ _ _ => Window.isSettled
  framedWindows := forall_of_items h.framedWindows fun _ _ _ _ => FramedWindow.isSettled
  transforms t ht := Transforms.isSettled (read_of_unlessFalse h.transforms t ht)
  cache c hc := CacheSettings.isSettled (read_of_unlessFalse h.cache c hc)
  limit v hv := by
    rw [h.limit] at hv
    cases hpositive : positiveUnder r "limit" with
    | some n =>
      rw [hpositive] at hv
      exact ⟨n, positiveUnder_pos hpositive, (Option.some.inj hv).symm⟩
    | none =>
      rw [hpositive] at hv
      exact hlimit v hv
  offset := by
    rw [h.offset]
    cases hpositive : positiveUnder r "offset" with
    | some n => exact (positiveUnder_pos hpositive).le
    | none => exact le_rfl

/-- A query as it is read back, with other table expressions and transforms. -/
def reread (q : Query) (tables : List (TableExpr Query)) (recursiveTables : List (RecursiveExpr Query))
    (transforms : Option Transforms) : Query :=
  { q with tables, recursiveTables, transforms, cache := q.cache.map (·.written) }

/-- The clauses of a query are read back from where they are written. -/
theorem ClausesSettled.readFrom {q : Query} (hq : q.ClausesSettled) {ts rs : List Value}
    {r : Record} (hr : q.WrittenIn ts rs r) (tables : List (TableExpr Query))
    (recursiveTables : List (RecursiveExpr Query)) {transforms : Option Transforms}
    (htransforms : unlessFalse (Record.get r "transforms") (Transforms.read · "transforms") =
      .ok transforms) :
    (q.reread tables recursiveTables transforms).ReadFrom none r where
  filter := by
    rw [Record.get_eq, hr.filter]
    change _ = Except.ok q.filter
    cases q.filter <;> rfl
  conditions := items_written hr.conditions fun c hc => Condition.read_toValue (hq.conditions c hc)
  ranges := items_written hr.ranges fun c _ => Range.read_toValue c
  nulls := by
    rw [Record.get_eq, hr.nulls]
    exact texts_listOf _ _
  notNulls := by
    rw [Record.get_eq, hr.notNulls]
    exact texts_listOf _ _
  isIn := valueLists_written hr.isIn
  notIn := valueLists_written hr.notIn
  exists_ := items_written hr.exists_ fun f _ => Fragment.read_toValue f
  groups := items_written hr.groups fun g hg => Group.read_toValue (hq.groups g hg)
  groupBy := by
    rw [Record.get_eq, hr.groupBy]
    exact texts_listOf _ _
  having := items_written hr.having fun t ht => HavingTerm.read_toValue (hq.having t ht)
  orderBy := items_written hr.orderBy fun o ho => OrderTerm.read_toValue (hq.orderBy o ho)
  aggregates := items_written hr.aggregates fun a ha => Aggregate.read_toValue (hq.aggregates a ha)
  fragments := items_written hr.fragments fun f _ => Fragment.read_toValue f
  windows := items_written hr.windows fun w hw => Window.read_toValue (hq.windows w hw)
  framedWindows :=
    items_written hr.framedWindows fun w hw => FramedWindow.read_toValue (hq.framedWindows w hw)
  transforms := htransforms
  cache := by
    rw [Record.get_eq, hr.cache]
    change _ = Except.ok (q.cache.map (·.written))
    cases hcache : q.cache with
    | none => rfl
    | some c =>
      change unlessFalse c.toValue _ = _
      have htruthy : c.toValue.truthy = true := rfl
      rw [unlessFalse, if_pos htruthy, CacheSettings.read_toValue (hq.cache c hcache)]
      rfl
  limits := by
    rw [Record.get_eq, hr.limits]
    exact unlessFalse_map fun l _ => ⟨rfl, Limits.read_toValue l _⟩
  limit := by
    change q.limit = _
    unfold positiveUnder
    rw [Record.get_eq, hr.limit]
    cases hlimit : q.limit with
    | none => rfl
    | some v =>
      obtain ⟨n, hn, rfl⟩ := hq.limit v hlimit
      simp [integer?, Option.filter, hn]
  offset := by
    change q.offset = _
    unfold positiveUnder
    rw [Record.get_eq, hr.offset]
    rcases hq.offset.lt_or_eq with hpos | hzero
    · simp [integer?, Option.filter, hpos]
    · simp [integer?, Option.filter, ← hzero]

/-- The parts of a query determine it. -/
theorem ReadFrom.unique {limit : Option Value} {r : Record} {p q : Query} (hp : p.ReadFrom limit r)
    (hq : q.ReadFrom limit r) (htables : p.tables = q.tables)
    (hrecursive : p.recursiveTables = q.recursiveTables) : p = q := by
  have hpread := assemble_eq_ok.mpr ⟨rfl, rfl, hp⟩
  have hqread := assemble_eq_ok.mpr ⟨rfl, rfl, hq⟩
  rw [htables, hrecursive, hqread] at hpread
  exact (Except.ok.inj hpread).symm

end Query

theorem Record.listOf_injective {vs ws : List Value} (h : Record.listOf vs id = Record.listOf ws id) :
    vs = ws := by
  cases vs <;> cases ws <;> simp_all [Record.listOf]

namespace Query

/-- A query that is read back from its map, and written as that map again. -/
def Rereads (q : Query) : Prop :=
  ∃ q', Query.read none q.toValue = .ok q' ∧ q'.toValue = q.toValue

theorem toValue_reread_iff {q : Query} {tables : List (TableExpr Query)}
    {recursiveTables : List (RecursiveExpr Query)} {transforms : Option Transforms} :
    (q.reread tables recursiveTables transforms).toValue = q.toValue ↔
      tables.map TableExpr.toValue = q.tables.map TableExpr.toValue ∧
      recursiveTables.map RecursiveExpr.toValue = q.recursiveTables.map RecursiveExpr.toValue ∧
      transforms.map Transforms.toValue = q.transforms.map Transforms.toValue := by
  rw [toValue_eq, toValue_eq, tablesToValues_eq, tablesToValues_eq, recursiveTablesToValues_eq,
    recursiveTablesToValues_eq]
  constructor
  · intro h
    have hfields := Value.map.inj h
    have hread := writtenIn_fieldsWith (q.reread tables recursiveTables transforms)
      (tables.map TableExpr.toValue) (recursiveTables.map RecursiveExpr.toValue)
    have hq := writtenIn_fieldsWith q (q.tables.map TableExpr.toValue)
      (q.recursiveTables.map RecursiveExpr.toValue)
    rw [← hfields] at hq
    exact ⟨Record.listOf_injective (hread.tables.symm.trans hq.tables),
      Record.listOf_injective (hread.recursiveTables.symm.trans hq.recursiveTables),
      hread.transforms.symm.trans hq.transforms⟩
  · rintro ⟨htables, hrecursive, htransforms⟩
    have htransforms' : (transforms.map fun t => ("transforms", t.toValue)) =
        q.transforms.map fun t => ("transforms", t.toValue) := by
      have hpair := congrArg (Option.map (Prod.mk "transforms")) htransforms
      rw [Option.map_map, Option.map_map] at hpair
      exact hpair
    have hcache : ((q.cache.map (·.written)).map fun c => ("cache", c.toValue)) =
        q.cache.map fun c => ("cache", c.toValue) := by
      rw [Option.map_map]
      rfl
    unfold reread
    dsimp only
    rw [htables, hrecursive]
    unfold fieldsWith
    dsimp only
    rw [htransforms', hcache]

end Query

/-! ## Table expressions -/

theorem TableExpr.read_toValue (t : TableExpr Query) (place : String) :
    readTable place t.toValue = (do
      let query ← Query.read none t.query.toValue
      return { t with query }) := by
  rw [toValue, valueWith, readTable, queryUnder_eq]
  simp [Record.get_eq, required_text, Query.truthy_toValue, Query.readNested_toValue,
    -bind_pure_comp]

theorem TableExpr.toValue_with {t : TableExpr Query} {query : Query} :
    ({ t with query } : TableExpr Query).toValue = t.toValue ↔ query.toValue = t.query.toValue := by
  constructor
  · intro h
    have hfields := congrArg (Record.get? · "query") (Value.map.inj h)
    simpa using hfields
  · intro h
    unfold toValue
    rw [h]
    rfl

/-- Table expressions are read back and written again exactly if their queries are. -/
theorem tablesAt_rereads (ts : List (TableExpr Query)) (i : Nat) :
    (∃ us, tablesAt i (ts.map TableExpr.toValue) = .ok us ∧
      us.map TableExpr.toValue = ts.map TableExpr.toValue) ↔ TablesHold Query.Rereads ts := by
  induction ts generalizing i with
  | nil => exact iff_of_true ⟨[], rfl, rfl⟩ (List.forall_mem_nil _)
  | cons t ts ih =>
    rw [TablesHold, List.forall_mem_cons, ← TablesHold, ← ih (i + 1), List.map_cons, tablesAt,
      TableExpr.read_toValue]
    constructor
    · rintro ⟨us, hread, hvalues⟩
      simp only [sequence_eq_ok, pure_answers] at hread
      obtain ⟨u, ⟨query, hquery, rfl⟩, rest, hrest, rfl⟩ := hread
      obtain ⟨hfirst, hothers⟩ := List.cons.inj hvalues
      exact ⟨⟨query, hquery, TableExpr.toValue_with.mp hfirst⟩, rest, hrest, hothers⟩
    · rintro ⟨⟨query, hquery, hvalue⟩, us, hread, hvalues⟩
      rw [hquery, hread]
      refine ⟨_, rfl, ?_⟩
      rw [List.map_cons, TableExpr.toValue_with.mpr hvalue, hvalues]

theorem Query.isNull_toValue (q : Query) : q.toValue.isNull = false := by
  rw [toValue_eq]
  rfl

theorem RecursiveExpr.read_toValue (t : RecursiveExpr Query) (place : String) :
    readRecursiveTable place t.toValue = (do
      let initial ← Query.read none t.initial.toValue
      let recursive ← Query.read none t.recursive.toValue
      return { t with initial, recursive }) := by
  rw [toValue, valueWith, readRecursiveTable, requiredQuery_eq, requiredQuery_eq]
  simp [Record.get_eq, required_text, Query.isNull_toValue, Query.readNested_toValue,
    Value.truthy, -bind_pure_comp]

theorem RecursiveExpr.toValue_with {t : RecursiveExpr Query} {initial recursive : Query} :
    ({ t with initial, recursive } : RecursiveExpr Query).toValue = t.toValue ↔
      initial.toValue = t.initial.toValue ∧ recursive.toValue = t.recursive.toValue := by
  constructor
  · intro h
    have hfields := Value.map.inj h
    have hinitial := congrArg (Record.get? · "initialQuery") hfields
    have hrecursive := congrArg (Record.get? · "recursiveQuery") hfields
    exact ⟨by simpa using hinitial, by simpa using hrecursive⟩
  · rintro ⟨hinitial, hrecursive⟩
    unfold toValue
    rw [hinitial, hrecursive]
    rfl

/-- Recursive table expressions are read back and written again exactly if their queries are. -/
theorem recursiveTablesAt_rereads (ts : List (RecursiveExpr Query)) (i : Nat) :
    (∃ us, recursiveTablesAt i (ts.map RecursiveExpr.toValue) = .ok us ∧
      us.map RecursiveExpr.toValue = ts.map RecursiveExpr.toValue) ↔
        RecursiveTablesHold Query.Rereads ts := by
  induction ts generalizing i with
  | nil => exact iff_of_true ⟨[], rfl, rfl⟩ (List.forall_mem_nil _)
  | cons t ts ih =>
    rw [RecursiveTablesHold, List.forall_mem_cons, ← RecursiveTablesHold, ← ih (i + 1),
      List.map_cons, recursiveTablesAt, RecursiveExpr.read_toValue]
    constructor
    · rintro ⟨us, hread, hvalues⟩
      simp only [sequence_eq_ok, pure_answers] at hread
      obtain ⟨u, ⟨initial, hinitial, recursive, hrecursive, rfl⟩, rest, hrest, rfl⟩ := hread
      obtain ⟨hfirst, hothers⟩ := List.cons.inj hvalues
      obtain ⟨hi, hr⟩ := RecursiveExpr.toValue_with.mp hfirst
      exact ⟨⟨⟨initial, hinitial, hi⟩, recursive, hrecursive, hr⟩, rest, hrest, hothers⟩
    · rintro ⟨⟨⟨initial, hinitial, hi⟩, recursive, hrecursive, hr⟩, us, hread, hvalues⟩
      rw [hinitial, hrecursive, hread]
      refine ⟨_, rfl, ?_⟩
      rw [List.map_cons, RecursiveExpr.toValue_with.mpr ⟨hi, hr⟩, hvalues]

/-! ## Queries -/

namespace Query

theorem transforms_reread {o : Option Transforms} (h : ∀ t ∈ o, t.IsSettled) :
    (∃ o', unlessFalse ((o.map Transforms.toValue).getD .null) (Transforms.read · "transforms") =
      .ok o' ∧ o'.map Transforms.toValue = o.map Transforms.toValue) ↔ ∀ t ∈ o, t.IsKept := by
  cases o with
  | none => exact iff_of_true ⟨none, rfl, rfl⟩ nofun
  | some t =>
    have hkept : (∀ s ∈ some t, Transforms.IsKept s) ↔ t.IsKept :=
      ⟨fun hall => hall t rfl, fun ht s hs => Option.some.inj hs ▸ ht⟩
    rw [hkept, ← Transforms.reread_iff (h t rfl)]
    constructor
    · rintro ⟨o', hread, hvalue⟩
      obtain ⟨t', rfl, ht'⟩ := Option.map_eq_some_iff.mp hvalue
      exact ⟨t', hread, ht'⟩
    · rintro ⟨t', hread, hvalue⟩
      exact ⟨some t', hread, congrArg some hvalue⟩

/-- A query is read back from its map if its table expressions and its clauses are. -/
theorem read_toValue_iff {q q' : Query} : Query.read none q.toValue = .ok q' ↔
    tablesAt 0 (q.tables.map TableExpr.toValue) = .ok q'.tables ∧
      recursiveTablesAt 0 (q.recursiveTables.map RecursiveExpr.toValue) = .ok q'.recursiveTables ∧
      q'.ReadFrom none (q.fieldsWith (q.tables.map TableExpr.toValue)
        (q.recursiveTables.map RecursiveExpr.toValue)) := by
  have hwritten := q.writtenIn_fieldsWith (q.tables.map TableExpr.toValue)
    (q.recursiveTables.map RecursiveExpr.toValue)
  have htables (vs : List Value) :
      tableList ((Record.listOf vs id).getD .null) = tablesAt 0 vs := by
    cases vs with
    | nil => rfl
    | cons v vs => simp [Record.listOf, tableList]
  have hrecursive (vs : List Value) :
      recursiveTableList ((Record.listOf vs id).getD .null) = recursiveTablesAt 0 vs := by
    cases vs with
    | nil => rfl
    | cons v vs => simp [Record.listOf, recursiveTableList]
  rw [toValue_eq, Query.read, tablesUnder_eq, recursiveTablesUnder_eq, assemble_eq_ok,
    tablesToValues_eq, recursiveTablesToValues_eq, Record.get_eq, Record.get_eq, hwritten.tables,
    hwritten.recursiveTables, htables, hrecursive]

/-- A query with settled clauses is read back and written again exactly if its transforms are kept
and the queries inside it are read back and written again. -/
theorem rereads_iff {q : Query} (h : q.ClausesSettled) : q.Rereads ↔
    (∀ t ∈ q.transforms, t.IsKept) ∧ TablesHold Rereads q.tables ∧
      RecursiveTablesHold Rereads q.recursiveTables := by
  have hwritten := q.writtenIn_fieldsWith (q.tables.map TableExpr.toValue)
    (q.recursiveTables.map RecursiveExpr.toValue)
  rw [← transforms_reread h.transforms, ← tablesAt_rereads q.tables 0,
    ← recursiveTablesAt_rereads q.recursiveTables 0, ← hwritten.transforms, ← Record.get_eq]
  constructor
  · rintro ⟨q', hread, hvalue⟩
    obtain ⟨hts, hrs, hfrom⟩ := read_toValue_iff.mp hread
    -- what was read is the query with the table expressions and transforms that were read
    have hq' := hfrom.unique
      (h.readFrom hwritten q'.tables q'.recursiveTables hfrom.transforms) rfl rfl
    rw [hq'] at hvalue
    obtain ⟨htsv, hrsv, htrv⟩ := toValue_reread_iff.mp hvalue
    exact ⟨⟨_, hfrom.transforms, htrv.trans hwritten.transforms.symm⟩, ⟨_, hts, htsv⟩, _, hrs, hrsv⟩
  · rintro ⟨⟨transforms, htr, htrv⟩, ⟨ts, hts, htsv⟩, rs, hrs, hrsv⟩
    exact ⟨q.reread ts rs transforms, read_toValue_iff.mpr ⟨hts, hrs, h.readFrom hwritten ts rs htr⟩,
      toValue_reread_iff.mpr ⟨htsv, hrsv, htrv.trans hwritten.transforms⟩⟩

/-- The transforms of a query and of the queries inside it, at all depths, are kept by writing. -/
inductive KeepsTransforms : Query → Prop
  | mk {q : Query} : (∀ t ∈ q.transforms, t.IsKept) → (∀ t ∈ q.tables, KeepsTransforms t.query) →
      (∀ t ∈ q.recursiveTables, KeepsTransforms t.initial) →
      (∀ t ∈ q.recursiveTables, KeepsTransforms t.recursive) → KeepsTransforms q

theorem keepsTransforms_iff {q : Query} : q.KeepsTransforms ↔
    (∀ t ∈ q.transforms, t.IsKept) ∧ TablesHold KeepsTransforms q.tables ∧
      RecursiveTablesHold KeepsTransforms q.recursiveTables := by
  constructor
  · intro h
    cases h with
    | mk hkept htables hinitial hrecursive =>
      exact ⟨hkept, htables, fun t ht => ⟨hinitial t ht, hrecursive t ht⟩⟩
  · rintro ⟨hkept, htables, hrecursive⟩
    exact .mk hkept htables (fun t ht => (hrecursive t ht).1) fun t ht => (hrecursive t ht).2

/-- A query that is read, with no limit or a positive one in place of a missing limit, is read back
from its map as a nested query and written as that map again, exactly if writing keeps its transforms
and those of the queries inside it. -/
theorem rereads_iff_keepsTransforms {limit : Option Value} {w : Value} {q : Query}
    (hlimit : ∀ v ∈ limit, ∃ n : Int, 0 < n ∧ v = .int n) (h : Query.read limit w = .ok q) :
    (∃ q', Query.read none q.toValue = .ok q' ∧ q'.toValue = q.toValue) ↔ q.KeepsTransforms := by
  change q.Rereads ↔ q.KeepsTransforms
  refine (readsHold (W := fun _ => True)
    (L := fun limit => ∀ v ∈ limit, ∃ n : Int, 0 < n ∧ v = .int n)
    (P := fun q => q.Rereads ↔ q.KeepsTransforms) ?_ ?_ ?_ ?_ w trivial).query limit q hlimit h
  · exact fun _ _ _ _ => trivial
  · trivial
  · exact fun v hv => by cases hv
  · intro limit r q hlimit _ htables hrecursive hfrom
    have htables' : TablesHold Rereads q.tables ↔ TablesHold KeepsTransforms q.tables :=
      forall₂_congr htables
    have hrecursive' : RecursiveTablesHold Rereads q.recursiveTables ↔
        RecursiveTablesHold KeepsTransforms q.recursiveTables :=
      forall₂_congr fun t ht => and_congr (hrecursive t ht).1 (hrecursive t ht).2
    rw [rereads_iff (hfrom.settled hlimit), keepsTransforms_iff, htables', hrecursive']

/-- A query over a table expression whose rows are transformed. -/
def overTransformed (transforms : Value) : Value :=
  .map [("limit", .text "3"), ("ctes", .list [.map [("name", .text "recent"),
    ("query", .map [("orderBy", .list [.map [("field", .text "day"), ("direction", .text "DESC")]]),
      ("transforms", transforms)])]])]

theorem flattened_reread_empty_not :
    (∃ q, Query.read (some (.int 10)) (overTransformed (.map [("flatten", .bool true)])) = .ok q ∧
      ∃ q', Query.read none q.toValue = .ok q' ∧ q'.toValue = q.toValue) ∧
    ∃ q, Query.read none (overTransformed (.map [("flatten", .null)])) = .ok q ∧
      ¬ ∃ q', Query.read none q.toValue = .ok q' ∧ q'.toValue = q.toValue := by
  have hlimit : ∀ v ∈ some (Value.int 10), ∃ n : Int, 0 < n ∧ v = .int n :=
    fun v hv => ⟨10, by decide, (Option.some.inj hv).symm⟩
  constructor
  · obtain ⟨q, hread, hkept⟩ : ∃ q, Query.read (some (.int 10))
        (overTransformed (.map [("flatten", .bool true)])) = .ok q ∧ q.KeepsTransforms := by
      refine ⟨_, rfl, .mk (fun _ ht => by cases ht) (fun t ht => ?_) (List.forall_mem_nil _)
        (List.forall_mem_nil _)⟩
      obtain rfl := List.mem_singleton.mp ht
      refine .mk (fun t ht => ?_) (List.forall_mem_nil _) (List.forall_mem_nil _)
        (List.forall_mem_nil _)
      obtain rfl := Option.some.inj ht
      exact ⟨rfl, fun h => Bool.noConfusion h.2.2.1⟩
    exact ⟨q, hread, (rereads_iff_keepsTransforms hlimit hread).mpr hkept⟩
  · obtain ⟨q, hread, hlost⟩ : ∃ q, Query.read none
        (overTransformed (.map [("flatten", .null)])) = .ok q ∧ ¬ q.KeepsTransforms := by
      refine ⟨_, rfl, fun hkept => ?_⟩
      have hinner := (keepsTransforms_iff.mp hkept).2.1 _ List.mem_cons_self
      exact ((keepsTransforms_iff.mp hinner).1 _ rfl).2 ⟨rfl, rfl, rfl, rfl⟩
    exact ⟨q, hread, fun h => hlost
      ((rereads_iff_keepsTransforms (fun v hv => by cases hv) hread).mp h)⟩

end Query

end RowGate
