import Mathlib
import RowGate.Proofs.Access.RowSoundness
/-!
Which rows a gate keeps, by their positions. Main statements: what is returned are the rows at the
kept positions; rules that look only at some fields keep the same positions of rows that agree on
them; and rows that differ in a field are told apart by a check of that field.
-/
namespace RowGate.Access

/-- The items of a list at the positions that are marked. -/
def pick {α : Type} (marks : List Bool) (items : List α) : List α :=
  ((marks.zip items).filter (·.1)).map (·.2)

theorem pick_cons {α : Type} (b : Bool) (marks : List Bool) (a : α) (items : List α) :
    pick (b :: marks) (a :: items) = if b then a :: pick marks items else pick marks items := by
  cases b <;> rfl

theorem pick_all {α : Type} (items : List α) : pick (items.map fun _ => true) items = items := by
  induction items with
  | nil => rfl
  | cons a items ih => rw [List.map_cons, pick_cons, if_pos rfl, ih]

/-- What stands at one position in two lists is related to one item of a third one. -/
theorem exists_of_mem_zip {α β γ : Type} {P : α → γ → Prop} {Q : β → γ → Prop} {as : List α}
    {bs : List β} {cs : List γ} (ha : List.Forall₂ P as cs) (hb : List.Forall₂ Q bs cs) {a : α}
    {b : β} (h : (a, b) ∈ as.zip bs) : ∃ c, P a c ∧ Q b c := by
  induction ha generalizing bs with
  | nil => cases h
  | cons hfirst _ ih =>
    obtain _ | ⟨hsecond, hrest⟩ := hb
    rcases List.mem_cons.mp h with hpair | h
    · cases hpair
      exact ⟨_, hfirst, hsecond⟩
    · exact ih hrest h

variable (o : (q : Question) → q.Answer)

/-- The positions of rows that rules keep: all without rules, those of the rows that are allowed if
a rule compares a field, and else all or none, in which case the gate denies. -/
def keptAt (table operation : String) (rules : List Rule) (u : User) (rows : List Record) :
    Except Fault (List Bool) :=
  if rules.isEmpty then .ok (rows.map fun _ => true)
  else if hasFieldCheck rules then rows.mapM fun r => ruled o rules u (some r)
  else ruled o rules u none >>= fun b =>
    if b then .ok (rows.map fun _ => true) else .error (.denied table operation u.shown none)

variable {o} {rules : List Rule} {u : User} {table operation : String}

theorem result_allowedRows_eq (c : Config) (rows : List Record) :
    Asking.result o (allowedRows c table operation rules u rows) =
      rows.mapM (fun r => ruled o rules u (some r)) >>= fun marks => .ok (pick marks rows) := by
  induction rows with
  | nil => rfl
  | cons r rows ih =>
    rw [allowedRows, Asking.result_bind, result_isAllowed, List.mapM_cons]
    cases ruled o rules u (some r) with
    | error f => rfl
    | ok b =>
      rw [ok_sequence, ok_sequence, Asking.result_bind, ih]
      cases rows.mapM (fun r => ruled o rules u (some r)) with
      | error f => rfl
      | ok marks =>
        rw [ok_sequence, ok_sequence, ok_sequence, Asking.result_pure]
        change _ = Except.ok (pick (b :: marks) (r :: rows))
        rw [pick_cons]

/-- Rules return the rows at the positions that they keep. -/
theorem result_checkRules_pick (c : Config) (rows : List Record) :
    Asking.result o (checkRules c table operation rules rows u) =
      keptAt o table operation rules u rows >>= fun marks => .ok (pick marks rows) := by
  rw [result_checkRules_eq]
  unfold keptAt
  split
  · rw [ok_sequence, pick_all]
  split
  · exact result_allowedRows_eq c rows
  · cases ruled o rules u none with
    | error f => rfl
    | ok b =>
      cases b with
      | true => exact congrArg Except.ok (pick_all rows).symm
      | false => rfl

/-- A rule looks at no field of the row but some. -/
def LooksOnlyAt (fields : List String) : Rule → Prop
  | .field check => check.field ∈ fields
  | .template sql => ∀ f ∈ Template.rowFields sql, f ∈ fields
  | _ => True

/-- Two rows have the same values in some fields. -/
def AgreeOn (fields : List String) (r s : Record) : Prop := ∀ f ∈ fields, r.get f = s.get f

section

variable {fields : List String} {r s : Record}

theorem ruling_of_agree (ho : Sees o fieldsSeen) {rule : Rule} (hrule : LooksOnlyAt fields rule)
    (h : AgreeOn fields r s) : ruling o rule u (some r) = ruling o rule u (some s) := by
  cases rule with
  | field check =>
    have hvalue : r.get check.field = s.get check.field := h check.field hrule
    unfold ruling Rule.decide FieldCheck.decide
    simp only [hvalue]
  | template sql =>
    have hseen : fieldsSeen sql r = fieldsSeen sql s :=
      List.map_congr_left fun f hf => h f (hrule f hf)
    rw [ruling_template, ruling_template]
    refine bind_congr fun context => ?_
    exact congrArg (· >>= _) (ho sql context r s hseen)
  | _ => rfl

theorem ruled_of_agree (ho : Sees o fieldsSeen) (hrules : ∀ rule ∈ rules, LooksOnlyAt fields rule)
    (h : AgreeOn fields r s) : ruled o rules u (some r) = ruled o rules u (some s) := by
  induction rules with
  | nil => rfl
  | cons rule rest ih =>
    obtain ⟨hrule, hrest⟩ := List.forall_mem_cons.mp hrules
    rw [ruled_cons, ruled_cons, ruling_of_agree ho hrule h, ih hrest]

/-- Rules that look only at fields on which rows agree keep the same positions. -/
theorem keptAt_of_agree (ho : Sees o fieldsSeen) (hrules : ∀ rule ∈ rules, LooksOnlyAt fields rule)
    {rows found : List Record} (h : List.Forall₂ (AgreeOn fields) rows found) :
    keptAt o table operation rules u rows = keptAt o table operation rules u found := by
  have hall : (rows.map fun _ => true) = found.map fun _ => true := by
    simp only [List.map_const', h.length_eq]
  have heach : (rows.mapM fun r => ruled o rules u (some r)) =
      found.mapM fun r => ruled o rules u (some r) := by
    clear hall
    induction h with
    | nil => rfl
    | cons hrow _ ih => rw [List.mapM_cons, List.mapM_cons, ruled_of_agree ho hrules hrow, ih]
  unfold keptAt
  rw [hall, heach]

end

/-- Two gates keep the same positions, or neither keeps any because it fails. -/
def Alike (x y : Except Fault (List Bool)) : Prop := ∀ marks, x = .ok marks ↔ y = .ok marks

/-- The rule that a field equals a value. -/
def equals (field : String) (v : Value) : Rule := .field ⟨field, .equal, .literal v⟩

section

variable {f : String} {v : Value} {rows found : List Record}

theorem ruled_equals (r : Record) :
    ruled o [equals f v] u (some r) = (r.get f).strictlySame v := by
  have hruling : ruling o (equals f v) u (some r) =
      (r.get f).strictlySame v >>= fun b => .ok (if b then .allow else .pass) := by
    change FieldCheck.decide ⟨f, .equal, .literal v⟩ u (some r) = _
    change ((r.get f).strictlySame v >>= fun b => .ok (some b)) >>= _ = _
    cases (r.get f).strictlySame v with
    | error _ => rfl
    | ok b => cases b <;> rfl
  rw [ruled_cons, hruling]
  cases (r.get f).strictlySame v with
  | error _ => rfl
  | ok b => cases b <;> rfl

theorem keptAt_equals : keptAt o table operation [equals f v] u rows =
    rows.mapM fun r => (r.get f).strictlySame v := by
  change (rows.mapM fun r => ruled o [equals f v] u (some r)) = _
  simp only [ruled_equals]

theorem strictlySame_eq_ok {a b : Value} {answer : Bool} : a.strictlySame b = .ok answer ↔
    ∃ k l, a.kind? = some k ∧ b.kind? = some l ∧ answer = (k == l && a.same b) := by
  unfold Value.strictlySame Value.kind
  cases a.kind? <;> cases b.kind? <;> simp [eq_comm]

/-- Rows whose field differs at some position from what it is in other rows, all of which have a
kind, are told apart by the check that the field is what it is there in the other rows. -/
theorem told_apart (hkinds : ∀ back ∈ found, (back.get f).kind?.isSome) {row back : Record}
    (hpair : (row, back) ∈ rows.zip found) (hdiffers : (row.get f).same (back.get f) = false)
    (hself : (back.get f).same (back.get f) = true) :
    ¬ Alike (keptAt o table operation [equals f (back.get f)] u rows)
      (keptAt o table operation [equals f (back.get f)] u found) := by
  intro halike
  obtain ⟨k, hk⟩ := Option.isSome_iff_exists.mp (hkinds back (List.of_mem_zip hpair).2)
  have hanswers : ∀ r ∈ found, ∃ b, (r.get f).strictlySame (back.get f) = .ok b := fun r hr => by
    obtain ⟨l, hl⟩ := Option.isSome_iff_exists.mp (hkinds r hr)
    exact ⟨_, strictlySame_eq_ok.mpr ⟨l, k, hl, hk, rfl⟩⟩
  rw [keptAt_equals, keptAt_equals] at halike
  obtain ⟨marks, hmarks⟩ := exists_mapM hanswers
  obtain ⟨b, hrow, hback⟩ := exists_of_mem_zip (mapM_eq_ok_iff.mp ((halike marks).mpr hmarks))
    (mapM_eq_ok_iff.mp hmarks) hpair
  obtain ⟨_, _, -, -, hfalse⟩ := strictlySame_eq_ok.mp hrow
  obtain ⟨l, l', hl, hl', htrue⟩ := strictlySame_eq_ok.mp hback
  obtain rfl : l = l' := Option.some.inj (hl.symm.trans hl')
  rw [hdiffers, Bool.and_false] at hfalse
  rw [hself, Bool.and_true, beq_self_eq_true] at htrue
  cases hfalse.symm.trans htrue

end
end RowGate.Access
