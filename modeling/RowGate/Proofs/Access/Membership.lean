import RowGate.Proofs.Access.RowSoundness
/-!
Labels and teams that a user gains. A list mixes rules that allow with rules that deny, and the
second user may be settled by an earlier rule than the first. Main statement: where no rule reads
labels or teams as a value, a user who gains some is answered as before, or allowed.
-/
namespace RowGate.Access

/-- The names of labels and teams among the values of a user. -/
def memberships : List String := ["labels", "teams"]

/-- Every member of the first set is a member of the second. -/
def Within (vs ws : List Value) : Prop := ∀ v ∈ vs, ∃ w ∈ ws, v = w ∨ v.same w = true

/-- A user with more labels and teams, and otherwise the same. -/
structure Gains (u u' : User) : Prop where
  labels : Within u.labels u'.labels
  teams : Within u.teams u'.teams
  others : u' = { u with labels := u'.labels, teams := u'.teams }

/-- A rule that compares a field with the labels or the teams, or has them in its template. -/
def ReadsMembership : Rule → Prop
  | .field check => ∃ name ∈ memberships, check.operand = .context name
  | .template sql => ∃ name ∈ memberships, name ∈ Template.contextNames sql
  | _ => False

section Values

variable {u u' : User}

theorem Within.any_text {vs ws : List Value} (h : Within vs ws) {n : String}
    (hn : vs.any (·.same (.text n)) = true) : ws.any (·.same (.text n)) = true := by
  obtain ⟨v, hv, hsame⟩ := List.any_eq_true.mp hn
  have hvalue : v = .text n := by
    cases v <;> simp_all [Value.same]
  subst hvalue
  obtain ⟨w, hw, heq | hmeets⟩ := h _ hv
  · exact List.any_eq_true.mpr ⟨w, hw, heq ▸ hsame⟩
  · have htext : w = .text n := by
      cases w <;> simp_all [Value.same]
    exact List.any_eq_true.mpr ⟨w, hw, htext ▸ hsame⟩

/-- A user who meets one of some names still meets it with more members. -/
theorem Within.any_names {vs ws : List Value} (h : Within vs ws) {names : List String}
    (hn : (names.any fun n => vs.any (·.same (.text n))) = true) :
    (names.any fun n => ws.any (·.same (.text n))) = true := by
  obtain ⟨n, hmem, hany⟩ := List.any_eq_true.mp hn
  exact List.any_eq_true.mpr ⟨n, hmem, h.any_text hany⟩

/-- Values other than labels and teams stay as they are. -/
theorem Gains.value_eq (h : Gains u u') {name : String} (hname : name ∉ memberships) :
    u'.value name = u.value name := by
  have hlabels : name ≠ "labels" := fun heq => hname (by simp [memberships, heq])
  have hteams : name ≠ "teams" := fun heq => hname (by simp [memberships, heq])
  rw [h.others]
  unfold User.value User.lookup?
  split <;> first | rfl | contradiction

theorem Gains.operand_eq (h : Gains u u') {x : Operand}
    (hx : ∀ name ∈ memberships, x ≠ .context name) : x.value? u' = x.value? u := by
  cases x with
  | literal v => rfl
  | context name =>
    have hname : name ∉ memberships := fun hmem => hx name hmem rfl
    simp only [Operand.value?, h.value_eq hname]

theorem Gains.contextOf_eq (h : Gains u u') {names : List String}
    (hnames : ∀ name ∈ memberships, name ∉ names) : contextOf u' names = contextOf u names := by
  induction names with
  | nil => rfl
  | cons n rest ih =>
    have hfirst : n ∉ memberships := fun hmem => hnames n hmem List.mem_cons_self
    have hrest : ∀ name ∈ memberships, name ∉ rest :=
      fun name hmem hin => hnames name hmem (List.mem_cons_of_mem n hin)
    rw [contextOf, contextOf, h.value_eq hfirst, ih hrest]

end Values

variable {o : (q : Question) → q.Answer} {u u' : User} {row : Option Record}

/-- A test that more members can only make true is answered as before, or passed and allows now. -/
theorem allow_or_pass {b b' : Bool} (h : b = true → b' = true) :
    (Except.ok (if b' then Decision.allow else .pass) : Except Fault Decision) =
        .ok (if b then .allow else .pass) ∨
      (Except.ok (if b then Decision.allow else .pass) : Except Fault Decision) = .ok .pass ∧
        (Except.ok (if b' then Decision.allow else .pass) : Except Fault Decision) =
          .ok .allow := by
  cases b with
  | true => simp [h rfl]
  | false => cases b' <;> simp

/-- A rule says the same of a user who gains labels or teams, or it passed and allows now. -/
theorem ruling_gained (h : Gains u u') {rule : Rule} (hrule : ¬ ReadsMembership rule) :
    ruling o rule u' row = ruling o rule u row ∨
      ruling o rule u row = .ok .pass ∧ ruling o rule u' row = .ok .allow := by
  -- only rules on labels and on teams look at what was gained
  cases rule with
  | labels names =>
    apply allow_or_pass
    exact h.labels.any_names
  | teams names =>
    apply allow_or_pass
    exact h.teams.any_names
  | field check =>
    left
    have hoperand : check.operand.value? u' = check.operand.value? u :=
      h.operand_eq fun name hmem heq => hrule ⟨name, hmem, heq⟩
    have hdecide : check.decide u' row = check.decide u row := by
      unfold FieldCheck.decide
      rw [hoperand]
    exact congrArg (fun d => Asking.result o (liftM d : Checking Decision)) hdecide
  | template sql =>
    left
    have hcontext : contextOf u' (Template.contextNames sql) =
        contextOf u (Template.contextNames sql) :=
      h.contextOf_eq fun name hmem hin => hrule ⟨name, hmem, hin⟩
    rw [ruling_template, ruling_template, hcontext]
  | _ =>
    left
    rw [h.others]
    rfl

/-- Rules answer a user who gains labels or teams as before, failures included, or allow. -/
theorem ruled_gained (h : Gains u u') {rules : List Rule}
    (hrules : ∀ rule ∈ rules, ¬ ReadsMembership rule) :
    ruled o rules u' row = ruled o rules u row ∨ ruled o rules u' row = .ok true := by
  induction rules with
  | nil => exact .inl rfl
  | cons rule rest ih =>
    obtain ⟨hrule, hrest⟩ := List.forall_mem_cons.mp hrules
    rw [ruled_cons, ruled_cons]
    rcases ruling_gained h hrule with hsame | ⟨-, hallow⟩
    · rw [hsame]
      cases ruling o rule u row with
      | error f => exact .inl rfl
      | ok d =>
        rw [ok_sequence, ok_sequence]
        by_cases hpass : d = .pass
        · rw [if_pos hpass, if_pos hpass]
          exact ih hrest
        · rw [if_neg hpass, if_neg hpass]
          exact .inl rfl
    · rw [hallow]
      exact .inr rfl

/-- Records that are permitted stay so. -/
theorem permits_gained (h : Gains u u') {rules : List Rule}
    (hrules : ∀ rule ∈ rules, ¬ ReadsMembership rule) {r : Record}
    (hr : permits o rules u r = true) : permits o rules u' r = true := by
  rw [permits_iff] at hr ⊢
  unfold decided at hr ⊢
  split
  · rfl
  · rename_i hempty
    rw [if_neg hempty] at hr
    rcases ruled_gained h hrules with hsame | hallow
    · exact hsame.trans hr
    · exact hallow

/-- Nobody loses access by gaining labels or teams. -/
theorem allowed_of_gained (o : (q : Question) → q.Answer) {rules : List Rule}
    (hrules : ∀ rule ∈ rules, ¬ ReadsMembership rule) {u u' : User} (h : Gains u u')
    (row : Option Record) (hallowed : Asking.result o (evaluate rules u row) = .ok true) :
    Asking.result o (evaluate rules u' row) = .ok true := by
  rcases ruled_gained h hrules with hsame | hallow
  · exact hsame.trans hallowed
  · exact hallow

/-- Rules of which the first two may allow: users of the beta, and owners of a row. -/
def betaOrOwner : List Rule :=
  [.labels ["beta"], .field ⟨"owner", .equal, .context "userId"⟩, .template "visible = :level",
    .nobody]

/-- A user with an identity and some labels. -/
def labelled (labels : List Value) : User := ⟨.int 1, labels, [], .null, none, []⟩

/-- An owner of a row who joins the beta is allowed by an earlier rule than before. -/
theorem owner_joins_beta :
    (∀ rule ∈ betaOrOwner, ¬ ReadsMembership rule) ∧
      Gains (labelled []) (labelled [.text "beta"]) ∧
      Asking.result (answersOf (fun _ _ _ => .ok false) none)
        (evaluate betaOrOwner (labelled []) (some [("owner", .int 1)])) = .ok true ∧
      Asking.result (answersOf (fun _ _ _ => .ok false) none)
        (evaluate betaOrOwner (labelled [.text "beta"]) (some [("owner", .int 1)])) = .ok true := by
  have hrules : ∀ rule ∈ betaOrOwner, ¬ ReadsMembership rule := by
    have htemplate : Template.contextNames "visible = :level" = ["level"] := by decide
    simp [betaOrOwner, ReadsMembership, memberships, htemplate]
  have hgains : Gains (labelled []) (labelled [.text "beta"]) :=
    ⟨by simp [Within, labelled], by simp [Within, labelled], rfl⟩
  have hbefore : Asking.result (answersOf (fun _ _ _ => .ok false) none)
      (evaluate betaOrOwner (labelled []) (some [("owner", .int 1)])) = .ok true := by cbv
  exact ⟨hrules, hgains, hbefore, allowed_of_gained _ hrules hgains _ hbefore⟩

/-- A rule that reads the labels can be lost with them. -/
example : ruled (answersOf (fun _ _ _ => .ok false) none)
    [.field ⟨"tag", .notIn, .context "labels"⟩] (labelled [.text "beta"])
    (some [("tag", .text "beta")]) = .ok false := by
  cbv

end RowGate.Access
