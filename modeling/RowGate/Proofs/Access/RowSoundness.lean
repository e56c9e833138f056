import Mathlib
import RowGate.Proofs.Access.Answered
/-!
Rows that are read under rules. A gate asks rules that compare no field once, without a row, and a
template may have a field of the row in it. Main statement: every row that is returned is allowed by
the rules if and only if some rule compares a field, or no template that is reached tells a row from
the empty one.
-/
namespace RowGate.Access

section Verdicts

variable {o : (q : Question) → q.Answer} {u : User} {row : Option Record}

/-- What a rule answers under fixed answers. -/
def ruling (o : (q : Question) → q.Answer) (rule : Rule) (u : User) (row : Option Record) :
    Except Fault Decision :=
  Asking.result o (rule.decide u row)

theorem verdict_cons_pass {s : TraceStep} {steps : List TraceStep} (h : s.decision = .pass) :
    verdict (s :: steps) = verdict steps := by
  unfold verdict
  cases steps with
  | nil => exact h
  | cons t ts => rw [List.getLast?_cons_cons]

/-- What rules say together if they are numbered from `i`. -/
def ruledFrom (o : (q : Question) → q.Answer) (i : Nat) (rules : List Rule) (u : User)
    (row : Option Record) : Except Fault Bool :=
  Asking.result o (traceFrom u row i rules) >>= fun steps => .ok (decide (verdict steps = .allow))

theorem ruledFrom_cons (i : Nat) (rule : Rule) (rest : List Rule) :
    ruledFrom o i (rule :: rest) u row = ruling o rule u row >>= fun d =>
      if d = .pass then ruledFrom o (i + 1) rest u row else .ok (decide (d = .allow)) := by
  simp only [ruledFrom, ruling]
  rw [traceFrom, Asking.result_bind]
  cases Asking.result o (rule.decide u row) with
  | error f => rfl
  | ok d =>
    rw [ok_sequence, ok_sequence]
    split
    · rename_i hpass
      rw [Asking.result_bind]
      cases Asking.result o (traceFrom u row (i + 1) rest) with
      | error f => rfl
      | ok steps =>
        exact congrArg (fun d => Except.ok (decide (d = Decision.allow))) (verdict_cons_pass hpass)
    · rfl

/-- The numbers of rules do not matter for what they say. -/
theorem ruledFrom_eq (i j : Nat) (rules : List Rule) :
    ruledFrom o i rules u row = ruledFrom o j rules u row := by
  induction rules generalizing i j with
  | nil => rfl
  | cons rule rest ih =>
    rw [ruledFrom_cons, ruledFrom_cons, ih (i + 1) (j + 1)]

theorem ruled_eq (rules : List Rule) : ruled o rules u row = ruledFrom o 0 rules u row := by
  unfold ruled evaluate
  rw [Asking.result_bind]
  rfl

/-- The first rule that does not pass decides. -/
theorem ruled_cons (rule : Rule) (rest : List Rule) :
    ruled o (rule :: rest) u row = ruling o rule u row >>= fun d =>
      if d = .pass then ruled o rest u row else .ok (decide (d = .allow)) := by
  rw [ruled_eq, ruled_eq, ruledFrom_cons, ruledFrom_eq 0 1]

/-- A template is asked about the row, or the empty one, once its values of the user are there. -/
theorem ruling_template (sql : String) :
    ruling o (.template sql) u row = contextOf u (Template.contextNames sql) >>= fun context =>
      o (.holds sql context (row.getD [])) >>= fun b => .ok (if b then .allow else .pass) := by
  unfold ruling Rule.decide
  rw [Asking.result_bind, Asking.result_lift]
  cases contextOf u (Template.contextNames sql) with
  | error f => rfl
  | ok context =>
    rw [ok_sequence, ok_sequence, Asking.result_bind]
    change o (.holds sql context (row.getD [])) >>= _ = _
    cases o (.holds sql context (row.getD [])) with
    | error f => rfl
    | ok b => cases b <;> rfl

/-- Rules that neither compare a field nor have a template do not look at rows, and ask nothing. -/
theorem ruling_plain {rule : Rule} (hfield : rule.isFieldCheck = false)
    (htemplate : ∀ sql, rule ≠ .template sql) (o o' : (q : Question) → q.Answer) (u : User)
    (row row' : Option Record) : ruling o rule u row = ruling o' rule u row' := by
  cases rule with
  | field check => cases hfield
  | template sql => exact absurd rfl (htemplate sql)
  | _ => rfl

end Verdicts

/-- The answers of a compiler of templates, where the rules of all tables are given. -/
def answersOf (compiled : String → Record → Record → Except Fault Bool)
    (permissions : Option Permissions) : (q : Question) → q.Answer
  | .holds sql context row => compiled sql context row
  | .permissions _ => .ok permissions
  | .write _ => .ok 0
  | .log _ => ()

/-- Some answers let a rule pass on a user. -/
def MayPass (u : User) (rule : Rule) : Prop := ∃ o, ruling o rule u none = .ok .pass

/-- A template may be asked: it can be bound, and the rules before it may pass. -/
def MayReach (u : User) (rules : List Rule) (sql : String) : Prop :=
  ∃ before after, rules = before ++ .template sql :: after ∧ MayPass u (.template sql) ∧
    ∀ rule ∈ before, MayPass u rule

section Looks

variable {γ : Type}

/-- Templates look at rows in one way only: what looks alike is answered alike. -/
def Sees (o : (q : Question) → q.Answer) (look : String → Record → γ) : Prop :=
  ∀ sql context r s, look sql r = look sql s →
    o (.holds sql context r) = o (.holds sql context s)

variable {o : (q : Question) → q.Answer} {look : String → Record → γ} {u : User}

theorem mayPass_template {sql : String} :
    MayPass u (.template sql) ↔
      ∃ context, contextOf u (Template.contextNames sql) = .ok context := by
  unfold MayPass
  simp only [ruling_template]
  constructor
  · rintro ⟨o, h⟩
    obtain ⟨context, hcontext, -⟩ := sequence_eq_ok.mp h
    exact ⟨context, hcontext⟩
  · rintro ⟨context, hcontext⟩
    refine ⟨answersOf (fun _ _ _ => .ok false) none, ?_⟩
    rw [hcontext]
    rfl

/-- Where no template that is reached tells a row from the empty one, rules that allow without the
row allow with it. -/
theorem ruled_some_of_none (ho : Sees o look) {r : Record} {rules : List Rule}
    (hfield : hasFieldCheck rules = false)
    (hlook : ∀ sql, MayReach u rules sql → look sql r = look sql [])
    (h : ruled o rules u none = .ok true) : ruled o rules u (some r) = .ok true := by
  induction rules with
  | nil => cases h
  | cons rule rest ih =>
    obtain ⟨hrule, hrest⟩ : rule.isFieldCheck = false ∧ hasFieldCheck rest = false := by
      simpa [hasFieldCheck] using hfield
    have hsame (d : Decision) (hd : ruling o rule u none = .ok d) :
        ruling o rule u (some r) = .ok d := by
      by_cases htemplate : ∃ sql, rule = .template sql
      · obtain ⟨sql, rfl⟩ := htemplate
        rw [ruling_template] at hd ⊢
        obtain ⟨context, hcontext, -⟩ := sequence_eq_ok.mp hd
        have hreach : MayReach u (.template sql :: rest) sql :=
          ⟨[], rest, rfl, mayPass_template.mpr ⟨context, hcontext⟩, by simp⟩
        rw [← hd, hcontext, ok_sequence, ok_sequence]
        exact congrArg (· >>= _) (ho sql context r [] (hlook sql hreach))
      · rw [← hd]
        exact ruling_plain hrule (fun sql hsql => htemplate ⟨sql, hsql⟩) o o u _ _
    rw [ruled_cons] at h ⊢
    obtain ⟨d, hd, hdone⟩ := sequence_eq_ok.mp h
    rw [hsame d hd, ok_sequence]
    split at hdone
    · rename_i hpass
      rw [if_pos hpass]
      refine ih hrest (fun sql hsql => hlook sql ?_) hdone
      obtain ⟨before, after, rfl, hbound, hbefore⟩ := hsql
      refine ⟨rule :: before, after, rfl, hbound, List.forall_mem_cons.mpr ⟨⟨o, ?_⟩, hbefore⟩⟩
      rw [hd, hpass]
    · rename_i hpass
      rw [if_neg hpass, hdone]

open Classical in
/-- One template holds for what looks like the empty row and fails for all else; no other template
holds. -/
noncomputable def holdsUnseen (look : String → Record → γ) (target sql : String) (row : Record) :
    Except Fault Bool :=
  if sql = target then if look sql row = look sql [] then .ok true else .error .outside
  else .ok false

/-- The answers that tell rows from the empty one. -/
noncomputable def telling (look : String → Record → γ) (target : String) :
    (q : Question) → q.Answer :=
  answersOf (fun sql _ row => holdsUnseen look target sql row) none

theorem sees_telling (look : String → Record → γ) (target : String) :
    Sees (telling look target) look := by
  intro sql context r s hlook
  change holdsUnseen look target sql r = holdsUnseen look target sql s
  unfold holdsUnseen
  rw [hlook]

/-- Rules before the first occurrence of the target pass. -/
theorem ruled_telling {target : String} {before after : List Rule} {row : Option Record}
    (hfield : hasFieldCheck before = false) (hfirst : .template target ∉ before)
    (hbefore : ∀ rule ∈ before, MayPass u rule) :
    ruled (telling look target) (before ++ after) u row =
      ruled (telling look target) after u row := by
  induction before with
  | nil => rfl
  | cons rule rest ih =>
    obtain ⟨hrule, hrest⟩ : rule.isFieldCheck = false ∧ hasFieldCheck rest = false := by
      simpa [hasFieldCheck] using hfield
    rw [List.mem_cons, not_or] at hfirst
    obtain ⟨hpass, hothers⟩ := List.forall_mem_cons.mp hbefore
    have hruling : ruling (telling look target) rule u row = .ok .pass := by
      by_cases htemplate : ∃ sql, rule = .template sql
      · obtain ⟨sql, rfl⟩ := htemplate
        obtain ⟨context, hcontext⟩ := mayPass_template.mp hpass
        have hsql : sql ≠ target := fun h => hfirst.1 (congrArg Rule.template h.symm)
        rw [ruling_template, hcontext, ok_sequence]
        simp [telling, answersOf, holdsUnseen, hsql]
      · obtain ⟨o, ho⟩ := hpass
        rw [← ho]
        exact ruling_plain hrule (fun sql hsql => htemplate ⟨sql, hsql⟩) _ o u row none
    rw [List.cons_append, ruled_cons, hruling, ok_sequence, if_pos rfl]
    exact ih hrest hfirst.2 hothers

/-- What is reached is reached at its first occurrence. -/
theorem MayReach.first {rules : List Rule} {sql : String} (h : MayReach u rules sql) :
    ∃ before after, rules = before ++ .template sql :: after ∧ .template sql ∉ before ∧
      ∀ rule ∈ before, MayPass u rule := by
  obtain ⟨before, after, rfl, -, hbefore⟩ := h
  obtain ⟨first, rest, hsplit, hfirst⟩ := List.eq_append_cons_of_mem
    (show Rule.template sql ∈ before ++ [.template sql] by simp)
  refine ⟨first, rest ++ after, ?_, hfirst, ?_⟩
  · calc
      before ++ .template sql :: after = (before ++ [.template sql]) ++ after := by simp
      _ = (first ++ .template sql :: rest) ++ after := by rw [hsplit]
      _ = first ++ .template sql :: (rest ++ after) := by simp
  · intro rule hrule
    have hmem : rule ∈ before ++ [.template sql] := hsplit ▸ List.mem_append_left _ hrule
    rcases List.mem_append.mp hmem with h | h
    · exact hbefore rule h
    · rw [List.mem_singleton.mp h] at hrule
      exact absurd hrule hfirst

/-- A template that is reached and tells a row from the empty one has answers for which the rules
allow without the row and not with it. -/
theorem ruled_of_told {rules : List Rule} {sql : String} {r : Record}
    (hfield : hasFieldCheck rules = false) (hreach : MayReach u rules sql)
    (hlook : look sql r ≠ look sql []) :
    ruled (telling look sql) rules u none = .ok true ∧
      ruled (telling look sql) rules u (some r) ≠ .ok true := by
  have hbound : ∃ context, contextOf u (Template.contextNames sql) = .ok context := by
    obtain ⟨_, _, _, hbound, _⟩ := hreach
    exact mayPass_template.mp hbound
  obtain ⟨context, hcontext⟩ := hbound
  obtain ⟨before, after, rfl, hfirst, hbefore⟩ := hreach.first
  have hfields : hasFieldCheck before = false := by
    have hboth : hasFieldCheck before = false ∧ hasFieldCheck (.template sql :: after) = false := by
      simpa [hasFieldCheck] using hfield
    exact hboth.1
  have hruled (row : Option Record) :
      ruled (telling look sql) (before ++ .template sql :: after) u row =
        holdsUnseen look sql sql (row.getD []) >>= fun b =>
          if b then .ok true else ruled (telling look sql) after u row := by
    rw [ruled_telling hfields hfirst hbefore, ruled_cons, ruling_template, hcontext, ok_sequence]
    change (holdsUnseen look sql sql (row.getD []) >>= _) >>= _ = _
    cases holdsUnseen look sql sql (row.getD []) with
    | error f => rfl
    | ok b => cases b <;> rfl
  constructor
  · rw [hruled]
    simp [holdsUnseen]
  · rw [hruled]
    simp [holdsUnseen, hlook]

end Looks

/-- A gate returns rows under rules: it is given the rules, or it finds them for an operation. -/
def Returns (o : (q : Question) → q.Answer) (rules : List Rule) (u : User)
    (rows kept : List Record) : Prop :=
  (∃ c table operation, Asking.result o (checkRules c table operation rules rows u) = .ok kept) ∨
    ∃ c table operation a, Text.upper operation = Action.name a ∧ stored? o table a = some rules ∧
      Asking.result o (authorizeRows c table operation rows u) = .ok kept

section

variable {o : (q : Question) → q.Answer} {rules : List Rule} {u : User} {rows kept : List Record}

/-- Rows that are returned went through the rules. -/
theorem Returns.checked (h : Returns o rules u rows kept) :
    ∃ c table operation,
      Asking.result o (checkRules c table operation rules rows u) = .ok kept := by
  rcases h with hchecked | ⟨c, table, operation, a, hoperation, hstored, hkept⟩
  · exact hchecked
  · unfold authorizeRows at hkept
    simp only [hoperation, Asking.result_bind, sequence_eq_ok, result_rulesFor] at hkept
    obtain ⟨found, hfound, hkept⟩ := hkept
    obtain rfl : rules = found := by simpa [hstored] using hfound
    exact ⟨c, table, a.name, hkept⟩

theorem Returns.sublist (h : Returns o rules u rows kept) : kept.Sublist rows := by
  obtain ⟨c, table, operation, hkept⟩ := h.checked
  have htalk := Asking.talks_result o (checkRules c table operation rules rows u)
  rw [hkept] at htalk
  exact yields_checkRules c table operation rules rows u _ kept htalk

/-- Rows are returned because the rules allow each of them, or because they allow without a row. -/
theorem Returns.allowed (hrules : rules ≠ []) (h : Returns o rules u rows kept) :
    if hasFieldCheck rules then ∀ r ∈ kept, ruled o rules u (some r) = .ok true
    else ruled o rules u none = .ok true := by
  obtain ⟨c, table, operation, hkept⟩ := h.checked
  rw [result_checkRules_eq, if_neg (by simpa using hrules)] at hkept
  split at hkept
  · rename_i hfield
    rw [if_pos hfield, (result_allowedRows.mp hkept).2]
    intro r hr
    have hmatch := (List.mem_filter.mp hr).2
    split at hmatch
    · assumption
    · cases hmatch
  · rename_i hfield
    rw [if_neg hfield]
    obtain ⟨b, hb, hdone⟩ := sequence_eq_ok.mp hkept
    cases b with
    | true => exact hb
    | false => cases hdone

end

/-- What the statement for a template has of a row: the fields that the template asks for. -/
def fieldsSeen (template : String) (row : Record) : List Value :=
  (Template.rowFields template).map row.get

/-- A template is executed alike for rows that agree on the fields that it asks for. -/
theorem statement_of_fieldsSeen {template : String} {context r s : Record}
    (h : fieldsSeen template r = fieldsSeen template s) :
    Template.statement template context r = Template.statement template context s := by
  have hfields (f : String) (hf : f ∈ Template.rowFields template) : r.get f = s.get f :=
    List.map_inj_left.mp h f hf
  unfold Template.statement
  rw [List.map_congr_left fun f hf => by rw [hfields f hf]]

/-- Rows that are returned keep their order. All of them are allowed, whatever the templates answer
that look at rows in one way, if and only if a rule compares a field or no template that is reached
tells a row from the empty one. -/
theorem returned_rows_allowed_iff {rules : List Rule} (hrules : rules ≠ []) (u : User) {γ : Type}
    (look : String → Record → γ) :
    (∀ o rows kept, Returns o rules u rows kept → kept.Sublist rows) ∧
      ((∀ o, Sees o look → ∀ rows kept, Returns o rules u rows kept →
          ∀ r ∈ kept, Asking.result o (evaluate rules u (some r)) = .ok true) ↔
        hasFieldCheck rules = true ∨
          ∀ sql, MayReach u rules sql → ∀ r, look sql r = look sql []) := by
  refine ⟨fun o rows kept => Returns.sublist, ?_, ?_⟩
  · intro hsound
    by_cases hfield : hasFieldCheck rules
    · exact .inl hfield
    refine .inr fun sql hreach r => ?_
    by_cases hlook : look sql r = look sql []
    · exact hlook
    have hfalse : hasFieldCheck rules = false := by simpa using hfield
    obtain ⟨hnone, hsome⟩ := ruled_of_told hfalse hreach hlook
    have hreturned : Returns (telling look sql) rules u [r] [r] := by
      refine .inl ⟨.default, "", "", ?_⟩
      rw [result_checkRules_eq, if_neg (by simpa using hrules), if_neg hfield, hnone]
      rfl
    have hallowed := hsound _ (sees_telling look sql) _ _ hreturned r (List.mem_singleton_self r)
    exact absurd hallowed hsome
  · intro hcondition o ho rows kept hreturned r hr
    have hallowed := hreturned.allowed hrules
    split at hallowed
    · exact hallowed r hr
    · rename_i hfield
      have hlook := hcondition.resolve_left hfield
      have hfalse : hasFieldCheck rules = false := by simpa using hfield
      exact ruled_some_of_none ho hfalse (fun sql hsql => hlook sql hsql r) hallowed

/-- Rules with a template that asks for no field of the row. -/
def editorsOnly : List Rule := [.signedIn, .template ":role = 'editor'"]

/-- Answers where every template holds. -/
def agreeing : (q : Question) → q.Answer := answersOf (fun _ _ _ => .ok true) none

theorem row_returned_to_editor :
    Asking.result agreeing (evaluate editorsOnly { visitor with role := .text "editor" }
      (some [("owner", .int 1)])) = .ok true := by
  have hsome : editorsOnly ≠ [] := by simp [editorsOnly]
  have hiff := (returned_rows_allowed_iff hsome
    { visitor with role := .text "editor" } fieldsSeen).2
  have hnone : Template.rowFields ":role = 'editor'" = [] := by decide
  refine hiff.mpr (.inr ?_) agreeing (fun _ _ _ _ _ => rfl) [[("owner", .int 1)]]
    [[("owner", .int 1)]] (.inl ⟨.default, "posts", "SELECT", by cbv⟩) _ (List.mem_singleton_self _)
  rintro sql ⟨before, after, hrules, -⟩ r
  have hmem : Rule.template sql ∈ editorsOnly := by rw [hrules]; simp
  obtain rfl : sql = ":role = 'editor'" := by simpa [editorsOnly] using hmem
  simp [fieldsSeen, hnone]

/-- A template that holds for what is unowned or owned by the first user. -/
def unownedOrFirst : String := "coalesce(:row_owner, 1) = 1"

/-- The answers of an engine to that template. -/
def ownership : (q : Question) → q.Answer :=
  answersOf (fun _ _ row => .ok (row.get "owner" matches .null || (row.get "owner").same (.int 1)))
    none

theorem foreign_row_returned :
    Asking.result ownership (checkRules .default "posts" "SELECT" [.template unownedOrFirst]
        [[("owner", .int 1)], [("owner", .int 2)]] visitor) =
      .ok [[("owner", .int 1)], [("owner", .int 2)]] ∧
    Asking.result ownership (evaluate [.template unownedOrFirst] visitor
        (some [("owner", .int 2)])) = .ok false := by
  constructor
  · cbv
  · cbv

end RowGate.Access
