import RowGate.Access.Gate
import RowGate.Proofs.Script.Conversation
/-!
Rows that are read under rules, whatever the store of rules and the compiler of templates answer.
Main statements: rows are dropped and never changed or reordered, and the rules that are fetched are
those of the table.
-/
namespace RowGate.Access

open Asking

/-- Questions that ask for the rules of no table but one. -/
def Question.OnlyOf (table : String) : Question → Prop
  | .permissions t => t = table
  | _ => True

/-- Questions that judge by the rules of one table; nothing is handed over. -/
def Question.Judges (table : String) : Question → Prop
  | .write _ => False
  | q => q.OnlyOf table

theorem Question.Judges.onlyOf {table : String} (q : Question) (h : q.Judges table) :
    q.OnlyOf table := by
  cases q with
  | write records => cases h
  | _ => exact h

variable {table : String}

theorem asksOnly_logAll (es : List LogEntry) : AsksOnly (Question.Judges table) (logAll es) := by
  induction es with
  | nil => trivial
  | cons e es ih => exact asksOnly_bind ⟨trivial, fun _ => trivial⟩ fun _ => ih

theorem asksOnly_audit (c : Config) (es : List LogEntry) :
    AsksOnly (Question.Judges table) (audit c es) := by
  unfold audit
  split
  · exact asksOnly_logAll es
  · exact asksOnly_pure ()

section Rules

variable {kind : Question → Prop}

/-- Rules ask about templates only. -/
theorem asksOnly_decide (hkind : ∀ template context row, kind (.holds template context row))
    (rule : Rule) (u : User) (row : Option Record) : AsksOnly kind (rule.decide u row) := by
  cases rule with
  | field check => exact asksOnly_lift _
  | template sql =>
    refine asksOnly_bind (asksOnly_lift _) fun context => ?_
    exact asksOnly_bind ⟨hkind sql context _, fun _ => trivial⟩ fun _ => asksOnly_pure _
  | unknown got => exact asksOnly_throw _
  | _ => exact asksOnly_pure _

theorem asksOnly_traceFrom (hkind : ∀ template context row, kind (.holds template context row))
    (u : User) (row : Option Record) (i : Nat) (rules : List Rule) :
    AsksOnly kind (traceFrom u row i rules) := by
  induction rules generalizing i with
  | nil => exact asksOnly_pure _
  | cons rule rest ih =>
    refine asksOnly_bind (asksOnly_decide hkind rule u row) fun d => ?_
    split
    · exact asksOnly_bind (ih (i + 1)) fun _ => asksOnly_pure _
    · exact asksOnly_pure _

end Rules

theorem asksOnly_isAllowed (c : Config) (name operation : String) (rules : List Rule) (u : User)
    (row : Option Record) :
    AsksOnly (Question.Judges table) (isAllowed c name operation rules u row) := by
  refine asksOnly_bind (asksOnly_traceFrom (fun _ _ _ => trivial) u row 0 rules) fun _ => ?_
  exact asksOnly_bind (asksOnly_audit c _) fun _ => asksOnly_pure _

theorem asksOnly_allowedRows (c : Config) (name operation : String) (rules : List Rule) (u : User)
    (rows : List Record) :
    AsksOnly (Question.Judges table) (allowedRows c name operation rules u rows) := by
  induction rows with
  | nil => exact asksOnly_pure _
  | cons row rest ih =>
    refine asksOnly_bind (asksOnly_isAllowed c name operation rules u _) fun _ => ?_
    exact asksOnly_bind ih fun _ => asksOnly_pure _

theorem asksOnly_checkRules (c : Config) (name operation : String) (rules : List Rule)
    (rows : List Record) (u : User) :
    AsksOnly (Question.Judges table) (checkRules c name operation rules rows u) := by
  unfold checkRules
  split
  · exact asksOnly_bind (asksOnly_audit c _) fun _ => asksOnly_pure _
  split
  · refine asksOnly_bind (asksOnly_allowedRows c name operation rules u rows) fun _ => ?_
    exact asksOnly_bind (asksOnly_audit c _) fun _ => asksOnly_pure _
  · refine asksOnly_bind (asksOnly_isAllowed c name operation rules u none) fun b => ?_
    cases b with
    | true => exact asksOnly_bind (asksOnly_audit c _) fun _ => asksOnly_pure _
    | false => exact asksOnly_bind (asksOnly_audit c _) fun _ => asksOnly_throw _

theorem asksOnly_rulesFor (c : Config) (operation : String) (u : Option User) :
    AsksOnly (Question.Judges table) (rulesFor c table operation u) := by
  have hask : AsksOnly (Question.Judges table) (permissionsOf table) := ⟨rfl, fun _ => trivial⟩
  unfold rulesFor
  generalize Text.upper operation = action
  dsimp only
  split
  · exact asksOnly_throw _
  · refine asksOnly_bind hask fun p => ?_
    split
    · exact asksOnly_pure _
    · exact asksOnly_bind (asksOnly_audit c _) fun _ => asksOnly_throw _
    · exact asksOnly_throw _

/-- A gate that filters rows of a table fetches the rules of that table. -/
theorem asksOnly_authorizeRows (c : Config) (operation : String) (rows : List Record) (u : User) :
    AsksOnly (Question.OnlyOf table) (authorizeRows c table operation rows u) := by
  unfold authorizeRows
  generalize Text.upper operation = action
  refine AsksOnly.mono ?_ Question.Judges.onlyOf
  exact asksOnly_bind (asksOnly_rulesFor c action _) fun rules =>
    asksOnly_checkRules c table action rules rows u

/-- Rows that are allowed one by one keep their order. -/
theorem yields_allowedRows (c : Config) (name operation : String) (rules : List Rule) (u : User)
    (rows : List Record) :
    Yields (allowedRows c name operation rules u rows) fun kept => kept.Sublist rows := by
  induction rows with
  | nil => exact yields_pure List.Sublist.slnil
  | cons row rest ih =>
    refine yields_bind yields_any fun b _ => yields_bind ih fun others hothers => yields_pure ?_
    cases b with
    | true => exact hothers.cons_cons row
    | false => exact hothers.cons row

/-- Rules drop rows and leave the others in order. -/
theorem yields_checkRules (c : Config) (name operation : String) (rules : List Rule)
    (rows : List Record) (u : User) :
    Yields (checkRules c name operation rules rows u) fun kept => kept.Sublist rows := by
  unfold checkRules
  split
  · exact yields_bind yields_any fun _ _ => yields_pure (.refl rows)
  split
  · refine yields_bind (yields_allowedRows c name operation rules u rows) fun kept hkept => ?_
    exact yields_bind yields_any fun _ _ => yields_pure hkept
  · refine yields_bind yields_any fun b _ => ?_
    cases b with
    | true => exact yields_bind yields_any fun _ _ => yields_pure (.refl rows)
    | false => exact yields_bind yields_any fun _ _ => yields_throw

theorem yields_authorizeRows (c : Config) (operation : String) (rows : List Record) (u : User) :
    Yields (authorizeRows c table operation rows u) fun kept => kept.Sublist rows := by
  unfold authorizeRows
  generalize Text.upper operation = action
  exact yields_bind yields_any fun rules _ => yields_checkRules c table action rules rows u

/-- A user of whom nothing is known. -/
def visitor : User := ⟨.null, [], [], .null, none, []⟩

end RowGate.Access
