import RowGate.Proofs.Access.Batches
import RowGate.Proofs.Script.Run
/-!
What the gate writes into the log. Main statement: a request goes the same way whether decisions are
logged or not. Where they are, a table-level denial is one warning without a summary, and rows that
are returned are one summary without a warning, with their number if rows were judged one by one.
-/
namespace RowGate

/-- Whether a failure is a denial. -/
def Fault.IsDenial : Fault → Prop
  | .notAllowed .. | .denied .. => True
  | _ => False

/-! ## Calls that deny nothing -/

/-- A call that may fail, but not with a denial. -/
def Neutral {α : Type} (x : Except Fault α) : Prop := ∀ f, x = .error f → ¬ f.IsDenial

section Neutral

variable {α β : Type}

@[simp] theorem neutral_ok (a : α) : Neutral (.ok a) := fun _ h => nomatch h

theorem neutral_error {f : Fault} (h : ¬ f.IsDenial) : Neutral (.error f : Except Fault α) := by
  intro g hg
  cases hg
  exact h

@[simp] theorem neutral_wrongType : Neutral (.error .wrongType : Except Fault α) := neutral_error id

theorem Neutral.bind {x : Except Fault α} {f : α → Except Fault β} (hx : Neutral x)
    (hf : ∀ a, Neutral (f a)) : Neutral (x >>= f) := by
  cases x with
  | error g => exact neutral_error (hx g rfl)
  | ok a => exact hf a

theorem Neutral.map {x : Except Fault α} (hx : Neutral x) (f : α → β) :
    Neutral (x >>= fun a => pure (f a)) :=
  hx.bind fun _ => neutral_ok _

theorem neutral_lift (x : Except Number.Failure α) : Neutral (Number.lift x) := by
  cases x with
  | error g => cases g <;> exact neutral_error id
  | ok a => exact neutral_ok a

mutual

theorem neutral_less (a b : Value) : Neutral (a.less b) := by
  unfold Value.less
  split
  case h_7 => split <;> simp
  case h_9 xs ys => exact neutral_lessItems xs ys
  case h_10 xs ys => exact neutral_lessItems xs ys
  all_goals first | exact neutral_ok _ | exact neutral_lift _ | exact neutral_wrongType

theorem neutral_lessItems : (xs ys : List Value) → Neutral (lessItems xs ys)
  | [], ys => neutral_ok _
  | _ :: _, [] => neutral_ok _
  | x :: xs, y :: ys => by
    rw [lessItems]
    split
    · exact neutral_lessItems xs ys
    · exact neutral_less x y

end

theorem neutral_insertOrdered (v : Value) (ws : List Value) : Neutral (insertOrdered v ws) := by
  induction ws with
  | nil => exact neutral_ok _
  | cons w ws ih =>
    refine (neutral_less v w).bind fun b => ?_
    split
    · exact neutral_ok _
    · exact ih.map _

theorem neutral_sortValues (vs : List Value) : Neutral (sortValues vs) := by
  have hfrom (sorted : List Value) :
      Neutral (vs.foldlM (fun sorted v => insertOrdered v sorted) sorted) := by
    induction vs generalizing sorted with
    | nil => exact neutral_ok _
    | cons v vs ih => exact (neutral_insertOrdered v sorted).bind ih
  exact hfrom []

theorem neutral_value (u : User) (name : String) : Neutral (u.value name) := by
  have hsorted (vs : List Value) : Neutral (User.sorted vs) := (neutral_sortValues vs).map _
  have hlookup : Neutral (u.lookup? name) := by
    unfold User.lookup?
    split
    case h_6 => split <;> first | exact neutral_ok _ | exact (hsorted _).map _
    all_goals first | exact neutral_ok _ | exact (hsorted _).map _
  exact hlookup.map _

theorem neutral_strictlySame (a b : Value) : Neutral (a.strictlySame b) := by
  have hkind (v : Value) : Neutral v.kind := by
    unfold Value.kind
    split
    · exact neutral_ok _
    · exact neutral_error id
  exact (hkind a).bind fun _ => (hkind b).map _

theorem neutral_strictlyAmong (a : Value) (vs : List Value) : Neutral (a.strictlyAmong vs) := by
  induction vs with
  | nil => exact neutral_ok _
  | cons v vs ih =>
    refine (neutral_strictlySame a v).bind fun b => ?_
    split
    · exact neutral_ok _
    · exact ih

theorem FieldCheck.neutral_decide (c : FieldCheck) (u : User) (row : Option Record) :
    Neutral (c.decide u row) := by
  have hoperand : Neutral (c.operand.value? u) := by
    unfold Operand.value?
    split
    · exact neutral_ok _
    · exact (neutral_value u _).map _
  have hcompare (actual expected : Value) : Neutral (c.operator.compare actual expected) := by
    unfold CheckOperator.compare
    split
    case h_1 | h_2 => exact (neutral_strictlySame _ _).map _
    all_goals
      split
      all_goals first | exact (neutral_strictlyAmong _ _).map _ | exact neutral_ok _
  unfold FieldCheck.decide
  split
  · exact neutral_ok _
  · refine hoperand.bind fun expected => ?_
    split
    · exact neutral_ok _
    · refine (hcompare _ _).bind fun b => ?_
      split <;> exact neutral_ok _

theorem neutral_contextOf (u : User) (names : List String) : Neutral (contextOf u names) := by
  induction names with
  | nil => exact neutral_ok _
  | cons n names ih =>
    refine (neutral_value u n).bind fun v => ?_
    split
    · exact neutral_error id
    · exact ih.map _

end Neutral

namespace Access

open Asking

variable {σ α β : Type} {w : Surroundings Question Question.Answer σ}

/-- Surroundings that deny nothing: neither the store of rules nor the compiler of templates fails with
a denial. -/
structure DeniesNothing (w : Surroundings Question Question.Answer σ) : Prop where
  permissions : ∀ table s, Neutral (w (.permissions table) s).1
  holds : ∀ template context row s, Neutral (w (.holds template context row) s).1

theorem neutral_runIn_bind {x : Checking α} {f : α → Checking β} (hx : ∀ s, Neutral (x.runIn w s).1)
    (hf : ∀ a s, Neutral ((f a).runIn w s).1) (s : σ) : Neutral ((x >>= f).runIn w s).1 := by
  rw [runIn_bind]
  rcases hrun : x.runIn w s with ⟨g | a, t⟩
  · exact neutral_error (hx s g (congrArg Prod.fst hrun))
  · exact hf a t

theorem neutral_runIn_pure (a : α) (s : σ) : Neutral ((pure a : Checking α).runIn w s).1 :=
  neutral_ok a

theorem neutral_runIn_lift {x : Except Fault α} (hx : Neutral x) (s : σ) :
    Neutral ((liftM x : Checking α).runIn w s).1 := by
  rw [runIn_lift]
  exact hx

theorem neutral_runIn_decide (hw : DeniesNothing w) (rule : Rule) (u : User) (row : Option Record)
    (s : σ) : Neutral ((rule.decide u row).runIn w s).1 := by
  cases rule with
  | field check => exact neutral_runIn_lift (check.neutral_decide u row) s
  | template sql =>
    refine neutral_runIn_bind (neutral_runIn_lift (neutral_contextOf u _)) (fun context => ?_) s
    exact neutral_runIn_bind (hw.holds sql context _) (fun b => neutral_runIn_pure _)
  | unknown got => exact neutral_error id
  | _ => exact neutral_ok _

theorem neutral_runIn_trace (hw : DeniesNothing w) (rules : List Rule) (u : User)
    (row : Option Record) (s : σ) : Neutral ((trace rules u row).runIn w s).1 := by
  have hfrom (i : Nat) (s : σ) : Neutral ((traceFrom u row i rules).runIn w s).1 := by
    induction rules generalizing i s with
    | nil => exact neutral_ok _
    | cons rule rest ih =>
      refine neutral_runIn_bind (neutral_runIn_decide hw rule u row) (fun d s => ?_) s
      split
      · exact neutral_runIn_bind (ih (i + 1)) (fun _ => neutral_runIn_pure _) s
      · exact neutral_ok _
  exact hfrom 0 s

/-! ## Calls that log -/

/-- The same surroundings with a log, which entries are appended to. -/
def withLog (w : Surroundings Question Question.Answer σ) :
    Surroundings Question Question.Answer (σ × List LogEntry)
  | .log e, s => ((), (s.1, s.2 ++ [e]))
  | q, s => ((w q s.1).1, ((w q s.1).2, s.2))

/-- Questions that are not for the log. -/
def Question.IsQuiet : Question → Prop
  | .log _ => False
  | _ => True

/-- One call appends entries to the log and another does not; apart from that they do the same. What
is told of the first relates its result to its entries. -/
def Logs (w : Surroundings Question Question.Answer σ) (s : σ) (x y : Checking α)
    (told : Except Fault α → List LogEntry → Prop) : Prop :=
  ∃ r t entries, (∀ log, x.runIn (withLog w) (s, log) = (r, (t, log ++ entries))) ∧
    (∀ log, y.runIn (withLog w) (s, log) = (r, (t, log))) ∧ told r entries

section Logs

variable {s : σ} {x y : Checking α} {told : Except Fault α → List LogEntry → Prop}

theorem Logs.mono {told' : Except Fault α → List LogEntry → Prop} (h : Logs w s x y told)
    (hmono : ∀ r es, told r es → told' r es) : Logs w s x y told' := by
  obtain ⟨r, t, es, hx, hy, htold⟩ := h
  exact ⟨r, t, es, hx, hy, hmono r es htold⟩

/-- Behind a first part that fails nothing is logged; otherwise the entries of both parts are. -/
theorem Logs.bind {f g : α → Checking β} {told' : Except Fault β → List LogEntry → Prop}
    (h : Logs w s x y told) (herror : ∀ f es, told (.error f) es → told' (.error f) es)
    (hnext : ∀ a t es, told (.ok a) es → Logs w t (f a) (g a) fun r es' => told' r (es ++ es')) :
    Logs w s (x >>= f) (y >>= g) told' := by
  obtain ⟨r, t, es, hx, hy, htold⟩ := h
  cases r with
  | error e =>
    exact ⟨.error e, t, es, fun log => runIn_bind_error (hx log), fun log => runIn_bind_error (hy log),
      herror e es htold⟩
  | ok a =>
    obtain ⟨r, t', es', hf, hg, htold'⟩ := hnext a t es htold
    refine ⟨r, t', es ++ es', fun log => ?_, fun log => ?_, htold'⟩
    · rw [runIn_bind_ok (hx log), hf, List.append_assoc]
    · rw [runIn_bind_ok (hy log), hg]

theorem logs_pure {a : α} (h : told (.ok a) []) : Logs w s (pure a) (pure a) told :=
  ⟨.ok a, s, [], fun log => by rw [runIn_pure, List.append_nil], fun _ => rfl, h⟩

theorem logs_throw {f : Fault} (h : told (.error f) []) : Logs w s (throw f) (throw f) told := by
  refine ⟨.error f, s, [], fun log => ?_, fun _ => rfl, h⟩
  rw [List.append_nil]
  rfl

/-- A call that asks nothing of the log runs as it does without one. -/
theorem logs_quiet (hx : x.AsksOnly Question.IsQuiet) (h : told (x.runIn w s).1 []) :
    Logs w s x x told := by
  have hrun (log : List LogEntry) :
      x.runIn (withLog w) (s, log) = ((x.runIn w s).1, ((x.runIn w s).2, log)) := by
    have hscript {γ : Type} (x : Script Question Question.Answer γ) (hx : x.AsksOnly Question.IsQuiet)
        (s : σ) : x.run (withLog w) (s, log) = ((x.run w s).1, ((x.run w s).2, log)) := by
      induction x generalizing s with
      | done a => rfl
      | ask q next ih =>
        obtain ⟨hq, hnext⟩ := hx
        cases q with
        | log e => exact hq.elim
        | _ => exact ih _ (hnext _) _
    exact hscript x.run hx s
  refine ⟨(x.runIn w s).1, (x.runIn w s).2, [], fun log => ?_, hrun, h⟩
  rw [hrun, List.append_nil]

theorem runIn_withLog_logAll (es : List LogEntry) (s : σ) (log : List LogEntry) :
    (logAll es).runIn (withLog w) (s, log) = (.ok (), (s, log ++ es)) := by
  induction es generalizing log with
  | nil =>
    rw [List.append_nil]
    rfl
  | cons e es ih =>
    refine (ih (log ++ [e])).trans ?_
    rw [List.append_assoc, List.singleton_append]

/-- Entries of the audit stand in the log before those of what follows. -/
theorem logs_audit {c : Config} {v : Value} (hon : c.logDecisions.truthy) (hoff : ¬ v.truthy)
    {es : List LogEntry} {f g : Unit → Checking α}
    (h : Logs w s (f ()) (g ()) fun r es' => told r (es ++ es')) :
    Logs w s (audit c es >>= f) (audit { c with logDecisions := v } es >>= g) told := by
  obtain ⟨r, t, es', hf, hg, htold⟩ := h
  have hx (log : List LogEntry) :
      (audit c es).runIn (withLog w) (s, log) = (.ok (), (s, log ++ es)) := by
    rw [audit, if_pos hon, runIn_withLog_logAll]
  have hy (log : List LogEntry) :
      (audit { c with logDecisions := v } es).runIn (withLog w) (s, log) = (.ok (), (s, log)) := by
    rw [audit, if_neg hoff]
    rfl
  refine ⟨r, t, es ++ es', fun log => ?_, fun log => ?_, htold⟩
  · rw [runIn_bind_ok (hx log), hf, List.append_assoc]
  · rw [runIn_bind_ok (hy log), hg]

end Logs

/-! ## What is told of a decision -/

/-- Entries of a level. -/
def ofLevel (l : Level) (es : List LogEntry) : List LogEntry := es.filter fun e => decide (e.level = l)

/-- Entries for rules of a list that were asked for an access. -/
def RuleEntries (a : TableAccess) (rules : List Rule) (es : List LogEntry) : Prop :=
  ∃ steps, (∀ st ∈ steps, rules[st.index]? = some st.rule) ∧
    es = traceEntries a.table a.operation steps

/-- One summary tells that rules allowed an access or filtered its rows; filtered rows are counted
behind the rules that were asked. -/
structure Summarized (a : TableAccess) (rules : List Rule) (kept total : Nat) (es : List LogEntry) :
    Prop where
  warnings : ofLevel .warning es = []
  summaries : ofLevel .info es =
    [a.summary (if hasFieldCheck rules then "filter" else "allow") rules.length]
  details : ∃ asked, RuleEntries a rules asked ∧
    ofLevel .debug es = asked ++ if hasFieldCheck rules then [a.filtering kept total] else []

/-- One warning tells that an access is denied. -/
structure Warned (a : TableAccess) (rules : List Rule) (why : String) (es : List LogEntry) : Prop where
  warnings : ofLevel .warning es = [a.denial why]
  summaries : ofLevel .info es = []
  details : RuleEntries a rules (ofLevel .debug es)

section Entries

variable {a : TableAccess} {rules : List Rule} {es es' : List LogEntry}

@[simp] theorem ofLevel_append (l : Level) (es es' : List LogEntry) :
    ofLevel l (es ++ es') = ofLevel l es ++ ofLevel l es' := List.filter_append es es'

theorem ruleEntries_nil : RuleEntries a rules [] := ⟨[], List.forall_mem_nil _, rfl⟩

theorem RuleEntries.append (h : RuleEntries a rules es) (h' : RuleEntries a rules es') :
    RuleEntries a rules (es ++ es') := by
  obtain ⟨steps, hsteps, rfl⟩ := h
  obtain ⟨steps', hsteps', rfl⟩ := h'
  exact ⟨steps ++ steps', List.forall_mem_append.mpr ⟨hsteps, hsteps'⟩, List.map_append.symm⟩

theorem RuleEntries.ofLevel_eq (h : RuleEntries a rules es) (l : Level) :
    ofLevel l es = if l = .debug then es else [] := by
  obtain ⟨steps, -, rfl⟩ := h
  split
  · rename_i hl
    subst hl
    refine List.filter_eq_self.mpr fun e he => ?_
    obtain ⟨st, -, rfl⟩ := List.mem_map.mp he
    rfl
  · rename_i hl
    refine List.filter_eq_nil_iff.mpr fun e he => ?_
    obtain ⟨st, -, rfl⟩ := List.mem_map.mp he
    simpa [auditEntry] using Ne.symm hl

theorem RuleEntries.allowed (h : RuleEntries a rules es) (hfield : hasFieldCheck rules = false)
    (kept total : Nat) :
    Summarized a rules kept total (es ++ a.entries .allow rules.length none) where
  warnings := by
    rw [ofLevel_append, h.ofLevel_eq]
    rfl
  summaries := by
    rw [ofLevel_append, h.ofLevel_eq, hfield]
    rfl
  details := ⟨es, h, by
    rw [ofLevel_append, h.ofLevel_eq, hfield]
    rfl⟩

theorem RuleEntries.filtered (h : RuleEntries a rules es) (hfield : hasFieldCheck rules = true)
    (kept total : Nat) :
    Summarized a rules kept total (es ++ a.entries .filter rules.length (some (kept, total))) where
  warnings := by
    rw [ofLevel_append, h.ofLevel_eq]
    rfl
  summaries := by
    rw [ofLevel_append, h.ofLevel_eq, hfield]
    rfl
  details := ⟨es, h, by
    rw [ofLevel_append, h.ofLevel_eq, hfield]
    rfl⟩

theorem RuleEntries.warned (h : RuleEntries a rules es) (why : String) :
    Warned a rules why (es ++ [a.denial why]) where
  warnings := by
    rw [ofLevel_append, h.ofLevel_eq]
    rfl
  summaries := by
    rw [ofLevel_append, h.ofLevel_eq]
    rfl
  details := by
    rw [ofLevel_append, h.ofLevel_eq, if_pos rfl]
    exact h.append ruleEntries_nil

end Entries

/-! ## Requests to the gate -/

theorem yields_traceFrom (u : User) (row : Option Record) (i : Nat) (rules : List Rule) :
    Yields (traceFrom u row i rules) fun steps =>
      ∀ st ∈ steps, ∃ j, st.index = i + j ∧ rules[j]? = some st.rule := by
  induction rules generalizing i with
  | nil => exact yields_pure (List.forall_mem_nil _)
  | cons rule rest ih =>
    have hfirst (d : Decision) : ∃ j, i = i + j ∧ (rule :: rest)[j]? = some rule := ⟨0, rfl, rfl⟩
    refine yields_bind yields_any fun d _ => ?_
    split
    · refine yields_bind (ih (i + 1)) fun steps hsteps => yields_pure ?_
      refine List.forall_mem_cons.mpr ⟨hfirst d, fun st hst => ?_⟩
      obtain ⟨j, hindex, hrule⟩ := hsteps st hst
      exact ⟨j + 1, by omega, hrule⟩
    · exact yields_pure (List.forall_mem_singleton.mpr (hfirst d))

/-- The steps of a trace are rules of the list at their places. -/
theorem rules_of_trace {rules : List Rule} {u : User} {row : Option Record} {s : σ}
    {steps : List TraceStep} (h : ((trace rules u row).runIn w s).1 = .ok steps) :
    ∀ st ∈ steps, rules[st.index]? = some st.rule := by
  intro st hst
  obtain ⟨conversation, htalk⟩ := Script.exists_talks w (trace rules u row).run s
  change Talks (trace rules u row) conversation ((trace rules u row).runIn w s).1 at htalk
  rw [h] at htalk
  obtain ⟨j, hindex, hrule⟩ := yields_traceFrom u row 0 rules conversation steps htalk st hst
  rwa [hindex, Nat.zero_add]

/-- What is told of an answer; a failure is no denial where the surroundings deny nothing. -/
def Answering (w : Surroundings Question Question.Answer σ) (told : α → List LogEntry → Prop) :
    Except Fault α → List LogEntry → Prop
  | .ok a, es => told a es
  | .error f, _ => DeniesNothing w → ¬ f.IsDenial

section Gate

variable {c : Config} {v : Value} {a : TableAccess} {rules : List Rule} {u : User} {s : σ}

theorem logs_isAllowed (hon : c.logDecisions.truthy) (hoff : ¬ v.truthy) (a : TableAccess)
    (rules : List Rule) (u : User) (row : Option Record) (s : σ) :
    Logs w s (isAllowed c a.table a.operation rules u row)
      (isAllowed { c with logDecisions := v } a.table a.operation rules u row)
      (Answering w fun _ es => RuleEntries a rules es) := by
  have hquiet : (trace rules u row).AsksOnly Question.IsQuiet :=
    asksOnly_traceFrom (fun _ _ _ => trivial) u row 0 rules
  have htrace : Logs w s (trace rules u row) (trace rules u row) fun r es =>
      r = ((trace rules u row).runIn w s).1 ∧ es = [] := logs_quiet hquiet ⟨rfl, rfl⟩
  refine htrace.bind ?_ fun steps t es hsteps => ?_
  · rintro f es ⟨hf, -⟩ hw
    exact neutral_runIn_trace hw rules u row s f hf.symm
  · obtain ⟨hsteps, rfl⟩ := hsteps
    exact logs_audit hon hoff (logs_pure ⟨steps, rules_of_trace hsteps.symm, List.append_nil _⟩)

theorem logs_allowedRows (hon : c.logDecisions.truthy) (hoff : ¬ v.truthy) (a : TableAccess)
    (rules : List Rule) (u : User) (rows : List Record) (s : σ) :
    Logs w s (allowedRows c a.table a.operation rules u rows)
      (allowedRows { c with logDecisions := v } a.table a.operation rules u rows)
      (Answering w fun _ es => RuleEntries a rules es) := by
  induction rows generalizing s with
  | nil => exact logs_pure ruleEntries_nil
  | cons row rest ih =>
    refine (logs_isAllowed hon hoff a rules u (some row) s).bind (fun _ _ hf => hf) fun b t es hes => ?_
    refine (ih t).bind (fun _ _ hf => hf) fun others t' es' hes' => logs_pure ?_
    rw [List.append_nil]
    exact hes.append hes'

/-- What is told of rows that rules were applied to. -/
def Checked (w : Surroundings Question Question.Answer σ) (a : TableAccess) (rules : List Rule)
    (u : User) (rows : List Record) : Except Fault (List Record) → List LogEntry → Prop
  | .ok kept, es =>
    Summarized a rules kept.length rows.length es ∧ (hasFieldCheck rules = false → kept = rows)
  | .error f, es => DeniesNothing w → f.IsDenial →
    f = .denied a.table a.operation u.shown none ∧ Warned a rules "rules denied" es

theorem logs_checkRules (hon : c.logDecisions.truthy) (hoff : ¬ v.truthy) {a : TableAccess}
    (rules : List Rule) (rows : List Record) {u : User} (hu : a.user = u.id) (s : σ) :
    Logs w s (checkRules c a.table a.operation rules rows u)
      (checkRules { c with logDecisions := v } a.table a.operation rules rows u)
      (Checked w a rules u rows) := by
  have haccess : (⟨a.table, a.operation, u.id⟩ : TableAccess) = a := by rw [← hu]
  have hfails (f : Fault) (es : List LogEntry) (hf : DeniesNothing w → ¬ f.IsDenial) :
      Checked w a rules u rows (.error f) es := fun hw hdenial => absurd hdenial (hf hw)
  unfold checkRules
  rw [haccess]
  dsimp only
  -- no rules, rules that judge rows one by one, rules that answer once for all rows
  split
  · rename_i hempty
    obtain rfl := List.isEmpty_iff.mp hempty
    exact logs_audit hon hoff (logs_pure ⟨ruleEntries_nil.allowed rfl _ _, fun _ => rfl⟩)
  split
  · rename_i hfield
    refine (logs_allowedRows hon hoff a rules u rows s).bind hfails fun kept t es hes => ?_
    refine logs_audit hon hoff (logs_pure ⟨?_, fun hnone => ?_⟩)
    · rw [List.append_nil]
      exact hes.filtered hfield _ _
    · rw [hfield] at hnone
      cases hnone
  · rename_i hfield
    refine (logs_isAllowed hon hoff a rules u none s).bind hfails fun b t es hes => ?_
    cases b with
    | true =>
      refine logs_audit hon hoff (logs_pure ⟨?_, fun _ => rfl⟩)
      rw [List.append_nil]
      exact hes.allowed (by simpa using hfield) _ _
    | false =>
      refine logs_audit hon hoff (logs_throw fun _ _ => ⟨rfl, ?_⟩)
      rw [List.append_nil]
      exact hes.warned "rules denied"

/-- Without a user the rules are found, or missed, as with one, and nothing is logged. -/
theorem runIn_rulesFor (w : Surroundings Question Question.Answer σ) (s : σ) (c : Config)
    (table : String) {operation : String} {action : Action}
    (haction : Action.ofName? (Text.upper operation) = some action) :
    ((rulesFor c table operation none).runIn w s).1 =
      (w (.permissions table) s).1 >>= fun p =>
        match p.bind (·.rulesFor (Text.upper operation)) with
        | some rules => .ok rules
        | none => .error (.noEntry table (Text.upper operation)) := by
  unfold rulesFor
  dsimp only
  rw [haction]
  dsimp only
  rw [runIn_bind]
  have hask : (permissionsOf table).runIn w s = w (.permissions table) s := rfl
  rw [hask]
  rcases w (.permissions table) s with ⟨f | p, t⟩
  · rfl
  · rw [ok_sequence]
    dsimp only [runThen]
    generalize p.bind (·.rulesFor (Text.upper operation)) = entry
    cases entry <;> rfl

/-- What is told of rules that were asked for. -/
def Found (w : Surroundings Question Question.Answer σ) (c : Config) (s : σ) (table operation : String)
    (u : User) : Except Fault (List Rule) → List LogEntry → Prop
  | .ok rules, es => es = [] ∧ ((rulesFor c table operation none).runIn w s).1 = .ok rules
  | .error f, es => ∀ action : Action, Text.upper operation = action.name → DeniesNothing w →
    f.IsDenial → f = .noEntry table action.name ∧
      ((rulesFor c table operation none).runIn w s).1 = .error f ∧
      es = [(⟨table, action.name, u.id⟩ : TableAccess).denial "no permission entry"]

theorem logs_rulesFor (hon : c.logDecisions.truthy) (hoff : ¬ v.truthy) (table operation : String)
    (u : User) (s : σ) :
    Logs w s (rulesFor c table operation (some u))
      (rulesFor { c with logDecisions := v } table operation (some u))
      (Found w c s table operation u) := by
  cases haction : Action.ofName? (Text.upper operation) with
  | none =>
    unfold rulesFor
    dsimp only
    rw [haction]
    refine logs_throw fun action hname => ?_
    rw [hname, ofName?_name] at haction
    cases haction
  | some action =>
    have hfound := runIn_rulesFor w s c table haction
    unfold rulesFor
    dsimp only
    rw [haction]
    have hask : Logs w s (permissionsOf table) (permissionsOf table) fun r es =>
        r = (w (.permissions table) s).1 ∧ es = [] := logs_quiet ⟨trivial, fun _ => trivial⟩ ⟨rfl, rfl⟩
    refine hask.bind ?_ fun p t es hp => ?_
    · rintro f es ⟨hf, -⟩ action - hw hdenial
      exact absurd hdenial (hw.permissions table s f hf.symm)
    · obtain ⟨hp, rfl⟩ := hp
      rw [← hp, ok_sequence] at hfound
      generalize p.bind (·.rulesFor (Text.upper operation)) = entry at hfound ⊢
      cases entry with
      | some rules => exact logs_pure ⟨rfl, hfound⟩
      | none =>
        refine logs_audit hon hoff (logs_throw fun action hname _ _ => ?_)
        rw [hname] at hfound ⊢
        exact ⟨rfl, hfound, rfl⟩

end Gate

/-- A request to the gate: rows are read, or records are written. -/
structure GateRequest where
  writes : Bool
  table : String
  operation : String
  rows : List Record
  user : User

namespace GateRequest

/-- What the gate does with a request. -/
def authorize (q : GateRequest) (c : Config) : Checking (List Record) :=
  if q.writes then authorizeWrite c q.table q.operation q.rows q.user
  else authorizeRows c q.table q.operation q.rows q.user

/-- A request as the log names it. -/
def access (q : GateRequest) : TableAccess := ⟨q.table, Text.upper q.operation, q.user.id⟩

/-- The rules that are found for a request. -/
def found (q : GateRequest) (c : Config) (w : Surroundings Question Question.Answer σ) (s : σ) :
    Except Fault (List Rule) :=
  ((rulesFor c q.table (Text.upper q.operation) none).runIn w s).1

/-- How a request ends, with the rules that were found and what the log tells of it. -/
inductive Told (q : GateRequest) (c : Config) :
    Except Fault (List Rule) → Except Fault (List Record) → List LogEntry → Prop
  | returned {rules : List Rule} {kept : List Record} {es : List LogEntry} :
      Summarized q.access rules kept.length q.rows.length es → Told q c (.ok rules) (.ok kept) es
  | noEntry {es : List LogEntry} :
      Warned q.access [] "no permission entry" es →
      Told q c (.error (.noEntry q.table q.access.operation))
        (.error (.noEntry q.table q.access.operation)) es
  | denied {rules : List Rule} {es : List LogEntry} :
      Warned q.access rules "rules denied" es →
      Told q c (.ok rules) (.error (.denied q.table q.access.operation q.user.shown none)) es
  /-- Rules have filtered a batch, which is rejected for the records that they dropped. -/
  | rejected {rules : List Rule} {kept : List Record} {es : List LogEntry} :
      q.writes → c.writeMode = .raise → hasFieldCheck rules → kept.length < q.rows.length →
      Summarized q.access rules kept.length q.rows.length es →
      Told q c (.ok rules) (.error (.denied q.table q.access.operation q.user.shown
        (some (batchWording q.table q.access.operation (q.rows.length - kept.length)
          q.rows.length)))) es

/-- What is told of a request that is answered, or denied for an operation that there is. -/
structure Accounted (q : GateRequest) (c : Config) (w : Surroundings Question Question.Answer σ) (s : σ)
    (r : Except Fault (List Record)) (es : List LogEntry) : Prop where
  answered : ∀ kept, r = .ok kept → Told q c (q.found c w s) r es
  denied : ∀ f, r = .error f → f.IsDenial → (∃ action : Action, Text.upper q.operation = action.name) →
    DeniesNothing w → Told q c (q.found c w s) r es

section

variable {c : Config} {v : Value} {q : GateRequest} {s : σ}

theorem accounted_of_checked {rules : List Rule} {f : Fault} {es : List LogEntry}
    (hfound : q.found c w s = .ok rules) (h : Checked w q.access rules q.user q.rows (.error f) es) :
    q.Accounted c w s (.error f) es := by
  refine ⟨fun _ hkept => (nomatch hkept), fun g hg hdenial _ hw => ?_⟩
  cases hg
  obtain ⟨rfl, hwarned⟩ := h hw hdenial
  rw [hfound]
  exact .denied hwarned

theorem accounted_of_found {f : Fault} {es : List LogEntry}
    (h : Found w c s q.table (Text.upper q.operation) q.user (.error f) es) :
    q.Accounted c w s (.error f) es := by
  refine ⟨fun _ hkept => (nomatch hkept), fun g hg hdenial hname hw => ?_⟩
  cases hg
  obtain ⟨action, hname⟩ := hname
  have hupper : Text.upper (Text.upper q.operation) = action.name := by rw [hname, upper_name]
  obtain ⟨hf, hfound, rfl⟩ := h action hupper hw hdenial
  subst hf
  have haccess : q.access = ⟨q.table, action.name, q.user.id⟩ := by rw [access, hname]
  have hoperation : action.name = q.access.operation := by rw [haccess]
  rw [hoperation] at hfound
  have hnone : q.found c w s = .error (.noEntry q.table q.access.operation) := hfound
  rw [hnone, ← haccess, hoperation]
  exact .noEntry (ruleEntries_nil.warned "no permission entry")

/-- What is told where a request is only read: rows that are returned are summarized, and there are all
of them unless rules judge them one by one. -/
theorem logs_authorizeRows (hon : c.logDecisions.truthy) (hoff : ¬ v.truthy) (q : GateRequest) (s : σ) :
    Logs w s (authorizeRows c q.table q.operation q.rows q.user)
      (authorizeRows { c with logDecisions := v } q.table q.operation q.rows q.user)
      fun r es => q.Accounted c w s r es ∧ ∀ kept, r = .ok kept → ∃ rules,
        q.found c w s = .ok rules ∧ Summarized q.access rules kept.length q.rows.length es ∧
          (hasFieldCheck rules = false → kept = q.rows) := by
  unfold authorizeRows
  refine (logs_rulesFor hon hoff q.table (Text.upper q.operation) q.user s).bind ?_ ?_
  · exact fun f es h => ⟨accounted_of_found h, fun _ hkept => (nomatch hkept)⟩
  rintro rules t es ⟨rfl, hrules⟩
  have hfound : q.found c w s = .ok rules := hrules
  refine (logs_checkRules hon hoff (a := q.access) rules q.rows rfl t).mono ?_
  rintro (f | kept) es h
  · exact ⟨accounted_of_checked hfound h, fun _ hkept => (nomatch hkept)⟩
  · refine ⟨⟨fun _ _ => ?_, fun f hf => (nomatch hf)⟩, fun kept' hkept => ?_⟩
    · rw [hfound]
      exact .returned h.1
    · cases hkept
      exact ⟨rules, hfound, h⟩

end

/-- Records that are written are read under the rules first. A batch of which some are denied is then
rejected where denials are raised. -/
theorem authorizeWrite_eq (c : Config) (table operation : String) (records : List Record) (u : User) :
    authorizeWrite c table operation records u =
      authorizeRows c table operation records u >>= fun allowed =>
        if records.length - allowed.length != 0 && c.writeMode == .raise then
          throw (.denied table (Text.upper operation) u.shown (some (batchWording table
            (Text.upper operation) (records.length - allowed.length) records.length)))
        else return allowed := by
  unfold authorizeWrite authorizeRows
  simp only [bind_assoc]

theorem logs_authorize {c : Config} {v : Value} (hon : c.logDecisions.truthy) (hoff : ¬ v.truthy)
    (q : GateRequest) (s : σ) :
    Logs w s (q.authorize c) (q.authorize { c with logDecisions := v }) (q.Accounted c w s) := by
  have hread := logs_authorizeRows (w := w) hon hoff q s
  unfold authorize
  split
  · rename_i hwrites
    rw [authorizeWrite_eq, authorizeWrite_eq]
    refine hread.bind (fun f es h => h.1) fun kept t es h => ?_
    obtain ⟨rules, hfound, hsummarized, hall⟩ := h.2 kept rfl
    dsimp only
    split
    · rename_i hdenied
      simp only [bne_iff_ne, ne_eq, Bool.and_eq_true, beq_iff_eq] at hdenied
      refine logs_throw ⟨fun _ hkept => (nomatch hkept), fun f hf _ _ _ => ?_⟩
      cases hf
      rw [hfound, List.append_nil]
      refine .rejected hwrites hdenied.2 ?_ (by omega) hsummarized
      -- without a field check all records are left
      by_contra hfield
      rw [hall (by simpa using hfield), Nat.sub_self] at hdenied
      exact hdenied.1 rfl
    · refine logs_pure ?_
      rw [List.append_nil]
      exact h.1
  · exact hread.mono fun r es h => h.1

/-- A request goes the same way, with the same answers of its surroundings, whether decisions are logged
or not; where they are not, nothing is logged. Where they are, the log tells how it ended. -/
theorem decisions_told_by_log (w : Surroundings Question Question.Answer σ) (s : σ) (q : GateRequest)
    {c : Config} {v : Value} (hon : c.logDecisions.truthy) (hoff : ¬ v.truthy) :
    let on := (q.authorize c).runIn (withLog w) (s, [])
    (q.authorize { c with logDecisions := v }).runIn (withLog w) (s, []) = (on.1, (on.2.1, [])) ∧
      q.Accounted c w s on.1 on.2.2 := by
  intro on
  obtain ⟨r, t, es, hx, hy, htold⟩ := logs_authorize (w := w) hon hoff q s
  have hrun : on = (r, (t, es)) := hx []
  rw [hrun]
  exact ⟨hy [], htold⟩

/-- Surroundings where posts may be changed by their owner. -/
def ownStore : Surroundings Question Question.Answer Unit := fun q s => (ownPosts q, s)

/-- A user changes two posts, one of which is another's, and may not delete them. -/
theorem own_posts_told :
    let c : Config := { dropping with logDecisions := .bool true }
    let posts : List Record := [[("owner", .text "ann")], [("owner", .text "bob")]]
    let change : GateRequest := ⟨true, "posts", "update", posts, ann⟩
    let removal : GateRequest := ⟨true, "posts", "DELETE", posts, ann⟩
    c.logDecisions.truthy ∧ ¬ (Value.bool false).truthy ∧
      (change.authorize dropping).runIn (withLog ownStore) ((), []) =
        (.ok [[("owner", .text "ann")]], ((), [])) ∧
      change.Told c (.ok owned) (.ok [[("owner", .text "ann")]])
        ((change.authorize c).runIn (withLog ownStore) ((), [])).2.2 ∧
      removal.Told c (.error (.noEntry "posts" "DELETE")) (.error (.noEntry "posts" "DELETE"))
        ((removal.authorize c).runIn (withLog ownStore) ((), [])).2.2 := by
  intro c posts change removal
  have hoff : ¬ (Value.bool false).truthy := by decide
  have hunlogged : { c with logDecisions := .bool false } = dropping := rfl
  have hquiet : DeniesNothing ownStore := ⟨fun _ _ => neutral_ok _, fun _ _ _ _ => neutral_ok _⟩
  obtain ⟨hsame, hchange⟩ := decisions_told_by_log ownStore () change (c := c) rfl hoff
  obtain ⟨-, hremoval⟩ := decisions_told_by_log ownStore () removal (c := c) rfl hoff
  have hkept : ((change.authorize c).runIn (withLog ownStore) ((), [])).1 =
      .ok [[("owner", .text "ann")]] := by cbv
  have hmissed : ((removal.authorize c).runIn (withLog ownStore) ((), [])).1 =
      .error (.noEntry "posts" "DELETE") := by cbv
  have howned : change.found c ownStore () = .ok owned := by cbv
  have hnone : removal.found c ownStore () = .error (.noEntry "posts" "DELETE") := by cbv
  refine ⟨rfl, hoff, ?_, ?_, ?_⟩
  · rw [← hunlogged, hsame, hkept]
  · have htold := hchange.answered _ hkept
    rwa [howned, hkept] at htold
  · have htold := hremoval.denied _ hmissed trivial ⟨.delete, upper_name .delete⟩ hquiet
    rwa [hnone, hmissed] at htold

/-- A batch that is rejected for one of its records is told as one that was filtered, and nothing is
told of an operation that there is not. -/
theorem denials_without_warning :
    let c : Config := { Config.default with logDecisions := .bool true }
    let posts : List Record := [[("owner", .text "ann")], [("owner", .text "bob")]]
    let change : GateRequest := ⟨true, "posts", "UPDATE", posts, ann⟩
    let other : GateRequest := ⟨false, "posts", "TRUNCATE", posts, ann⟩
    let rule : Rule := .field ⟨"owner", .equal, .context "userId"⟩
    (change.authorize c).runIn (withLog ownStore) ((), []) =
        (.error (.denied "posts" "UPDATE" ann.shown (some (batchWording "posts" "UPDATE" 1 2))),
          ((), traceEntries "posts" "UPDATE" [⟨0, rule, .allow⟩, ⟨0, rule, .pass⟩] ++
            [change.access.summary "filter" 1, change.access.filtering 1 2])) ∧
      (other.authorize c).runIn (withLog ownStore) ((), []) =
        (.error (.noEntry "posts" "TRUNCATE"), ((), [])) := by
  intro c posts change other rule
  have hread : (authorizeRows c "posts" "UPDATE" posts ann).runIn (withLog ownStore) ((), []) =
      (.ok [[("owner", .text "ann")]],
        ((), traceEntries "posts" "UPDATE" [⟨0, rule, .allow⟩, ⟨0, rule, .pass⟩] ++
            [change.access.summary "filter" 1, change.access.filtering 1 2])) := by
    with_unfolding_all rfl
  have hname : Text.upper "UPDATE" = "UPDATE" := upper_name .update
  constructor
  · change (authorizeWrite c "posts" "UPDATE" posts ann).runIn (withLog ownStore) ((), []) = _
    rw [authorizeWrite_eq, runIn_bind_ok hread, hname]
    rfl
  · cbv

end GateRequest

end Access
end RowGate
