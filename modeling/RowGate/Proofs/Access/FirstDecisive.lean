import Mathlib
import RowGate.Access.Explanation
import RowGate.Access.Rehearsal
import RowGate.Proofs.Access.Reads
import RowGate.Proofs.Script.Run
/-!
Which rule of a list settles it. Rules are asked in order, and a compiler of templates may answer
each time in another way. Main statement: the first rule that does not pass settles what the trace,
the verdict, its explanation and the gate say, and the rules behind it are not asked.
-/
namespace RowGate.Access

open Asking

variable {σ : Type} (w : Surroundings Question Question.Answer σ) (u : User) (row : Option Record)

/-- What a rule says in surroundings, failures included. -/
def saidBy (s : σ) (rule : Rule) : Except Fault Decision := ((rule.decide u row).runIn w s).1

/-- The surroundings after a rule has been asked. -/
def leftBy (s : σ) (rule : Rule) : σ := ((rule.decide u row).runIn w s).2

/-- The surroundings after rules have been asked in order. -/
def leftByAll (s : σ) (rules : List Rule) : σ := rules.foldl (leftBy w u row) s

/-- All of some rules pass, asked in order. -/
def AllPass (s : σ) : List Rule → Prop
  | [] => True
  | rule :: rest => saidBy w u row s rule = .ok .pass ∧ AllPass (leftBy w u row s rule) rest

/-- The steps of rules that pass, the first of which has number `i`. -/
def passedFrom (i : Nat) : List Rule → List TraceStep
  | [] => []
  | rule :: rest => ⟨i, rule, .pass⟩ :: passedFrom (i + 1) rest

variable {w u row} {s : σ}

theorem length_passedFrom (i : Nat) (rules : List Rule) :
    (passedFrom i rules).length = rules.length := by
  induction rules generalizing i with
  | nil => rfl
  | cons rule rest ih => exact congrArg (· + 1) (ih (i + 1))

theorem verdict_passedFrom (i : Nat) (rules : List Rule) : verdict (passedFrom i rules) = .pass := by
  induction rules generalizing i with
  | nil => rfl
  | cons rule rest ih =>
    cases rest with
    | nil => rfl
    | cons other rest => exact ih (i + 1)

theorem verdict_append_single (steps : List TraceStep) (x : TraceStep) :
    verdict (steps ++ [x]) = x.decision := by
  simp [verdict]

/-- Every list of rules passes as a whole, or has a first rule that does not pass. -/
theorem allPass_or_split (w : Surroundings Question Question.Answer σ) (u : User)
    (row : Option Record) (s : σ) (rules : List Rule) :
    AllPass w u row s rules ∨ ∃ before rule after, rules = before ++ rule :: after ∧
      AllPass w u row s before ∧ saidBy w u row (leftByAll w u row s before) rule ≠ .ok .pass := by
  induction rules generalizing s with
  | nil => exact .inl trivial
  | cons rule rest ih =>
    by_cases hrule : saidBy w u row s rule = .ok .pass
    · rcases ih (leftBy w u row s rule) with hrest | ⟨before, other, after, rfl, hbefore, hother⟩
      · exact .inl ⟨hrule, hrest⟩
      · exact .inr ⟨rule :: before, other, after, rfl, ⟨hrule, hbefore⟩, hother⟩
    · exact .inr ⟨[], rule, rest, rfl, trivial, hrule⟩

section Trace

variable {rule : Rule} {i : Nat}

/-- A rule that passes leaves the trace to the rules behind it. -/
theorem runIn_traceFrom_pass (h : saidBy w u row s rule = .ok .pass) (rest : List Rule) :
    (traceFrom u row i (rule :: rest)).runIn w s =
      runThen w (fun steps => pure (⟨i, rule, .pass⟩ :: steps))
        ((traceFrom u row (i + 1) rest).runIn w (leftBy w u row s rule)) := by
  have hrun : (rule.decide u row).runIn w s = (.ok .pass, leftBy w u row s rule) := Prod.ext h rfl
  rw [traceFrom, runIn_bind_ok hrun, if_pos rfl, runIn_bind]

/-- A rule that fails fails the trace. -/
theorem runIn_traceFrom_error {f : Fault} (h : saidBy w u row s rule = .error f) (rest : List Rule) :
    (traceFrom u row i (rule :: rest)).runIn w s = (.error f, leftBy w u row s rule) := by
  rw [traceFrom]
  exact runIn_bind_error (Prod.ext h rfl)

/-- A rule that allows or denies ends the trace. -/
theorem runIn_traceFrom_decisive {d : Decision} (h : saidBy w u row s rule = .ok d) (hd : d ≠ .pass)
    (rest : List Rule) :
    (traceFrom u row i (rule :: rest)).runIn w s =
      (.ok [⟨i, rule, d⟩], leftBy w u row s rule) := by
  have hrun : (rule.decide u row).runIn w s = (.ok d, leftBy w u row s rule) := Prod.ext h rfl
  rw [traceFrom, runIn_bind_ok hrun, if_neg hd, runIn_pure]

theorem runThen_pure_pure {α β γ : Type} (f : α → β) (g : β → γ) (y : Except Fault α × σ) :
    runThen w (fun b => (pure (g b) : Checking γ)) (runThen w (fun a => (pure (f a) : Checking β)) y) =
      runThen w (fun a => (pure (g (f a)) : Checking γ)) y := by
  rcases y with ⟨failure | a, t⟩ <;> rfl

/-- Rules that pass leave the trace to the rules behind them. -/
theorem runIn_traceFrom_append {before : List Rule} (h : AllPass w u row s before)
    (rest : List Rule) :
    (traceFrom u row i (before ++ rest)).runIn w s =
      runThen w (fun steps => pure (passedFrom i before ++ steps))
        ((traceFrom u row (i + before.length) rest).runIn w (leftByAll w u row s before)) := by
  induction before generalizing s i with
  | nil =>
    change (traceFrom u row i rest).runIn w s = runThen w pure ((traceFrom u row i rest).runIn w s)
    rcases (traceFrom u row i rest).runIn w s with ⟨f | steps, t⟩ <;> rfl
  | cons rule before ih =>
    have hnumber : i + (before.length + 1) = i + 1 + before.length := by omega
    rw [List.cons_append, runIn_traceFrom_pass h.1, ih h.2, List.length_cons, hnumber]
    exact runThen_pure_pure _ _ _

theorem runIn_trace_pass {rules : List Rule} (h : AllPass w u row s rules) :
    (trace rules u row).runIn w s = (.ok (passedFrom 0 rules), leftByAll w u row s rules) := by
  have hrun := runIn_traceFrom_append (i := 0) h []
  rw [List.append_nil] at hrun
  refine hrun.trans ?_
  change (_, _) = _
  rw [List.append_nil]

variable {before : List Rule}

theorem runIn_trace_error (h : AllPass w u row s before) {f : Fault}
    (hrule : saidBy w u row (leftByAll w u row s before) rule = .error f) (after : List Rule) :
    (trace (before ++ rule :: after) u row).runIn w s =
      (.error f, leftBy w u row (leftByAll w u row s before) rule) := by
  rw [trace, runIn_traceFrom_append h, runIn_traceFrom_error hrule]
  rfl

theorem runIn_trace_decisive (h : AllPass w u row s before) {d : Decision}
    (hrule : saidBy w u row (leftByAll w u row s before) rule = .ok d) (hd : d ≠ .pass)
    (after : List Rule) :
    (trace (before ++ rule :: after) u row).runIn w s =
      (.ok (passedFrom 0 before ++ [⟨before.length, rule, d⟩]),
        leftBy w u row (leftByAll w u row s before) rule) := by
  rw [trace, runIn_traceFrom_append h, runIn_traceFrom_decisive hrule hd, Nat.zero_add]
  rfl

/-- Rules behind the first that does not pass leave no trace. -/
theorem runIn_trace_inert (h : AllPass w u row s before)
    (hrule : saidBy w u row (leftByAll w u row s before) rule ≠ .ok .pass) (after after' : List Rule) :
    (trace (before ++ rule :: after) u row).runIn w s =
      (trace (before ++ rule :: after') u row).runIn w s := by
  cases hsaid : saidBy w u row (leftByAll w u row s before) rule with
  | error f => rw [runIn_trace_error h hsaid, runIn_trace_error h hsaid]
  | ok d =>
    have hd : d ≠ .pass := fun hpass => hrule (by rw [hsaid, hpass])
    rw [runIn_trace_decisive h hsaid hd, runIn_trace_decisive h hsaid hd]

end Trace

/-! ## Who is told what the trace says -/

theorem runIn_logAll (w : Surroundings Question Question.Answer σ) (es : List LogEntry) (s : σ) :
    ((logAll es).runIn w s).1 = .ok () := by
  induction es generalizing s with
  | nil => rfl
  | cons e es ih => exact ih (w (.log e) s).2

theorem runIn_audit (w : Surroundings Question Question.Answer σ) (c : Config) (es : List LogEntry)
    (s : σ) : ((audit c es).runIn w s).1 = .ok () := by
  unfold audit
  split
  · exact runIn_logAll w es s
  · rfl

/-- Behind what is logged a call goes on. -/
theorem runIn_behind_audit {α : Type} (w : Surroundings Question Question.Answer σ) (c : Config)
    (es : List LogEntry) (x : Checking α) (s : σ) :
    (audit c es >>= fun _ => x).runIn w s = x.runIn w ((audit c es).runIn w s).2 :=
  runIn_bind_ok (Prod.ext (runIn_audit w c es s) rfl)

/-- What a gate makes of a judgement of rules on a row, or on none. -/
structure Guarded (w : Surroundings Question Question.Answer σ) (s : σ) (c : Config)
    (table operation : String) (u : User) (row : Option Record) (rules : List Rule)
    (r : Except Fault Bool) : Prop where
  judged : ((isAllowed c table operation rules u row).runIn w s).1 = r
  /-- Where rules compare fields, a row is kept or dropped by itself. -/
  filtered : hasFieldCheck rules = true → ∀ record, row = some record →
    ((checkRules c table operation rules [record] u).runIn w s).1 =
      r.map fun allowed => if allowed then [record] else []
  /-- Where they compare none, all rows are kept or refused. -/
  refused : rules ≠ [] → hasFieldCheck rules = false → row = none → ∀ rows,
    ((checkRules c table operation rules rows u).runIn w s).1 =
      r >>= fun allowed => if allowed then .ok rows else .error (.denied table operation u.shown none)

/-- The verdict on rules, its explanation and the gate say what the trace ends with. -/
structure Agree (w : Surroundings Question Question.Answer σ) (s : σ) (c : Config)
    (table operation : String) (u : User) (row : Option Record) (rules : List Rule)
    (steps : List TraceStep) (d : Decision) : Prop where
  traced : ((trace rules u row).runIn w s).1 = .ok steps
  evaluated : ((evaluate rules u row).runIn w s).1 = .ok (decide (d = .allow))
  explained : ∃ e, ((explainVerdict rules u row).runIn w s).1 = .ok e ∧ e.steps = steps ∧
    e.allowed = decide (d = .allow) ∧ e.byDefault = decide (d = .pass)
  guarded : Guarded w s c table operation u row rules (.ok (decide (d = .allow)))

/-- The trace, the verdict on rules, its explanation and the gate fail in the same way. -/
structure FailAlike (w : Surroundings Question Question.Answer σ) (s : σ) (c : Config)
    (table operation : String) (u : User) (row : Option Record) (rules : List Rule)
    (f : Fault) : Prop where
  traced : ((trace rules u row).runIn w s).1 = .error f
  evaluated : ((evaluate rules u row).runIn w s).1 = .error f
  explained : ((explainVerdict rules u row).runIn w s).1 = .error f
  guarded : Guarded w s c table operation u row rules (.error f)

section Agreement

variable {c : Config} {table operation : String} {rules : List Rule} {t : σ}

theorem guarded_of_judged {r : Except Fault Bool}
    (h : ((isAllowed c table operation rules u row).runIn w s).1 = r) :
    Guarded w s c table operation u row rules r := by
  have hrun : (isAllowed c table operation rules u row).runIn w s =
      (r, ((isAllowed c table operation rules u row).runIn w s).2) := Prod.ext h rfl
  constructor
  · exact h
  · rintro hfield record rfl
    have hrules : rules.isEmpty = false := by
      cases rules with
      | nil => cases hfield
      | cons rule rest => rfl
    rw [checkRules, if_neg (by simp [hrules]), if_pos hfield, runIn_bind, allowedRows, runIn_bind,
      hrun]
    cases r with
    | error f => rfl
    | ok allowed => exact congrArg Prod.fst (runIn_behind_audit w c _ _ _)
  · rintro hrules hfield rfl rows
    rw [checkRules, if_neg (by simpa using hrules), if_neg (by simp [hfield]), runIn_bind, hrun]
    cases r with
    | error f => rfl
    | ok allowed => cases allowed <;> exact congrArg Prod.fst (runIn_behind_audit w c _ _ _)

theorem agree_of_trace {steps : List TraceStep} {d : Decision}
    (h : (trace rules u row).runIn w s = (.ok steps, t)) (hd : verdict steps = d) :
    Agree w s c table operation u row rules steps d := by
  constructor
  · rw [h]
  · rw [evaluate, runIn_bind_ok h, runIn_pure, hd]
  · refine ⟨⟨u, row, rules.length, steps⟩, ?_, rfl, ?_, ?_⟩
    · rw [explainVerdict, runIn_bind_ok h, runIn_pure]
    · rw [VerdictExplanation.allowed, hd]
    · rw [VerdictExplanation.byDefault, hd]
  · apply guarded_of_judged
    rw [isAllowed, runIn_bind_ok h, runIn_behind_audit, runIn_pure, hd]

theorem failAlike_of_trace {f : Fault} (h : (trace rules u row).runIn w s = (.error f, t)) :
    FailAlike w s c table operation u row rules f := by
  constructor
  · rw [h]
  · rw [evaluate, runIn_bind_error h]
  · rw [explainVerdict, runIn_bind_error h]
  · apply guarded_of_judged
    rw [isAllowed, runIn_bind_error h]

end Agreement

/-! ## Rules that are not asked -/

section Recording

open Script (recording)

variable {h : List (Exchange Question.Answer)}

theorem saidBy_recording (rule : Rule) :
    saidBy (recording w) u row (s, h) rule = saidBy w u row s rule := by
  rw [saidBy, runIn_recording, saidBy]

theorem leftBy_recording (rule : Rule) :
    ∃ h', leftBy (recording w) u row (s, h) rule = (leftBy w u row s rule, h') := by
  rw [leftBy, runIn_recording]
  exact ⟨_, rfl⟩

theorem leftByAll_recording (rules : List Rule) :
    ∃ h', leftByAll (recording w) u row (s, h) rules = (leftByAll w u row s rules, h') := by
  induction rules generalizing s h with
  | nil => exact ⟨h, rfl⟩
  | cons rule rest ih =>
    obtain ⟨h', hleft⟩ : ∃ h', leftBy (recording w) u row (s, h) rule =
        (leftBy w u row s rule, h') := leftBy_recording rule
    obtain ⟨h'', hall⟩ := ih (s := leftBy w u row s rule) (h := h')
    refine ⟨h'', ?_⟩
    rw [← hleft] at hall
    exact hall

theorem allPass_recording {rules : List Rule} (hpass : AllPass w u row s rules) :
    AllPass (recording w) u row (s, h) rules := by
  induction rules generalizing s h with
  | nil => trivial
  | cons rule rest ih =>
    obtain ⟨h', hleft⟩ : ∃ h', leftBy (recording w) u row (s, h) rule =
        (leftBy w u row s rule, h') := leftBy_recording rule
    refine ⟨(saidBy_recording rule).trans hpass.1, ?_⟩
    rw [hleft]
    exact ih hpass.2

end Recording

/-- Calls on one list of rules answer as those on another, and ask the same questions. -/
structure Indistinct (w : Surroundings Question Question.Answer σ) (s : σ) (c : Config)
    (table operation : String) (u : User) (row : Option Record) (rules rules' : List Rule) :
    Prop where
  traced : (trace rules u row).runIn w s = (trace rules' u row).runIn w s
  evaluated : (evaluate rules u row).runIn w s = (evaluate rules' u row).runIn w s
  judged : (isAllowed c table operation rules u row).runIn w s =
    (isAllowed c table operation rules' u row).runIn w s
  tracing : (trace rules u row).dialogue w s = (trace rules' u row).dialogue w s
  evaluating : (evaluate rules u row).dialogue w s = (evaluate rules' u row).dialogue w s
  explaining : (explainVerdict rules u row).dialogue w s =
    (explainVerdict rules' u row).dialogue w s
  judging : (isAllowed c table operation rules u row).dialogue w s =
    (isAllowed c table operation rules' u row).dialogue w s

section Inert

variable {c : Config} {table operation : String} {rules rules' : List Rule}

/-- Calls go on alike behind traces that are alike. -/
theorem indistinct_of_trace
    (h : (trace rules u row).runIn w s = (trace rules' u row).runIn w s)
    (hsaid : (trace rules u row).runIn (Script.recording w) (s, []) =
      (trace rules' u row).runIn (Script.recording w) (s, [])) :
    Indistinct w s c table operation u row rules rules' := by
  constructor
  · exact h
  · rw [evaluate, runIn_bind, h, ← runIn_bind, ← evaluate]
  · rw [isAllowed, runIn_bind, h, ← runIn_bind, ← isAllowed]
  · exact dialogue_eq (congrArg Prod.snd hsaid)
  · apply dialogue_eq
    rw [evaluate, runIn_bind, hsaid, ← runIn_bind, ← evaluate]
  · apply dialogue_eq
    rw [explainVerdict, explainVerdict, runIn_bind, runIn_bind, hsaid]
    -- the explanations differ in the number of rules only
    rcases (trace rules' u row).runIn (Script.recording w) (s, []) with ⟨f | steps, t⟩ <;> rfl
  · apply dialogue_eq
    rw [isAllowed, runIn_bind, hsaid, ← runIn_bind, ← isAllowed]

theorem indistinct_behind {before : List Rule} {rule : Rule} (h : AllPass w u row s before)
    (hrule : saidBy w u row (leftByAll w u row s before) rule ≠ .ok .pass) (after after' : List Rule) :
    Indistinct w s c table operation u row (before ++ rule :: after) (before ++ rule :: after') := by
  apply indistinct_of_trace (runIn_trace_inert h hrule after after')
  refine runIn_trace_inert (allPass_recording h) ?_ after after'
  obtain ⟨h', hleft⟩ : ∃ h', leftByAll (Script.recording w) u row (s, []) before =
      (leftByAll w u row s before, h') := leftByAll_recording before
  rw [hleft, saidBy_recording]
  exact hrule

end Inert

/-- Either all rules pass, and then the list denies by default, or a first rule does not. If that one
fails, everything fails as it does; otherwise it has the last word, and in both cases the rules
behind it may be any others: nothing else is answered and nothing else is asked. -/
theorem first_decisive_rule_settles (w : Surroundings Question Question.Answer σ) (s : σ)
    (c : Config) (table operation : String) (u : User) (row : Option Record) :
    (∀ rules, AllPass w u row s rules ∨ ∃ before rule after, rules = before ++ rule :: after ∧
      AllPass w u row s before ∧ saidBy w u row (leftByAll w u row s before) rule ≠ .ok .pass) ∧
    (∀ rules, AllPass w u row s rules →
      Agree w s c table operation u row rules (passedFrom 0 rules) .pass) ∧
    ∀ before rule after, AllPass w u row s before →
      (∀ f, saidBy w u row (leftByAll w u row s before) rule = .error f →
        FailAlike w s c table operation u row (before ++ rule :: after) f) ∧
      (∀ d, saidBy w u row (leftByAll w u row s before) rule = .ok d → d ≠ .pass →
        ∃ steps, Agree w s c table operation u row (before ++ rule :: after) steps d ∧
          steps = passedFrom 0 before ++ [⟨before.length, rule, d⟩] ∧
          steps.length = before.length + 1) ∧
      (saidBy w u row (leftByAll w u row s before) rule ≠ .ok .pass → ∀ after',
        Indistinct w s c table operation u row (before ++ rule :: after)
          (before ++ rule :: after')) := by
  refine ⟨allPass_or_split w u row s, fun rules hpass => ?_, fun before rule after hpass => ?_⟩
  · exact agree_of_trace (runIn_trace_pass hpass) (verdict_passedFrom 0 rules)
  refine ⟨fun f hf => ?_, fun d hd hdecisive => ?_, fun hrule after' => ?_⟩
  · exact failAlike_of_trace (runIn_trace_error hpass hf after)
  · refine ⟨_, ?_, rfl, ?_⟩
    · exact agree_of_trace (runIn_trace_decisive hpass hd hdecisive after)
        (verdict_append_single _ _)
    · simp [length_passedFrom]
  · exact indistinct_behind hpass hrule after after'

/-- Surroundings in which the next template holds, and no other one. -/
def holdsOnce : Rehearsal := .start .empty (some [.holds])

theorem template_settles :
    (∃ steps, Agree Rehearsal.answer holdsOnce .default "posts" "SELECT" visitor none
      [.signedIn, .template "1 = 1", .template ":userId = 1", .unknown .null] steps .allow ∧
      steps.length = 2) ∧
    Indistinct Rehearsal.answer holdsOnce .default "posts" "SELECT" visitor none
      [.signedIn, .template "1 = 1", .template ":userId = 1", .unknown .null]
      [.signedIn, .template "1 = 1"] := by
  have hpass : AllPass Rehearsal.answer visitor none holdsOnce [.signedIn] := ⟨by cbv, trivial⟩
  have hsaid : saidBy Rehearsal.answer visitor none
      (leftByAll Rehearsal.answer visitor none holdsOnce [.signedIn]) (.template "1 = 1") =
      .ok .allow := by cbv
  obtain ⟨-, hdecisive, hinert⟩ :=
    (first_decisive_rule_settles Rehearsal.answer holdsOnce .default "posts" "SELECT" visitor none).2.2
      [.signedIn] (.template "1 = 1") [.template ":userId = 1", .unknown .null] hpass
  obtain ⟨steps, hagree, -, hlength⟩ := hdecisive .allow hsaid (by decide)
  exact ⟨⟨steps, hagree, hlength⟩, hinert (by simp [hsaid]) []⟩

end RowGate.Access
