import RowGate.Access.Rule
import RowGate.Access.User
import RowGate.Access.Template
import RowGate.Value.Strict
import RowGate.Script
import RowGate.Log
/-!
Decisions: what a rule says about a user and, where it asks for one, a row. The first rule that
allows or denies settles a list of rules; a list that settles nothing denies.
-/
namespace RowGate

/-- What a rule says. -/
inductive Decision where
  | allow
  | deny
  /-- The rule does not apply; the next one is asked. -/
  | pass
deriving DecidableEq, Repr

/-- The name of a decision. -/
def Decision.name : Decision → String
  | .allow => "allow"
  | .deny => "deny"
  | .pass => "continue"

namespace Access

/-- What access control asks of its surroundings. -/
inductive Question where
  /-- Whether a template holds for values of a user and a row. -/
  | holds (template : String) (context row : Record)
  /-- The rules of a table. -/
  | permissions (table : String)
  /-- Hands records over to be written. -/
  | write (records : List Record)
  | log (entry : LogEntry)

/-- The answers to a question. -/
abbrev Question.Answer : Question → Type
  | .holds .. => Except Fault Bool
  | .permissions _ => Except Fault (Option Permissions)
  | .write _ => Except Fault Nat
  | .log _ => Unit

/-- Access control: asks questions and may fail. -/
abbrev Checking (α : Type) := Asking Question Question.Answer α

/-- Asks whether a template holds. -/
def holds (template : String) (context row : Record) : Checking Bool :=
  ExceptT.mk (Script.once (Question.holds template context row))

/-- Asks for the rules of a table. -/
def permissionsOf (table : String) : Checking (Option Permissions) :=
  ExceptT.mk (Script.once (Question.permissions table))

/-- Hands records over. -/
def handOver (records : List Record) : Checking Nat :=
  ExceptT.mk (Script.once (Question.write records))

/-- Writes entries of the log. -/
def logAll : List LogEntry → Checking Unit
  | [] => return
  | e :: es => do
    let _ ← (Asking.ask (Question.log e) : Checking Unit)
    logAll es

end Access

open Access

/-- The value that a field check compares with; a user without the value has none. -/
def Operand.value? (o : Operand) (u : User) : Except Fault (Option Value) := do
  match o with
  | .literal v => return some v
  | .context name => return (← u.value name).toOption

/-- Whether a field check holds between two values; one that looks among the items of something else
than a list does not apply. -/
def CheckOperator.compare (o : CheckOperator) (actual expected : Value) :
    Except Fault (Option Bool) := do
  match o with
  | .equal => return some (← actual.strictlySame expected)
  | .unequal => return some (!(← actual.strictlySame expected))
  | .isIn | .notIn =>
    match expected with
    | .list vs | .tuple vs | .set vs =>
      let among ← actual.strictlyAmong vs
      return some (if o = .isIn then among else !among)
    | _ => return none

/-- What a field check says about a row. Without a row, or without the value of the user that it
names, it does not apply. -/
def FieldCheck.decide (c : FieldCheck) (u : User) (row : Option Record) :
    Except Fault Decision := do
  match row with
  | none => return .pass
  | some r =>
    match ← c.operand.value? u with
    | none => return .pass
    | some expected =>
      match ← c.operator.compare (r.get c.field) expected with
      | some true => return .allow
      | _ => return .pass

/-- The values of a user that a template asks for; each has to be there. -/
def contextOf (u : User) : List String → Except Fault Record
  | [] => .ok []
  | n :: rest => do
    match ← u.value n with
    | .null => .error (.missingContext n)
    | v => return (n, v) :: (← contextOf u rest)

/-- What a rule says about a user and a row. -/
def Rule.decide (rule : Rule) (u : User) (row : Option Record) : Checking Decision := do
  match rule with
  | .everyone => return .allow
  | .nobody => return .deny
  | .role roles => return if roles.any (fun r => u.role.same (.text r)) then .allow else .deny
  | .signedIn => return if u.isGuest then .pass else .allow
  | .guest => return if u.isGuest then .allow else .pass
  | .labels names => return if names.any (fun n => u.labels.any (·.same (.text n))) then .allow
      else .pass
  | .teams names => return if names.any (fun n => u.teams.any (·.same (.text n))) then .allow
      else .pass
  | .constant allow => return if allow then .allow else .deny
  | .field check => check.decide u row
  | .template sql =>
    let context ← contextOf u (Template.contextNames sql)
    return if ← holds sql context (row.getD []) then .allow else .pass
  | .unknown got => throw (.unsupported (.ruleType got))

/-- A rule that was asked: its place in the list, and what it said. -/
structure TraceStep where
  index : Nat
  rule : Rule
  decision : Decision

/-- Asks rules in order, the first of which has number `index`, up to the first that does not pass. -/
def traceFrom (u : User) (row : Option Record) (index : Nat) :
    List Rule → Checking (List TraceStep)
  | [] => return []
  | rule :: rest => do
    let decision ← rule.decide u row
    if decision = .pass then
      return ⟨index, rule, decision⟩ :: (← traceFrom u row (index + 1) rest)
    else return [⟨index, rule, decision⟩]

/-- The rules of a list that were asked. -/
def trace (rules : List Rule) (u : User) (row : Option Record) : Checking (List TraceStep) :=
  traceFrom u row 0 rules

/-- What the rules that were asked say together: what the last one said. -/
def verdict (steps : List TraceStep) : Decision :=
  match steps.getLast? with
  | some s => s.decision
  | none => .pass

/-- Whether rules allow a user, and a row if there is one. -/
def evaluate (rules : List Rule) (u : User) (row : Option Record) : Checking Bool := do
  return verdict (← trace rules u row) = .allow

/-- Whether a list has a rule that compares a field of a row. -/
def hasFieldCheck (rules : List Rule) : Bool := rules.any (·.isFieldCheck)

end RowGate
