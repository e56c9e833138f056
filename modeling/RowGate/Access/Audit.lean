import RowGate.Access.Decision
/-!
What is logged about decisions: a warning for a denial, else a summary; for rows that were filtered
their number; and each rule that was asked.
-/
namespace RowGate

/-- How access to a table ended. -/
inductive Outcome where
  | allow
  | deny
  /-- There is no entry for the operation. -/
  | notAllowed
  | filter
  | named (name : String)
deriving DecidableEq, Repr

namespace Outcome

/-- The name of an outcome. -/
def name : Outcome → String
  | .allow => "allow"
  | .deny => "deny"
  | .notAllowed => "not_allowed"
  | .filter => "filter"
  | .named name => name

/-- The outcome of a name. -/
def ofName : String → Outcome
  | "allow" => .allow
  | "deny" => .deny
  | "not_allowed" => .notAllowed
  | "filter" => .filter
  | other => .named other

end Outcome

/-- An access to a table, for the log. -/
structure TableAccess where
  table : String
  operation : String
  /-- The identity of the user. -/
  user : Value

/-- An entry of the audit. -/
def auditEntry (level : Level) (message : String) : LogEntry := ⟨level, .audit, message⟩

/-- The entry for a denial. -/
def TableAccess.denial (a : TableAccess) (why : String) : LogEntry :=
  auditEntry .warning ("Table-level denial: " ++ a.operation ++ " on " ++ Text.quoted a.table ++
    " for user " ++ a.user.shown ++ " (" ++ why ++ ")")

/-- The summary of a decision. -/
def TableAccess.summary (a : TableAccess) (outcome : String) (ruleCount : Nat) : LogEntry :=
  auditEntry .info ("Permission decision: " ++ a.operation ++ " on " ++ Text.quoted a.table ++
    " for user " ++ a.user.shown ++ ": " ++ outcome ++ " (" ++ toString ruleCount ++ " rule(s))")

/-- The entry for filtered rows. -/
def TableAccess.filtering (a : TableAccess) (kept total : Nat) : LogEntry :=
  auditEntry .debug ("Row-level filtering on " ++ Text.quoted a.table ++ ": kept " ++ toString kept ++
    " of " ++ toString total ++ " row(s)")

/-- The entries for a decision. -/
def TableAccess.entries (a : TableAccess) (outcome : Outcome) (ruleCount : Nat)
    (counts : Option (Nat × Nat)) : List LogEntry :=
  match outcome with
  | .deny => [a.denial "rules denied"]
  | .notAllowed => [a.denial "no permission entry"]
  | outcome =>
    a.summary outcome.name ruleCount ::
      (counts.map fun (kept, total) => a.filtering kept total).toList

/-- The entries for rules that were asked. -/
def traceEntries (table operation : String) (steps : List TraceStep) : List LogEntry :=
  steps.map fun s =>
    auditEntry .debug ("Rule " ++ toString s.index ++ " (" ++ s.rule.kind ++ ") on " ++ table ++
      "." ++ operation ++ ": " ++ s.decision.name)

end RowGate
