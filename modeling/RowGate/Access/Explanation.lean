import RowGate.Access.Decision
/-!
Why rules allow or deny a user: the rules that were asked, in order, and the verdict.
-/
namespace RowGate

/-- The description of a verdict. -/
structure VerdictExplanation where
  user : User
  row : Option Record
  ruleCount : Nat
  steps : List TraceStep

/-- The description of the verdict of rules. -/
def explainVerdict (rules : List Rule) (u : User) (row : Option Record) :
    Access.Checking VerdictExplanation := do
  return ⟨u, row, rules.length, ← trace rules u row⟩

namespace VerdictExplanation

/-- Whether the verdict is to allow. -/
def allowed (e : VerdictExplanation) : Bool := verdict e.steps = .allow

/-- Whether no rule said anything. -/
def byDefault (e : VerdictExplanation) : Bool := verdict e.steps = .pass

/-- A rule that was asked as a map. -/
def stepToValue (s : TraceStep) : Value :=
  .map [("index", .int s.index), ("kind", .text s.rule.kind), ("rule", s.rule.toValue),
    ("decision", .text s.decision.name)]

/-- A description as a map. -/
def toValue (e : VerdictExplanation) : Value :=
  .map [("user_repr", .text e.user.shown), ("row", (e.row.map Value.map).getD .null),
    ("rules_found", .int e.ruleCount), ("evaluations", .list (e.steps.map stepToValue)),
    ("allowed", .bool e.allowed), ("deny_by_default", .bool e.byDefault)]

/-- A description as lines of text. -/
def text (e : VerdictExplanation) : String :=
  String.intercalate "\n"
    (["Rule Evaluation: " ++ (if e.allowed then "ALLOWED" else "DENIED"),
      "  User: " ++ e.user.shown] ++
      (e.row.map fun r => "  Row: " ++ (Value.map r).shown).toList ++
      ["", "  Rules (" ++ toString e.ruleCount ++ "):"] ++
      (e.steps.map fun s => "    " ++ toString s.index ++ ". " ++ s.rule.kind ++ " [" ++
        Text.upper s.decision.name ++ "]") ++
      if e.byDefault then ["  DENY BY DEFAULT (no rule decided)"] else [])

end VerdictExplanation
end RowGate
