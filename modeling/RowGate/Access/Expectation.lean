import RowGate.Access.Explanation
import RowGate.Review.Explanation
import RowGate.Text.Basic
/-!
Expectations of tests: operations in the order of their stages, rules that allow or deny, statements
that hold a text. An expectation that is not met fails with a description.
-/
namespace RowGate.Expect

/-- No operation comes after one of a later stage. -/
def ordered : List (String × Stage) → Except Fault Unit
  | (kind, stage) :: (next, nextStage) :: rest =>
    if nextStage.position < stage.position then
      .error (.failedCheck (.stageOrder next nextStage.name kind stage.name))
    else ordered ((next, nextStage) :: rest)
  | _ => .ok ()

/-- Operations are of the expected kinds, if any are given, and in the order of their stages. -/
def operations (kinds : List String) (expected : Value) : Except Fault Unit := do
  match expected with
  | .null => pure ()
  | v =>
    match v.items? with
    | none => .error .wrongType
    | some vs =>
      if !(Value.texts kinds).same (.list vs) then
        .error (.failedCheck (.otherOperations (.list vs) kinds))
  ordered (← kinds.mapM fun k => do return (k, ← Stage.ofKind k))

/-- Rules allow a user. -/
def allowed (rules : List Rule) (u : User) (row : Option Record) : Access.Checking Unit := do
  let e ← explainVerdict rules u row
  if !e.allowed then throw (.failedCheck (.notAllowed e.text))

/-- Rules deny a user. -/
def denied (rules : List Rule) (u : User) (row : Option Record) : Access.Checking Unit := do
  let e ← explainVerdict rules u row
  if e.allowed then throw (.failedCheck (.notDenied e.text))

/-- The statement of a query holds a text. -/
def sql (table : String) (q : Query) (text : String) : Logged Unit := do
  let e ← q.explain [] table
  if !Text.contains e.sql text then throw (.failedCheck (.sqlWithout text e.sql))

end RowGate.Expect
