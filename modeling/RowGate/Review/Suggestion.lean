import RowGate.Review.ExecutionPlan
import RowGate.Review.Limits
import RowGate.Config
import RowGate.Log
/-!
Advice on a query from its execution plan. Advice stops nothing: a plan that makes no sense gives no
advice and a warning in the log.
-/
namespace RowGate

/-- A piece of advice. -/
inductive Suggestion where
  /-- The plan reads whole tables; these fields have no index. -/
  | scans (fields : List String)
  | joins
  | unfiltered
  | sorting
deriving DecidableEq, Repr

/-- The wording of a piece of advice. -/
def Suggestion.message : Suggestion → String
  | .scans fields => "Query contains table scans. Consider adding indexes for: " ++ commas fields
  | .joins => "Query contains potentially inefficient joins. " ++
      "Consider denormalization or adding appropriate indexes."
  | .unfiltered => "Query on large table without WHERE clause. Consider adding filters."
  | .sorting => "Inefficient sorting detected. Consider adding indexes for ORDER BY fields."

open ExecutionPlan

/-- Whether a plan has joins that cost too much. -/
def hasCostlyJoins (w : Walk) (most : Value) : Except Fault Bool := do
  if ← hasLoops w most then return true
  else if ← hasCartesianJoin w then return true
  else return 1 < (← unindexedJoins w)

/-- Whether a table of an estimated size is large. -/
def isLarge (estimate : Value) (most : Value) : Except Fault Bool :=
  if estimate.isNull then .ok false else most.less estimate

/-- Whether the table of a plan is large, where the plan gives the size unless an estimate does. -/
def isLargeTable (top : Option Record) (estimate most : Value) : Except Fault Bool :=
  isLarge (if estimate.isNull then ((top.map (·.get "Plan Rows")).getD .null) else estimate) most

/-- The advice on a query for a plan. -/
def Query.advice (q : Query) (c : Config) (indexed : List String) (estimate plan : Value) :
    Except Fault (List Suggestion) := do
  let top := root plan
  let w := walk top
  let scans := if ← hasScan w then
      [Suggestion.scans (q.filteredFields.filter (!indexed.contains ·))]
    else []
  let joins := if ← hasCostlyJoins w c.maxJoins then [Suggestion.joins] else []
  let unfiltered := if (← isLargeTable top estimate c.largeTable) && !q.hasWhere then
      [Suggestion.unfiltered]
    else []
  let sorting := if ← hasCostlySort w (q.orderBy.map (·.field)) c.sortMemory then
      [Suggestion.sorting]
    else []
  return scans ++ joins ++ unfiltered ++ sorting

/-- The advice on a query; a plan that makes no sense gives none. -/
def Query.suggestions (q : Query) (c : Config) (indexed : List String) (estimate plan : Value) :
    Logged (List Suggestion) := do
  match q.advice c indexed estimate plan with
  | .ok advice => return advice
  | .error _ =>
    logEntry .warning .review "Could not compute optimization suggestions"
    return []

end RowGate
