import RowGate.Query.Basic
import RowGate.Number.Basic
import RowGate.Fault
import RowGate.Text.Basic
/-!
Queries checked against limits, the work that they ask for among them: each clause has a weight,
counted in halves so that sums are exact. All broken limits are reported, in a fixed order.
-/
namespace RowGate

mutual

/-- The conditions and groups in a member, itself included. -/
def GroupMember.size : GroupMember → Nat
  | .condition _ => 1
  | .group _ members _ => 1 + membersSize members

/-- The conditions and groups in a list of members, at all depths. -/
def membersSize : List GroupMember → Nat
  | [] => 0
  | m :: ms => m.size + membersSize ms

end

/-- The weight of a query in halves. Members of groups weigh three halves each, empty groups
included; grouping weighs the same for any number of fields. -/
def Query.halves (q : Query) : Nat :=
  2 * q.conditions.length + 3 * q.ranges.length + 4 * q.isIn.length + 6 * q.exists_.length +
    (if q.groupBy.isEmpty then 0 else 4) + 4 * q.having.length + 6 * q.windows.length +
    3 * membersSize (q.groups.flatMap (·.members))

/-- The weight of a query. -/
def Query.complexity (q : Query) : Float := Number.ofRat (mkRat q.halves 2)

namespace Query

/-- Whether a condition outside groups tests a field. -/
def hasField (q : Query) (field : String) : Bool :=
  q.filter.has field || q.conditions.any (·.field == field) || q.ranges.any (·.field == field) ||
    (q.isIn.lookup field).isSome || (q.notIn.lookup field).isSome || q.nulls.contains field ||
    q.notNulls.contains field

/-- The fields that a query compares or orders by, each once, in order. -/
def filteredFields (q : Query) : List String :=
  Text.distinct (q.filter.keys ++ q.conditions.map (·.field) ++ q.ranges.map (·.field) ++
    q.orderBy.map (·.field))

/-- Whether a query narrows down its rows by a filter, a condition, a range, a test for null or a
group. -/
def hasWhere (q : Query) : Bool :=
  !q.filter.isEmpty || !q.conditions.isEmpty || !q.ranges.isEmpty || !q.nulls.isEmpty ||
    !q.groups.isEmpty

/-- The violations of limits by a query. -/
def violationsOf (q : Query) (limits : Limits) : List Violation :=
  let tooMany :=
    match limits.maxLimit, q.limit.bind (·.number?) with
    | some most, some n => if (Number.int most).less n then [.limitTooLarge most] else []
    | _, _ => []
  let tooComplex :=
    match limits.maxComplexity with
    | some most =>
      if (Number.float most).less (.float q.complexity) then [.tooComplex q.complexity most] else []
    | none => []
  tooMany ++
    (limits.requiredFields.filter (!q.hasField ·)).map .fieldMissing ++
    (limits.disallowedFields.filter q.hasField).map .fieldDisallowed ++ tooComplex

/-- The violations of given limits, or else of the limits that the query itself carries. -/
def violations (q : Query) (limits : Option Limits) : List Violation :=
  match limits <|> q.limits with
  | some l => q.violationsOf l
  | none => []

/-- A query that breaks limits is refused with all violations. -/
def check (q : Query) (limits : Option Limits) : Except Fault Unit :=
  match q.violations limits with
  | [] => .ok ()
  | vs => .error (.invalid vs none)

end Query
end RowGate
