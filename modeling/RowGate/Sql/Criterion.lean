import RowGate.Plan.Identifier
import RowGate.Query.Basic
import RowGate.Sql.RawText
/-!
Conditions of statements: tests of single columns, joined by AND and OR. Joined conditions are flat:
no conjunction is a direct part of a conjunction, and no disjunction of a disjunction.
-/
namespace RowGate.Sql

/-- A column of a statement: a name, a name with its table, or a text that stands as it is. -/
inductive Column where
  | named (name : String)
  | inTable (schema : Option String) (table name : String)
  | verbatim (text : String)
deriving DecidableEq, Repr

namespace Column

/-- A checked column. Paths and the star stand as they are. -/
def of (name : String) : Except Fault Column := do
  let name ← checkColumn name
  return if name = "*" || name.toList.contains '.' then .verbatim name else .named name

/-- The name of a column without quotes and without its table. -/
def key : Column → String
  | .named n => n
  | .inTable _ _ n => n
  | .verbatim t => t

end Column

/-- Comparison operators. -/
inductive Comparison where
  | equal | unequal | less | atMost | greater | atLeast
deriving DecidableEq, Repr

/-- The sign of a comparison. -/
def Comparison.sign : Comparison → String
  | .equal => "="
  | .unequal => "!="
  | .less => "<"
  | .atMost => "<="
  | .greater => ">"
  | .atLeast => ">="

/-- A test of a column, or raw text. -/
inductive Test where
  | isNull (c : Column) (negated : Bool)
  /-- A comparison with a constant truth value. -/
  | isTruth (c : Column) (equal : Bool) (b : Bool)
  | compare (c : Column) (op : Comparison) (v : Value)
  | like (c : Column) (negated : Bool) (v : Value)
  /-- A pattern that matches letters of either case. -/
  | likeAnyCase (c : Column) (v : Value)
  | between (c : Column) (low high : Value)
  | isIn (c : Column) (negated : Bool) (vs : List Value)
  | raw (r : RawText)

/-- Things joined by AND and OR. -/
inductive Joined (α : Type) where
  | one (a : α)
  | all (parts : List (Joined α))
  | any (parts : List (Joined α))

namespace Joined

variable {α : Type}

/-- The parts of a conjunction; anything else is one part. -/
def conjuncts : Joined α → List (Joined α)
  | .all parts => parts
  | j => [j]

/-- The parts of a disjunction; anything else is one part. -/
def disjuncts : Joined α → List (Joined α)
  | .any parts => parts
  | j => [j]

/-- A conjunction of two. -/
def and (a b : Joined α) : Joined α := .all (a.conjuncts ++ b.conjuncts)

/-- A disjunction of two. -/
def or (a b : Joined α) : Joined α := .any (a.disjuncts ++ b.disjuncts)

/-- The conjunction of a list; an empty list has none. -/
def conjunction : List (Joined α) → Option (Joined α)
  | [] => none
  | [j] => some j
  | js => some (.all (js.flatMap conjuncts))

/-- Joins two by a connective. -/
def join (c : Connective) (a b : Joined α) : Joined α :=
  match c with
  | .and => a.and b
  | .or => a.or b

/-- Whether AND binds a condition only in parentheses. -/
def isLoose : Joined α → Bool
  | .any _ => true
  | _ => false

end Joined

/-- A piece of a written condition. -/
inductive Piece (α : Type) where
  | one (a : α)
  | join (c : Connective)
  | open_
  | close

mutual

/-- A condition as pieces: an alternative within a conjunction stands in parentheses. -/
def Joined.pieces {α : Type} : Joined α → List (Piece α)
  | .one a => [.one a]
  | .all parts => conjunctPieces true parts
  | .any parts => disjunctPieces true parts

/-- The parts of a conjunction; `first` tells that no AND precedes them. -/
def conjunctPieces {α : Type} (first : Bool) : List (Joined α) → List (Piece α)
  | [] => []
  | j :: rest =>
    (if first then [] else [.join .and]) ++
      (if j.isLoose then [.open_] ++ j.pieces ++ [.close] else j.pieces) ++
      conjunctPieces false rest

/-- The parts of a disjunction; `first` tells that no OR precedes them. -/
def disjunctPieces {α : Type} (first : Bool) : List (Joined α) → List (Piece α)
  | [] => []
  | j :: rest =>
    (if first then [] else [.join .or]) ++ j.pieces ++ disjunctPieces false rest

end

/-- A condition of a statement. -/
abbrev Criterion := Joined Test

/-- The values of a list operand; texts and bytes are no lists. -/
def asValues (v : Value) : Except Fault (List Value) :=
  match v with
  | .text _ | .bytes _ => .error (.violation (.notValues v))
  | v =>
    match v.items? with
    | some vs => .ok vs
    | none => .error (.violation (.notValues v))

/-- The bounds of a range operand. -/
def asBounds (v : Value) : Except Fault (Value × Value) := do
  match ← asValues v with
  | [low, high] => return (low, high)
  | _ => .error (.violation (.notBounds v))

namespace Test

/-- A test that takes neither null nor a truth value. -/
def ordered (v : Value) (t : Test) : Except Fault Test :=
  match v with
  | .null | .bool _ => .error .badArgument
  | _ => .ok t

/-- Equality, or its negation: null is tested as absence, and a truth value is a constant. -/
def equality (c : Column) (equal : Bool) (v : Value) : Test :=
  match v with
  | .null => .isNull c (!equal)
  | .bool b => .isTruth c equal b
  | v => .compare c (if equal then .equal else .unequal) v

/-- The test that an operator names; none if there is no such operator. -/
def ofOperator? (operator : String) : Option (Column → Value → Except Fault Test) :=
  match operator with
  | "=" => some fun c v => .ok (equality c true v)
  | "!=" | "<>" => some fun c v => .ok (equality c false v)
  | "<" => some fun c v => ordered v (.compare c .less v)
  | "<=" => some fun c v => ordered v (.compare c .atMost v)
  | ">" => some fun c v => ordered v (.compare c .greater v)
  | ">=" => some fun c v => ordered v (.compare c .atLeast v)
  | "like" => some fun c v => ordered v (.like c false v)
  | "ilike" => some fun c v => ordered v (.likeAnyCase c v)
  | "not like" => some fun c v => ordered v (.like c true v)
  | "in" => some fun c v => return .isIn c false (← asValues v)
  | "not in" => some fun c v => return .isIn c true (← asValues v)
  | "between" => some fun c v => do
    let (low, high) ← asBounds v
    return .between c low high
  | "is null" => some fun c _ => .ok (.isNull c false)
  | "is not null" => some fun c _ => .ok (.isNull c true)
  | _ => none

/-- The test of a field by an operator. -/
def of (field operator : String) (v : Value) : Except Fault Test :=
  match ofOperator? operator with
  | some test => do test (← Column.of field) v
  | none => .error (.unsupported (.operator (.text operator)))

end Test

/-- The test of a condition. -/
def conditionTest (c : Condition) : Except Fault Test :=
  Test.of c.field c.operator c.value

/-- Appends a condition to those before it; its own joiner wins over the group's connective. -/
def joinNext (connective : Connective) (joiner : Option Connective) (before : Option Criterion)
    (next : Criterion) : Criterion :=
  match before with
  | none => next
  | some j => j.join (joiner.getD connective) next

/-- The conditions of group members, joined from left to right to those before them. A group without
conditions at any depth leaves no trace. -/
def membersCriterion (connective : Connective) (before : Option Criterion) :
    List GroupMember → Except Fault (Option Criterion)
  | [] => .ok before
  | .condition c :: rest => do
    let test ← conditionTest c
    membersCriterion connective (some (joinNext connective c.joiner before (.one test))) rest
  | .group inner members joiner :: rest => do
    match ← membersCriterion inner none members with
    | none => membersCriterion connective before rest
    | some j => membersCriterion connective (some (joinNext connective joiner before j)) rest

/-- The condition of a group, if it has any. -/
def groupCriterion (g : Group) : Except Fault (Option Criterion) :=
  membersCriterion g.connective none g.members

end RowGate.Sql
