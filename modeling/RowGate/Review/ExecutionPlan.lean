import RowGate.Value.Order
import RowGate.Value.Text
import RowGate.Text.Basic
import RowGate.Query.Basic
/-!
Execution plans of a database: trees of nodes, each a map with its children under `Plans`. What a
plan looks like is not checked beforehand. A walk goes depth first and may break off at something
that is no node; what it met before that still counts.
-/
namespace RowGate.ExecutionPlan

/-- The node at the top of a plan, which may stand in a list or under `Plan`. -/
def root (plan : Value) : Option Record :=
  let first := match plan with
    | .list vs => vs.head?.getD .null
    | v => v
  let inner := match first with
    | .map fields => (fields.lookup "Plan").getD first
    | v => v
  match inner with
  | .map fields => some fields
  | _ => none

/-- The nodes that a walk meets, and why it breaks off, if it does. -/
structure Walk where
  nodes : List Record
  failure : Option Fault

namespace Walk

/-- A walk that meets nothing. -/
def empty : Walk := ⟨[], none⟩

/-- A walk that breaks off at once. -/
def broken (f : Fault) : Walk := ⟨[], some f⟩

/-- One walk after another; a walk that breaks off is the end. -/
def append (a b : Walk) : Walk :=
  match a.failure with
  | some _ => a
  | none => ⟨a.nodes ++ b.nodes, b.failure⟩

/-- A node, then a walk. -/
def cons (node : Record) (w : Walk) : Walk := ⟨node :: w.nodes, w.failure⟩

/-- The end of a walk: nothing, or its failure. -/
def finish {α : Type} (w : Walk) (a : α) : Except Fault α :=
  match w.failure with
  | some f => .error f
  | none => .ok a

/-- All nodes of a walk that does not break off. -/
def all (w : Walk) : Except Fault (List Record) := w.finish w.nodes

/-- Whether some node has a property. A walk is followed up to the first such node. -/
def any (w : Walk) (p : Record → Bool) : Except Fault Bool :=
  if w.nodes.any p then .ok true else w.finish false

end Walk

/-- The end of a walk at something that is no map: nothing is skipped. -/
def atOther (v : Value) : Walk := if v.truthy then .broken .noSuchName else .empty

mutual

/-- The walk from a node. -/
def walkFrom : Value → Walk
  | .map [] => .empty
  | .map (f :: fs) => .cons (f :: fs) (walkBelow (f :: fs))
  | v => atOther v

/-- The walk through the children among the fields of a node. -/
def walkBelow : List (String × Value) → Walk
  | [] => .empty
  | (k, v) :: rest => if k = "Plans" then walkAmong v else walkBelow rest

/-- The walk through the items of a value. -/
def walkAmong : Value → Walk
  | .list vs => walkAll vs
  | .tuple vs => walkAll vs
  | .set vs => walkAll vs
  | v =>
    if !v.truthy then .empty
    else
      match v.items? with
      | some vs => vs.foldr (fun v w => (atOther v).append w) .empty
      | none => .broken .wrongType

/-- The walks from several nodes, one after another. -/
def walkAll : List Value → Walk
  | [] => .empty
  | v :: rest => (walkFrom v).append (walkAll rest)

end

/-- The walk through a plan. -/
def walk (top : Option Record) : Walk :=
  match top with
  | some fields => walkFrom (.map fields)
  | none => .empty

/-- A field of a node; one that counts as false is absent. -/
def present? (node : Record) (field : String) : Option Value :=
  let v := node.get field
  if v.truthy then some v else none

/-- The text of a field, empty if it is absent. -/
def textUnder (node : Record) (field : String) : String :=
  ((present? node field).map Value.plain).getD ""

/-- Whether the type of a node has a part. -/
def isOfType (part : String) (node : Record) : Bool :=
  Text.contains (textUnder node "Node Type") part

/-- Whether a node reads a whole table. -/
def isScan (node : Record) : Bool := isOfType "Seq Scan" node || isOfType "Full Table Scan" node

/-- Whether a plan reads a whole table. -/
def hasScan (w : Walk) : Except Fault Bool := w.any isScan

/-- Whether a plan has nested loops and more joins than a count. -/
def hasLoops (w : Walk) (most : Value) : Except Fault Bool := do
  let nodes ← w.all
  if !nodes.any (isOfType "Nested Loop") then return false
  else
    let joins := nodes.filter fun n => isOfType "Join" n || isOfType "Nested Loop" n
    most.less (.int joins.length)

/-- Whether a plan joins without a condition. -/
def hasCartesianJoin (w : Walk) : Except Fault Bool :=
  w.any fun n => isOfType "Join" n && (present? n "Join Type").isNone

/-- Whether a node joins without an index, other than as an inner join. -/
def isUnindexedJoin (node : Record) : Bool :=
  isOfType "Join" node && (present? node "Index Cond").isNone &&
    !(node.get "Join Type").same (.text "Inner")

/-- The number of joins without an index. -/
def unindexedJoins (w : Walk) : Except Fault Nat := do
  return ((← w.all).filter isUnindexedJoin).length

/-- Whether a sort spills to disk beyond a size, or sorts by a field of the query without an
index. -/
def isCostlySort (fields : List String) (most : Value) (node : Record) : Except Fault Bool := do
  let spills ← if Text.contains (textUnder node "Sort Method") "external merge" then
      most.less ((present? node "Sort Space Used").getD (.int 0))
    else pure false
  if spills then return true
  else if (present? node "Index Name").isSome then return false
  else
    match ((present? node "Sort Key").getD (.list [])).items? with
    | some keys => return keys.any fun key => fields.any fun f => Text.contains key.plain f
    | none => throw .wrongType

/-- Whether one of some nodes is a costly sort; the nodes behind the first one are not looked at. -/
def someCostly (fields : List String) (most : Value) : List Record → Except Fault Bool
  | [] => .ok false
  | n :: rest =>
    if isOfType "Sort" n then do
      if ← isCostlySort fields most n then return true else someCostly fields most rest
    else someCostly fields most rest

/-- Whether a plan has a costly sort, for a query that asks for an order. -/
def hasCostlySort (w : Walk) (fields : List String) (most : Value) : Except Fault Bool := do
  if fields.isEmpty then return false
  else if ← someCostly fields most w.nodes then return true
  else w.finish false

end RowGate.ExecutionPlan
