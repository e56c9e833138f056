import RowGate.Value.Order
/-!
Users: who asks. A user without an identity is a guest.
-/
namespace RowGate

/-- A user. Labels, teams and permissions are sets. -/
structure User where
  id : Value
  labels : List Value
  teams : List Value
  role : Value
  permissions : Option (List Value)
  attributes : Record

namespace User

/-- The items of a value as a set. -/
def asSet (v : Value) : Except Fault (List Value) :=
  match v.items? with
  | some vs => if vs.all Value.isHashable then .ok (Value.distinct vs) else .error .wrongType
  | none => .error .wrongType

/-- The items of a value as a set; a value that counts as false has none. -/
def asSetOrEmpty (v : Value) : Except Fault (List Value) := if v.truthy then asSet v else .ok []

/-- Keys with a meaning of their own; all others name attributes. -/
def ownKeys : List String := ["userId", "user_id", "labels", "teams", "role", "permissions"]

/-- A user of a request. -/
def read (r : Record) : Except Fault User := do
  let labels ← asSetOrEmpty (r.get "labels")
  let teams ← asSetOrEmpty (r.get "teams")
  let permissions ← (r.get "permissions").toOption.mapM asSet
  return {
    id := (r.get? "userId").getD (r.get "user_id")
    labels
    teams
    role := r.get "role"
    permissions
    attributes := r.filter fun (k, _) => !ownKeys.contains k }

/-- A user without an identity. -/
def isGuest (u : User) : Bool := u.id.isNull

/-- A sorted set as a list. -/
def sorted (vs : List Value) : Except Fault Value := do return .list (← sortValues vs)

/-- A value of a user by name; none if the user has no such value. -/
def lookup? (u : User) (name : String) : Except Fault (Option Value) := do
  match name with
  | "userId" | "user_id" => return some u.id
  | "labels" => return some (← sorted u.labels)
  | "teams" => return some (← sorted u.teams)
  | "role" => return some u.role
  | "permissions" =>
    match u.permissions with
    | some vs => return some (← sorted vs)
    | none => return some .null
  | _ => return u.attributes.get? name

/-- A value of a user by name, null if the user has no such value. -/
def value (u : User) (name : String) : Except Fault Value := do
  return (← u.lookup? name).getD .null

/-- A user as a map; an absent role and absent permissions are left out. -/
def toRecord (u : User) : Except Fault Record := do
  let labels ← sorted u.labels
  let teams ← sorted u.teams
  let permissions ← u.permissions.mapM sorted
  return Record.overlay
    ([("userId", u.id), ("labels", labels), ("teams", teams)] ++
      (u.role.toOption.map fun r => ("role", r)).toList ++
      (permissions.map fun p => ("permissions", p)).toList) u.attributes

/-- A user as messages show it. -/
def shown (u : User) : String :=
  "UserContext(user_id=" ++ u.id.shown ++ ", labels=" ++ (Value.set u.labels).shown ++
    ", teams=" ++ (Value.set u.teams).shown ++ ", role=" ++ u.role.shown ++ ", permissions=" ++
    ((u.permissions.map Value.set).getD .null).shown ++ ", attributes=" ++
    (Value.map u.attributes).shown ++ ")"

end User
end RowGate
