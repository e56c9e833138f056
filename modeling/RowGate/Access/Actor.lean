import RowGate.Access.User
/-!
Ready-made users: a member with chosen traits, an administrator, a guest.
-/
namespace RowGate.User

/-- A user with an identity and a role, and nothing else. -/
def ofRole (id : Value) (role : String) : User := ⟨id, [], [], .text role, none, []⟩

/-- A user without an identity. -/
def anonymous : User := ⟨.null, [], [], .null, none, []⟩

/-- The identity that arguments give, in first place or by name. -/
def idOf (arguments : List Value) (named : Record) : Except Fault Value :=
  match arguments, named.get? "user_id" with
  | [], none => .ok (.int 1)
  | [id], none | [], some id => .ok id
  | _, _ => .error .wrongType

/-- The names of traits; all other names are attributes. -/
def traits : List String := ["user_id", "role", "labels", "teams", "permissions"]

/-- A member with the traits and attributes that arguments name. -/
def member (arguments : List Value) (named : Record) : Except Fault User := do
  let id ← idOf arguments named
  let labels ← asSet ((named.get? "labels").getD (.tuple []))
  let teams ← asSet ((named.get? "teams").getD (.tuple []))
  let permissions ← (named.get "permissions").toOption.mapM asSet
  return {
    id
    labels
    teams
    role := (named.get? "role").getD (.text "user")
    permissions
    attributes := named.filter fun (k, _) => !traits.contains k }

/-- An administrator. -/
def admin (arguments : List Value) (named : Record) : Except Fault User := do
  if named.any fun (k, _) => k != "user_id" then .error .wrongType
  return ofRole (← idOf arguments named) "admin"

/-- A guest, who takes no arguments. -/
def guest (arguments : List Value) (named : Record) : Except Fault User :=
  if arguments.isEmpty && named.isEmpty then .ok anonymous else .error .wrongType

end RowGate.User
