import RowGate.Access.Audit
import RowGate.Config
/-!
The gate: rules applied to rows that are read and to records that are written. Rules are fetched for
each request. Where a rule compares a field, each row is judged by itself and rows that fail are
dropped; otherwise the rules are asked once and allow all rows or none.
-/
namespace RowGate.Access

/-- Writes the entries of the audit if decisions are logged. -/
def audit (c : Config) (entries : List LogEntry) : Checking Unit :=
  if c.logDecisions.truthy then logAll entries else return

/-- The rules of a table for an operation. -/
def rulesFor (c : Config) (table operation : String) (u : Option User) : Checking (List Rule) := do
  let operation := Text.upper operation
  match Action.ofName? operation with
  | none => throw (.noEntry table operation)
  | some _ =>
    let entry := (← permissionsOf table).bind (·.rulesFor operation)
    match entry, u with
    | some rules, _ => return rules
    | none, some u =>
      audit c (TableAccess.entries ⟨table, operation, u.id⟩ .notAllowed 0 none)
      throw (.noEntry table operation)
    | none, none => throw (.noEntry table operation)

/-- Whether rules allow a user and a row, with the rules that were asked in the log. -/
def isAllowed (c : Config) (table operation : String) (rules : List Rule) (u : User)
    (row : Option Record) : Checking Bool := do
  let steps ← trace rules u row
  audit c (traceEntries table operation steps)
  return verdict steps = .allow

/-- The rows that rules allow one by one. -/
def allowedRows (c : Config) (table operation : String) (rules : List Rule) (u : User) :
    List Record → Checking (List Record)
  | [] => return []
  | row :: rest => do
    let kept ← isAllowed c table operation rules u (some row)
    let others ← allowedRows c table operation rules u rest
    return if kept then row :: others else others

/-- Rules applied to rows. No rules allow all rows. -/
def checkRules (c : Config) (table operation : String) (rules : List Rule) (rows : List Record)
    (u : User) : Checking (List Record) := do
  let access : TableAccess := ⟨table, operation, u.id⟩
  if rules.isEmpty then
    audit c (access.entries .allow 0 none)
    return rows
  else if hasFieldCheck rules then
    let kept ← allowedRows c table operation rules u rows
    audit c (access.entries .filter rules.length (some (kept.length, rows.length)))
    return kept
  else if ← isAllowed c table operation rules u none then
    audit c (access.entries .allow rules.length none)
    return rows
  else
    audit c (access.entries .deny rules.length none)
    throw (.denied table operation u.shown none)

/-- The rows that a user may see. -/
def authorizeRows (c : Config) (table operation : String) (rows : List Record) (u : User) :
    Checking (List Record) := do
  let operation := Text.upper operation
  let rules ← rulesFor c table operation (some u)
  checkRules c table operation rules rows u

/-- The wording of a batch of which some records are denied. -/
def batchWording (table operation : String) (denied total : Nat) : String :=
  toString denied ++ " of " ++ toString total ++ " record(s) not permitted for operation \"" ++
    operation ++ "\" on table \"" ++ table ++ "\""

/-- The records that a user may write. A batch of which some records are denied is rejected or cut
down, as the configuration says. -/
def authorizeWrite (c : Config) (table operation : String) (records : List Record) (u : User) :
    Checking (List Record) := do
  let operation := Text.upper operation
  let rules ← rulesFor c table operation (some u)
  let allowed ← checkRules c table operation rules records u
  let denied := records.length - allowed.length
  if denied != 0 && c.writeMode == .raise then
    throw (.denied table operation u.shown
      (some (batchWording table operation denied records.length)))
  else return allowed

/-- Hands over the records that a user may write, if there are any. -/
def guardedWrite (c : Config) (table operation : String) (records : List Record) (u : User) :
    Checking (Option Nat) := do
  let allowed ← authorizeWrite c table operation records u
  if allowed.isEmpty then return none else return some (← handOver allowed)

end RowGate.Access
