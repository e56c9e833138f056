import RowGate.Fault
/-!
Failures stated by a caller: by the name of their kind and arguments, in order or by name.
-/
namespace RowGate.Fault

/-- The kinds of failure that can be stated. -/
inductive Kind where
  | general | invalid | notAllowed | denied | missingContext | unsupported
deriving DecidableEq, Repr

/-- The text of a failure that is stated by values: none is empty, one is its own text. -/
def wordingOf : List Value → String
  | [] => ""
  | [v] => v.plain
  | vs => (Value.tuple vs).shown

/-- A named argument that has to be there. -/
def required (named : Record) (name : String) : Except Fault Value :=
  match named.get? name with
  | some v => .ok v
  | none => .error .wrongType

/-- Nothing is named but the given names. -/
def namesOnly (named : Record) (names : List String) : Except Fault Unit :=
  if named.all fun (k, _) => names.contains k then .ok () else .error .wrongType

/-- Named arguments only. -/
def noArguments (arguments : List Value) : Except Fault Unit :=
  if arguments.isEmpty then .ok () else .error .wrongType

/-- The wording that replaces the usual one. -/
def wording? (named : Record) : Option String :=
  ((named.get "message").toOption).map Value.plain

/-- The violations of a request that breaks rules. In the usual wording each has to be a text. -/
def statedViolations (violations : Value) (wording : Option String) :
    Except Fault (List Violation) :=
  match violations.items? with
  | none => .error .wrongType
  | some vs =>
    if wording.isSome || vs.all (fun v => v.typeName == "str") then .ok (vs.map .stated)
    else .error .wrongType

/-- A stated failure. -/
def state (kind : Kind) (arguments : List Value) (named : Record) : Except Fault Fault := do
  match kind with
  | .general =>
    namesOnly named []
    return .general (wordingOf arguments)
  | .unsupported =>
    namesOnly named []
    return .unsupported (.stated (wordingOf arguments))
  | .invalid =>
    let wording := wording? named
    match arguments, named.get? "violations" with
    | [v], none =>
      namesOnly named ["message"]
      return .invalid (← statedViolations v wording) wording
    | [], some v =>
      namesOnly named ["violations", "message"]
      return .invalid (← statedViolations v wording) wording
    | _, _ => .error .wrongType
  | .notAllowed =>
    noArguments arguments
    namesOnly named ["table", "operation", "message"]
    let table ← required named "table"
    let operation ← required named "operation"
    return .notAllowed table.plain operation.plain (wording? named)
  | .denied =>
    noArguments arguments
    namesOnly named ["table", "operation", "user", "message"]
    let table ← required named "table"
    let operation ← required named "operation"
    let user ← required named "user"
    return .denied table.plain operation.plain user.shown (wording? named)
  | .missingContext =>
    noArguments arguments
    namesOnly named ["key"]
    return .missingContext (← required named "key").plain

end RowGate.Fault
