import RowGate.Value.Text
/-!
Why a call fails, as causes; the wording of each cause is in one place. A request that breaks rules
carries all its violations at once.
-/
namespace RowGate

/-- A rule that a request breaks. Places name the part of the request, as `whereGroups[0]`. -/
inductive Violation where
  | required (place key : String)
  | notObject (place : String) (got : Value)
  | notList (place : String) (got : Value)
  | badConnective (place : String) (got : Value)
  | badRange (place : String)
  | badTtl (place : String)
  | duplicateWindow (name : String)
  | duplicateTable (name : String)
  | bindingCount (holes bindings : Nat) (sql : String)
  | notValues (got : Value)
  | notBounds (got : Value)
  | limitTooLarge (most : Int)
  | fieldMissing (field : String)
  | fieldDisallowed (field : String)
  | tooComplex (score most : Float)
  | badBody
  | checkNotObject
  | checkWithoutField
  | checkOperator (got : Value)
  | checkSource (got : Value)
  | checkContextName
  | notTexts (key : String)
  | ruleNotObject (got : Value)
  | ruleKind (got : Value)
  | staticNotBoolean
  | emptyTemplate
  | permissionsNotObject
  | operationsNotObject
  | unknownOperation (got : String)
  | rulesNotList (operation : String)
  /-- A violation stated by a caller. -/
  | stated (what : Value)

/-- The wording of a violation. -/
def Violation.message : Violation → String
  | .required place key => place ++ ": '" ++ key ++ "' is required"
  | .notObject place got => place ++ ": expected an object, got " ++ got.typeName
  | .notList place got => place ++ ": expected a list, got " ++ got.typeName
  | .badConnective place got => place ++ ": boolean must be 'AND' or 'OR', got " ++ got.shown
  | .badRange place => place ++ ": 'value' must be [low, high]"
  | .badTtl place => place ++ ": 'ttl' must be a positive number"
  | .duplicateWindow name => "Duplicate window alias: " ++ name
  | .duplicateTable name => "Duplicate CTE name: " ++ name
  | .bindingCount holes bindings sql =>
    "Raw SQL has " ++ toString holes ++ " placeholder(s) but " ++ toString bindings ++
      " binding(s): " ++ Text.quoted sql
  | .notValues got => "Expected a list of values, got " ++ got.shown
  | .notBounds got => "Expected [low, high], got " ++ got.shown
  | .limitTooLarge most => "Limit exceeds maximum allowed value of " ++ toString most
  | .fieldMissing field => "Missing required field: " ++ field
  | .fieldDisallowed field => "Query contains disallowed field: " ++ field
  | .tooComplex score most =>
    "Query complexity (" ++ Number.briefText score ++ ") exceeds maximum allowed value (" ++
      Number.briefText most ++ ")"
  | .badBody => "Invalid request body"
  | .checkNotObject => "fieldCheck: expected an object"
  | .checkWithoutField => "fieldCheck: 'field' is required"
  | .checkOperator got => "fieldCheck: unsupported operator " ++ got.shown
  | .checkSource got => "fieldCheck: unsupported valueType " ++ got.shown
  | .checkContextName => "fieldCheck: 'value' must name a user-context field"
  | .notTexts key => key ++ ": expected a list of strings"
  | .ruleNotObject got => "rule: expected an object, got " ++ got.typeName
  | .ruleKind got => "rule: unknown kind " ++ got.shown
  | .staticNotBoolean => "static: 'static' must be a boolean"
  | .emptyTemplate => "customSql: 'customSql' must be a non-empty string"
  | .permissionsNotObject => "permissions: expected an object"
  | .operationsNotObject => "permissions: 'operations' must be an object"
  | .unknownOperation got => "permissions: unknown operation " ++ Text.quoted got
  | .rulesNotList operation => "permissions." ++ operation ++ ": expected a list of rules"
  | .stated what => what.plain

/-- A feature that a request names and that does not exist. -/
inductive Unsupported where
  | valueType (name : String)
  | identifier (name : String)
  | windowType (name : String)
  | aggregateType (got : Value)
  | sortDirection (name : String)
  | nullOrder (name : String)
  | frameClause (clause : String)
  | frameType (name : String)
  | frameOffset (n : Int)
  | frameBound (name : String)
  | operatorAt (place name : String)
  | operator (got : Value)
  | recursiveWithoutColumns (name : String)
  | noPredicates
  | ruleType (got : Value)
  /-- A feature stated by a caller. -/
  | stated (text : String)

/-- The wording of an unsupported feature. -/
def Unsupported.message : Unsupported → String
  | .valueType name => "Unsupported column value type: " ++ name
  | .identifier name => "Unsupported identifier: " ++ Text.quoted name
  | .windowType name => "Unsupported window function type: " ++ Text.quoted name
  | .aggregateType got => "Unsupported aggregate type: " ++ got.shown
  | .sortDirection name => "Unsupported sort direction: " ++ Text.quoted name
  | .nullOrder name => "Unsupported null ordering: " ++ Text.quoted name
  | .frameClause clause => "Unsupported frame clause: " ++ Text.quoted clause
  | .frameType name => "Unsupported frame type: " ++ Text.quoted name
  | .frameOffset n => "Frame offsets must not be negative, got " ++ toString n
  | .frameBound name => "Unsupported frame bound: " ++ Text.quoted name
  | .operatorAt place name => place ++ ": unsupported operator " ++ Text.quoted name
  | .operator got => "Unsupported operator: " ++ got.shown
  | .recursiveWithoutColumns name =>
    "Recursive CTE " ++ Text.quoted name ++ " needs explicit columns or a table known to MetaData"
  | .noPredicates => "customSql rules need a PredicateCompiler"
  | .ruleType got => "Unknown permission rule: " ++ got.shown
  | .stated text => text

/-- An argument that no call accepts. -/
inductive BadValue where
  | writeMode
  | defaultLimit (got : Value)
  | joinCount (got : Value)
  | clockBackwards (seconds : Value)
  | operationKind (name : String)
  | notFloat (got : Value)
  | notInteger (got : Value)
  /-- What is no number has no integer part; a float is named as one. -/
  | noInteger (isFloat : Bool)

/-- The wording of a rejected argument. -/
def BadValue.message : BadValue → String
  | .writeMode => "on_write_denied must be one of"
  | .defaultLimit got => "default_limit must be positive, got " ++ got.shown
  | .joinCount got => "max_join_count must not be negative, got " ++ got.shown
  | .clockBackwards seconds => "cannot move the clock backwards (" ++ seconds.shown ++ ")"
  | .operationKind name => "Unknown operation kind: " ++ Text.quoted name
  | .notFloat got => "could not convert string to float: " ++ got.shown
  | .notInteger got => "invalid literal for int() with base 10: " ++ got.shown
  | .noInteger isFloat =>
    "cannot convert " ++ (if isFloat then "float " else "") ++ "NaN to integer"

/-- What a failed check of a test reports. -/
inductive FailedCheck where
  | otherOperations (expected : Value) (kinds : List String)
  | stageOrder (kind stage previousKind previousStage : String)
  | notAllowed (explanation : String)
  | notDenied (explanation : String)
  | sqlWithout (text sql : String)

/-- The wording of a failed check. -/
def FailedCheck.message : FailedCheck → String
  | .otherOperations expected kinds =>
    "expected operations " ++ expected.shown ++ ", got " ++ (Value.texts kinds).shown
  | .stageOrder kind stage previousKind previousStage =>
    "operation " ++ Text.quoted kind ++ " (stage " ++ Text.quoted stage ++ ") applied after " ++
      Text.quoted previousKind ++ " (stage " ++ Text.quoted previousStage ++ ")"
  | .notAllowed explanation => "expected rules to allow, but they denied:\n" ++ explanation
  | .notDenied explanation => "expected rules to deny, but they allowed:\n" ++ explanation
  | .sqlWithout text sql => Text.quoted text ++ " not found in compiled SQL:\n" ++ sql

/-- A service that an application has to provide before requests are served. -/
inductive Service where
  | user
  | endpoint

/-- The name of a service's provider. -/
def Service.name : Service → String
  | .user => "get_user"
  | .endpoint => "get_executor"

/-- Why a call fails. -/
inductive Fault where
  /-- A failure of the library without a closer kind. -/
  | general (message : String)
  /-- The request breaks rules; a caller may word the whole differently. -/
  | invalid (violations : List Violation) (wording : Option String)
  /-- The table has no entry for the operation. -/
  | notAllowed (table operation : String) (wording : Option String)
  /-- The rules deny the operation to the user, given as messages show it. -/
  | denied (table operation user : String) (wording : Option String)
  /-- A template names a context value that the user lacks. -/
  | missingContext (key : String)
  | unsupported (what : Unsupported)
  | badValue (what : BadValue)
  | missingKey (key : Value)
  | failedCheck (what : FailedCheck)
  | unprovided (what : Service)
  /-- A value of a type that the operation does not take. -/
  | wrongType
  /-- An operation or property that does not exist. -/
  | noSuchName
  /-- A number beyond the range of its target. -/
  | outOfRange
  /-- A sum or an order that decimals do not have. -/
  | undefined
  /-- A text that is not in the interchange format. -/
  | unreadable
  /-- An argument that a statement cannot take. -/
  | badArgument
  /-- A table that is declared with two columns of one name. -/
  | duplicateColumn
  /-- A statement that cannot be written. -/
  | unwritable
  /-- A failure of a service outside the library. -/
  | outside

namespace Fault

instance : Inhabited Fault := ⟨.wrongType⟩

/-- A single violation. -/
abbrev violation (v : Violation) : Fault := .invalid [v] none

/-- An operation without an entry, in the usual wording. -/
abbrev noEntry (table operation : String) : Fault := .notAllowed table operation none

/-- The wording of a failure; failures from outside the library have none. -/
def message? : Fault → Option String
  | .general message => some message
  | .invalid violations wording =>
    some (wording.getD ("Query validation failed: " ++ commas (violations.map (·.message))))
  | .notAllowed table operation wording =>
    some (wording.getD
      ("Operation \"" ++ operation ++ "\" not allowed on table \"" ++ table ++ "\""))
  | .denied table operation user wording =>
    some (wording.getD ("User " ++ user ++ " does not have permission to perform operation \"" ++
      operation ++ "\" on table \"" ++ table ++ "\""))
  | .missingContext key => some ("Missing context value for key: " ++ key)
  | .unsupported what => some what.message
  | .badValue what => some what.message
  | .missingKey key => some key.shown
  | .failedCheck what => some what.message
  | .unprovided what =>
    some ("Override " ++ what.name ++ " via app.dependency_overrides[" ++ what.name ++ "].")
  | .wrongType | .noSuchName | .outOfRange | .undefined | .unreadable | .badArgument
  | .duplicateColumn | .unwritable | .outside => none

/-- Failures of the library itself. -/
def isOwn : Fault → Bool
  | .general _ | .invalid _ _ | .notAllowed _ _ _ | .denied _ _ _ _ | .missingContext _
  | .unsupported _ => true
  | _ => false

/-- Arithmetic without an answer, as a failure of the call. -/
def ofNumber : Number.Failure → Fault
  | .mixedKinds => .wrongType
  | .outOfRange => .outOfRange
  | .undefined => .undefined

end Fault

/-- The answer of number arithmetic as the answer of a call. -/
def Number.lift {α : Type} (x : Except Number.Failure α) : Except Fault α :=
  x.mapError Fault.ofNumber

end RowGate
