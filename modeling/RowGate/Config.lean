import RowGate.Value.Order
/-!
Settings, their defaults and their checks. Settings are layered: an override replaces the settings
it names. Every configuration that is built passes the checks.
-/
namespace RowGate

/-- What happens to a batch of records of which some are denied. -/
inductive WriteMode where
  /-- The whole batch is rejected. -/
  | raise
  /-- The denied records are dropped. -/
  | filter
deriving DecidableEq, Repr

/-- The name of a write mode. -/
def WriteMode.name : WriteMode → String
  | .raise => "raise"
  | .filter => "filter"

/-- The settings. Values that are only compared or tested stay as they were given. -/
structure Config where
  defaultLimit : Value
  enforce : Value
  logDecisions : Value
  writeMode : WriteMode
  keyPrefix : Value
  tagPrefix : Value
  largeTable : Value
  sortMemory : Value
  maxJoins : Value
  checkTables : Value
  validTables : List Value

namespace Config

/-- The settings by name. -/
def settings (c : Config) : Record := [
  ("default_limit", c.defaultLimit),
  ("enforce_rls", c.enforce),
  ("log_policy_decisions", c.logDecisions),
  ("on_write_denied", .text c.writeMode.name),
  ("cache_key_prefix", c.keyPrefix),
  ("cache_tag_prefix", c.tagPrefix),
  ("large_table_threshold", c.largeTable),
  ("sort_memory_threshold", c.sortMemory),
  ("max_join_count", c.maxJoins),
  ("check_valid_table", c.checkTables),
  ("valid_tables", .tuple c.validTables)]

/-- The settings where nothing is overridden. -/
def default : Config where
  defaultLimit := .int 10
  enforce := .bool true
  logDecisions := .bool false
  writeMode := .raise
  keyPrefix := .text "query:"
  tagPrefix := .text "tag:"
  largeTable := .int 100000
  sortMemory := .int 1000000
  maxJoins := .int 3
  checkTables := .bool false
  validTables := []

instance : Inhabited Config := ⟨default⟩

/-- A write mode by its name. -/
def writeMode? : Value → Except Fault WriteMode
  | .text "raise" => .ok .raise
  | .text "filter" => .ok .filter
  | v => .error (if v.isHashable then .badValue .writeMode else .wrongType)

/-- A configuration from its settings, checked in order: the write mode, the default limit, the
join count, the tables. -/
def ofSettings (setting : String → Value) : Except Fault Config := do
  let mode ← writeMode? (setting "on_write_denied")
  let limit := setting "default_limit"
  if (← limit.comparable).atMost (.int 0) then .error (.badValue (.defaultLimit limit))
  let joins := setting "max_join_count"
  if (← joins.comparable).less (.int 0) then .error (.badValue (.joinCount joins))
  match (setting "valid_tables").items? with
  | none => .error .wrongType
  | some tables => return {
      defaultLimit := limit
      enforce := setting "enforce_rls"
      logDecisions := setting "log_policy_decisions"
      writeMode := mode
      keyPrefix := setting "cache_key_prefix"
      tagPrefix := setting "cache_tag_prefix"
      largeTable := setting "large_table_threshold"
      sortMemory := setting "sort_memory_threshold"
      maxJoins := joins
      checkTables := setting "check_valid_table"
      validTables := tables }

/-- Whether every name is the name of a setting. -/
def known (named : Record) : Bool := named.all fun (k, _) => (default.settings.has k)

/-- A configuration with the named settings, all others at their defaults. -/
def ofNamed (named : Record) : Except Fault Config :=
  if known named then ofSettings fun k => (named.get? k).getD (default.settings.get k)
  else .error .wrongType

/-- The configuration with the named settings replaced; a null names nothing. -/
def merge (c : Config) (named : Record) : Except Fault Config :=
  if !known named then .error .wrongType
  else if ((named.get "valid_tables").isNull || (named.get "valid_tables").items?.isSome) then
    ofSettings fun k => ((named.get k).toOption).getD (c.settings.get k)
  else .error .wrongType

end Config
end RowGate
