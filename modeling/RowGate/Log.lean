import RowGate.Fault
/-!
Log entries, and calls that write them. What a call has logged stays when it fails.
-/
namespace RowGate

/-- How urgent an entry is. -/
inductive Level where
  | debug
  | info
  | warning
deriving DecidableEq, Repr

/-- How urgent an entry is, as a number. -/
def Level.rank : Level → Nat
  | .debug => 10
  | .info => 20
  | .warning => 30

/-- The least rank that is kept under a named threshold; three of them lie above every entry. -/
def Level.threshold? : String → Option Nat
  | "DEBUG" => some 10
  | "INFO" => some 20
  | "WARNING" | "WARN" => some 30
  | "ERROR" => some 40
  | "CRITICAL" | "FATAL" => some 50
  | _ => none

/-- The part of the library that writes an entry. -/
inductive Origin where
  | audit
  | planner
  | review
  | cache
  | permissions
  | endpoint
deriving DecidableEq, Repr

/-- One entry of the log. -/
structure LogEntry where
  level : Level
  origin : Origin
  message : String
deriving DecidableEq, Repr

/-- A pure call that may fail and may log. -/
abbrev Logged (α : Type) := ExceptT Fault (StateM (List LogEntry)) α

/-- Writes an entry. -/
def logEntry (level : Level) (origin : Origin) (message : String) : Logged Unit :=
  modify (· ++ [⟨level, origin, message⟩])

/-- The answer and the entries of a call. -/
def Logged.run {α : Type} (x : Logged α) : Except Fault α × List LogEntry :=
  StateT.run (ExceptT.run x) []

end RowGate
