import RowGate.Config
import RowGate.Query.Reader
import RowGate.Script
/-!
Programs that change the configuration in force. A block runs with a configuration of its own and
leaves the one around it as it was, also when its body fails. Programs are calls that ask for the
configuration in force or put another one there, or lists of steps that are rehearsed one by one,
whether they fail or not. Main statement: a block changes nothing outside.
-/
namespace RowGate

/-! ## Calls -/

/-- What a call asks of the configuration in force. -/
inductive ConfigQuestion where
  | current
  /-- Puts a configuration in force in place of the present one. -/
  | install (c : Config)

/-- The answers to a question. -/
abbrev ConfigQuestion.Answer : ConfigQuestion → Type
  | .current => Config
  | .install _ => Unit

/-- A call that concerns the configuration in force. -/
abbrev Configuring (α : Type) := Asking ConfigQuestion ConfigQuestion.Answer α

namespace Configuring

/-- The configuration in force. -/
def current : Configuring Config := Asking.ask ConfigQuestion.current

/-- Puts a configuration in force. -/
def install (c : Config) : Configuring Unit := Asking.ask (ConfigQuestion.install c)

/-- Puts the configuration in force under overrides, and tells the new one. -/
def configure (named : Record) : Configuring Config := do
  let c ← current
  let d ← (liftM (c.merge named) : Configuring Config)
  install d
  return d

/-- Puts the defaults in force. -/
def reset : Configuring Unit := install Config.default

/-- Runs a body with a configuration of its own, the defaults if none is given. The one from before is
in force again when the body is over, whether it fails or not. -/
def isolated {α : Type} (start : Option Config) (body : Config → Configuring α) :
    Configuring α := do
  let saved ← current
  let effective := start.getD Config.default
  install effective
  let result ← (body effective).outcome
  install saved
  liftM result

/-- A configuration that answers what is asked of it. -/
def inForce : Surroundings ConfigQuestion ConfigQuestion.Answer Config
  | .current, c => (c, c)
  | .install d, _ => ((), d)

end Configuring

/-! ## Steps -/

/-- A step of a program on the configuration in force. -/
inductive ConfigStep where
  /-- Builds a configuration from named settings; the one in force stays. -/
  | build (named : Record)
  /-- Overrides the configuration in force without replacing it. -/
  | derive (named : Record)
  /-- Puts the configuration in force under overrides. -/
  | configure (named : Record)
  | current
  /-- Puts the defaults in force. -/
  | reset
  /-- Reads a query and tells its limit. -/
  | limit (query : Value)
  /-- Runs a body with a configuration of its own: the named settings, or the defaults. -/
  | isolated (start : Option Record) (body : List ConfigStep) (fails : Bool)

/-- What a step answers. -/
inductive ConfigAnswer where
  | config (result : Except Fault Config)
  | limit (result : Except Fault (Option Value))
  /-- The configuration that a block started with, what its steps answered, and the configuration
  in force after it. -/
  | block (result : Except Fault Config) (steps : List ConfigAnswer) (after : Config)

instance : Inhabited ConfigStep := ⟨.current⟩

instance : Inhabited ConfigAnswer := ⟨.limit (.ok none)⟩

/-- Puts a configuration in force; where there is none, the present one stays. -/
def Config.replacedBy (c : Config) : Except Fault Config → ConfigAnswer × Config
  | .ok d => (.config (.ok d), d)
  | .error f => (.config (.error f), c)

mutual

/-- What a step answers, and the configuration that it leaves in force. -/
def ConfigStep.run (c : Config) : ConfigStep → ConfigAnswer × Config
  | .build named => (.config (Config.ofNamed named), c)
  | .derive named => (.config (c.merge named), c)
  | .configure named => c.replacedBy (c.merge named)
  | .current => (.config (.ok c), c)
  | .reset => c.replacedBy (.ok Config.default)
  | .limit query => (.limit ((Query.read (some c.defaultLimit) query).map (·.limit)), c)
  | .isolated start body fails =>
    match (start.map Config.ofNamed).getD (.ok Config.default) with
    | .error f => (.block (.error f) [] c, c)
    | .ok inner =>
      (.block (if fails then .error .outside else .ok inner) (runSteps inner body).1 c, c)

/-- What the steps of a program answer, and the configuration that they leave in force. -/
def runSteps (c : Config) : List ConfigStep → List ConfigAnswer × Config
  | [] => ([], c)
  | s :: rest =>
    let (a, d) := s.run c
    let (others, e) := runSteps d rest
    (a :: others, e)

end

/-- A block changes nothing outside. -/
theorem ConfigStep.run_isolated_snd (c : Config) (start : Option Record) (body : List ConfigStep)
    (fails : Bool) : ((ConfigStep.isolated start body fails).run c).2 = c := by
  rw [ConfigStep.run]
  split <;> rfl

end RowGate
