import RowGate.KeyValue.Basic
import RowGate.Script
import RowGate.Entries
import RowGate.Text.Basic
import RowGate.Value.Whole
/-!
A store over a Redis server: calls as commands of the server, which keeps time itself in whole
seconds. A set's time to live is only ever made longer.
-/
namespace RowGate.KeyValue.Redis

/-- A command of the server. -/
inductive Command where
  | get (key : String)
  | set (key value : String)
  | setEx (key : String) (seconds : Int) (value : String)
  | delete (keys : List String)
  | setAdd (key : String) (members : List String)
  | setMembers (key : String)
  | ttl (key : String)
  | expire (key : String) (seconds : Int)

/-- A text as the server answers it: as a text or as its bytes. -/
inductive Reply where
  | text (s : String)
  | bytes (data : List UInt8)

/-- The answer to a command. The time to live of a key is -1 without an end, -2 without the key. -/
abbrev Command.Answer : Command → Type
  | .get _ => Option Reply
  | .ttl _ => Int
  | .setMembers _ => List Reply
  | _ => Unit

/-- The text of a reply. -/
def Reply.read : Reply → Except Fault String
  | .text s => .ok s
  | .bytes data =>
    match String.fromUTF8? ⟨data.toArray⟩ with
    | some s => .ok s
    | none => .error .unreadable

/-- A store that sends commands. -/
abbrev Sending (α : Type) := Asking Command Command.Answer α

/-- Sends a command. -/
def send (c : Command) : Sending c.Answer := Asking.ask c

/-- A time to live in whole seconds, at least one; values are given the part before the point. -/
def wholeSeconds (ttl : Number) : Except Fault Int := return max 1 (← ttl.whole)

/-- A time to live in whole seconds, at least one, cut upwards. -/
def secondsCovering (ttl : Number) : Except Fault Int := return max 1 (← ttl.wholeAbove)

/-- Makes the time to live of a set cover a number of seconds. -/
def prolong (key : String) (ttl : Number) : Sending Unit := do
  let seconds ← secondsCovering ttl
  if (← send (.ttl key)) < seconds then send (.expire key seconds)

/-- The text under a key. -/
def get (key : String) : Sending (Option String) := do
  match ← send (.get key) with
  | none => return none
  | some r => return some (← r.read)

/-- Puts a text under a key. -/
def set (key value : String) (ttl : Option Number) : Sending Unit := do
  match ttl with
  | none => send (.set key value)
  | some t => send (.setEx key (← wholeSeconds t) value)

/-- Removes some keys; without keys nothing is sent. -/
def delete (keys : List String) : Sending Unit := do
  if !keys.isEmpty then send (.delete keys)

/-- Adds to the set under a key; without members nothing is sent. -/
def addToSet (key : String) (members : List String) (ttl : Option Number) : Sending Unit := do
  if !members.isEmpty then
    let _ ← send (.setAdd key members)
    match ttl with
    | none => return
    | some t => prolong key t

/-- The members of the set under a key. -/
def members (key : String) : Sending (List String) := do
  return Text.distinct (← (← send (.setMembers key)).mapM fun r => (r.read : Except Fault String))

/-- A call as commands. -/
def perform : (c : Call) → Script Command Command.Answer c.Answer
  | .get key => (get key).run
  | .set key value ttl => (set key value ttl).run
  | .delete keys => (delete keys).run
  | .addToSet key ms ttl => (addToSet key ms ttl).run
  | .members key => (members key).run

/-- A server for rehearsals: it keeps texts and sets, answers times to live from a list, and keeps
the commands that it got. -/
structure Rehearsal where
  values : Entries String
  sets : Entries (List String)
  times : Entries Int
  /-- Whether texts are answered as bytes. -/
  inBytes : Bool
  commands : List Command

namespace Rehearsal

/-- A text as the server answers it. -/
def reply (w : Rehearsal) (s : String) : Reply :=
  if w.inBytes then .bytes s.toUTF8.toList else .text s

/-- The time to live of a set. -/
def timeOf (w : Rehearsal) (key : String) : Int :=
  (w.times.get? key).getD (if w.sets.has key then -1 else -2)

/-- Carries out a command. -/
def perform : (c : Command) → Rehearsal → c.Answer × Rehearsal
  | .get key, w => ((w.values.get? key).map w.reply, w)
  | .set key value, w => ((), { w with values := w.values.insert key value })
  | .setEx key _ value, w => ((), { w with values := w.values.insert key value })
  | .delete keys, w =>
    ((), keys.foldl (fun w key =>
      { w with values := w.values.erase key, sets := w.sets.erase key }) w)
  | .setAdd key members, w =>
    ((), { w with sets := w.sets.insert key ((w.sets.get? key).getD [] ++ members) })
  | .setMembers key, w => (((w.sets.get? key).getD []).map w.reply, w)
  | .ttl key, w => (w.timeOf key, w)
  | .expire key seconds, w => ((), { w with times := w.times.insert key seconds })

/-- Carries out a command and keeps it. -/
def answer : Surroundings Command Command.Answer Rehearsal := fun c w =>
  perform c { w with commands := w.commands ++ [c] }

end Rehearsal
end RowGate.KeyValue.Redis
