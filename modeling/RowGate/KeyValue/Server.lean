import RowGate.KeyValue.Memory
import RowGate.KeyValue.Redis
/-!
A Redis server and the stores over it and in memory, side by side on one clock of whole seconds. The
server keeps texts and sets under one space of keys; what has an end is gone from its end on.
-/
namespace RowGate.KeyValue

namespace Redis

/-- What the server keeps under a key. -/
inductive Content where
  | text (s : String)
  | set (members : List String)

/-- A text. -/
def Content.text? : Content → Option String
  | .text s => some s
  | .set _ => none

/-- The members of a set. -/
def Content.members : Content → List String
  | .text _ => []
  | .set members => members

/-- Something with the second in which it ends, if it does. -/
structure Timed (α : Type) where
  content : α
  ends : Option Int

/-- Whether the end has not come. -/
def Timed.isLive {α : Type} (e : Timed α) (now : Int) : Bool := e.ends.all fun t => decide (now < t)

/-- A server of texts and sets. -/
structure Server where
  entries : Entries (Timed Content)
  /-- Whether texts are answered as bytes. -/
  inBytes : Bool

namespace Server

/-- A server that keeps nothing. -/
def empty (inBytes : Bool) : Server := ⟨.empty, inBytes⟩

/-- A text as the server answers it. -/
def reply (s : Server) (text : String) : Reply :=
  if s.inBytes then .bytes text.toUTF8.data.toList else .text text

/-- What is under a key now. -/
def live (s : Server) (now : Int) (key : String) : Option (Timed Content) :=
  (s.entries.get? key).filter (·.isLive now)

/-- The server with something put under a key, in place of anything else. -/
def put (s : Server) (key : String) (e : Timed Content) : Server :=
  { s with entries := s.entries.insert key e }

/-- The server without what is under some keys. -/
def without (s : Server) (keys : List String) : Server :=
  { s with entries := keys.foldl (fun es key => es.erase key) s.entries }

/-- What is under a key with further members: a set keeps its end, and a new set has none. -/
def widened (s : Server) (now : Int) (key : String) (members : List String) : Timed Content :=
  match s.live now key with
  | some e => ⟨.set (Text.distinct (e.content.members ++ members)), e.ends⟩
  | none => ⟨.set (Text.distinct members), none⟩

/-- The seconds that something has left, -1 without an end, -2 for nothing. -/
def timeLeft (now : Int) : Option (Timed Content) → Int
  | none => -2
  | some e => (e.ends.map (· - now)).getD (-1)

/-- Carries out a command in a second. -/
def perform (now : Int) : (c : Command) → Server → c.Answer × Server
  | .get key, s => (((s.live now key).bind (·.content.text?)).map s.reply, s)
  | .set key value, s => ((), s.put key ⟨.text value, none⟩)
  | .setEx key seconds value, s => ((), s.put key ⟨.text value, some (now + seconds)⟩)
  | .delete keys, s => ((), s.without keys)
  | .setAdd key members, s => ((), s.put key (s.widened now key members))
  | .setMembers key, s => (((s.live now key).map (·.content.members)).getD [] |>.map s.reply, s)
  | .ttl key, s => (timeLeft now (s.live now key), s)
  | .expire key seconds, s =>
    ((), match s.live now key with
      | some e => s.put key { e with ends := some (now + seconds) }
      | none => s)

end Server
end Redis

/-- What happens to a store: a call, or time passes. -/
inductive Step where
  | call (c : Call)
  | wait (seconds : Nat)

/-- A store in memory and a server, in the same second. -/
structure Twins where
  now : Int
  memory : Memory
  server : Redis.Server

namespace Twins

/-- Nothing is held. -/
def start (now : Int) (inBytes : Bool) : Twins := ⟨now, .empty, .empty inBytes⟩

/-- What the server answers a call that the store sends it as commands. -/
def served (w : Twins) (c : Call) : c.Answer × Redis.Server :=
  (Redis.perform c).run (Redis.Server.perform w.now) w.server

/-- What the store in memory answers a call. -/
def remembered (w : Twins) (c : Call) : c.Answer × Memory := w.memory.answer (.int w.now) c

/-- Both after a call, or some seconds later. -/
def step (w : Twins) : Step → Twins
  | .call c => ⟨w.now, (w.remembered c).2, (w.served c).2⟩
  | .wait seconds => { w with now := w.now + seconds }

/-- Both after one step behind the other. -/
def after (w : Twins) (steps : List Step) : Twins := steps.foldl step w

/-- Both answer a call the same. -/
def Agree (w : Twins) (c : Call) : Prop := (w.remembered c).1 = (w.served c).1

end Twins
end RowGate.KeyValue
