import RowGate.KeyValue.Basic
import RowGate.Entries
import RowGate.Text.Basic
/-!
A store in memory. What has a time to live is there until that time is over, and is removed by the
first call that looks for it afterwards. A set lives as long as the longest-lived addition; one
addition without a time to live makes it permanent. A set that is there takes the members of an
addition before their end is reckoned.
-/
namespace RowGate.KeyValue

/-- Something that may have an end. -/
structure Expiring (α : Type) where
  content : α
  ends : Option Number

/-- Whether the end has come. -/
def Expiring.isOver {α : Type} (e : Expiring α) (now : Number) : Bool :=
  match e.ends with
  | some t => t.atMost now
  | none => false

/-- The end of what lives for a time from now. -/
def endAfter (now : Number) (ttl : Option Number) : Except Fault (Option Number) :=
  ttl.mapM fun t => Number.lift (now.add t)

/-- The later of two ends; what has no end stays without. -/
def laterEnd (a b : Option Number) : Option Number :=
  match a, b with
  | some s, some t => some (if s.less t then t else s)
  | _, _ => none

/-- A store in memory. -/
structure Memory where
  values : Entries (Expiring String)
  sets : Entries (Expiring (List String))

namespace Memory

/-- A store that holds nothing. -/
def empty : Memory := ⟨.empty, .empty⟩

/-- The number of texts and sets held, those included whose end has come unseen. -/
def size (m : Memory) : Nat := m.values.size + m.sets.size

/-- Whether a text or a set is held under a key. -/
def has (m : Memory) (key : String) : Bool := m.values.has key || m.sets.has key

/-- The text under a key. -/
def get (m : Memory) (now : Number) (key : String) : Option String × Memory :=
  match m.values.get? key with
  | none => (none, m)
  | some e =>
    if e.isOver now then (none, { m with values := m.values.erase key }) else (some e.content, m)

/-- Puts a text under a key. -/
def set (m : Memory) (now : Number) (key value : String) (ttl : Option Number) :
    Except Fault Memory := do
  let ends ← endAfter now ttl
  return { m with values := m.values.insert key ⟨value, ends⟩ }

/-- Removes the texts and sets under some keys. -/
def delete (m : Memory) (keys : List String) : Memory :=
  keys.foldl (fun m key => ⟨m.values.erase key, m.sets.erase key⟩) m

/-- The store without the set under a key if its end has come. -/
def settle (m : Memory) (now : Number) (key : String) : Memory :=
  match m.sets.get? key with
  | some e => if e.isOver now then { m with sets := m.sets.erase key } else m
  | none => m

/-- Adds to the set under a key. -/
def addToSet (m : Memory) (now : Number) (key : String) (members : List String)
    (ttl : Option Number) : Except Fault Memory := do
  let m := m.settle now key
  match m.sets.get? key with
  | none =>
    let ends ← endAfter now ttl
    return { m with sets := m.sets.insert key ⟨Text.distinct members, ends⟩ }
  | some e =>
    let ends ← if e.ends.isSome then endAfter now ttl else pure none
    return { m with
      sets := m.sets.insert key ⟨Text.distinct (e.content ++ members), laterEnd e.ends ends⟩ }

/-- What an addition leaves whose end cannot be reckoned: the set under the key with the members, if
it is there, and its end unchanged. -/
def widened (m : Memory) (now : Number) (key : String) (members : List String) : Memory :=
  let m := m.settle now key
  match m.sets.get? key with
  | none => m
  | some e =>
    { m with sets := m.sets.insert key ⟨Text.distinct (e.content ++ members), e.ends⟩ }

/-- The members of the set under a key. -/
def members (m : Memory) (now : Number) (key : String) : List String × Memory :=
  let m := m.settle now key
  (((m.sets.get? key).map (·.content)).getD [], m)

/-- The store after a call that may fail, given what it leaves where it fails. -/
def attempt (m : Memory) : Except Fault Memory → Except Fault Unit × Memory
  | .ok m => (.ok (), m)
  | .error f => (.error f, m)

/-- Answers a call at a time. -/
def answer (m : Memory) (now : Number) : (c : Call) → c.Answer × Memory
  | .get key => (.ok (m.get now key).1, (m.get now key).2)
  | .set key value ttl => m.attempt (m.set now key value ttl)
  | .delete keys => (.ok (), m.delete keys)
  | .addToSet key members ttl =>
    (m.widened now key members).attempt (m.addToSet now key members ttl)
  | .members key => (.ok (m.members now key).1, (m.members now key).2)

end Memory
end RowGate.KeyValue
