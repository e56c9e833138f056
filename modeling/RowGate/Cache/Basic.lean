import RowGate.Cache.Envelope
import RowGate.KeyValue.Basic
import RowGate.Script
import RowGate.Log
/-!
The cache: answers in a store, each for a time, found again by key and removed by tag. The keys of a
tag are a set in the store. A store that fails fails no call: reading finds nothing, writing is
skipped, and the log says so.
-/
namespace RowGate.Cache

/-- What the cache asks of its surroundings. -/
inductive Question where
  | store (call : KeyValue.Call)
  | now
  | log (entry : LogEntry)

/-- The answers to a question. -/
abbrev Question.Answer : Question → Type
  | .store call => call.Answer
  | .now => Number
  | .log _ => Unit

/-- A call of the cache. -/
abbrev Caching (α : Type) := Asking Question Question.Answer α

/-- The text under a key. -/
def fetch (key : String) : Caching (Option String) :=
  ExceptT.mk (Script.once (Question.store (.get key)))

/-- Puts a text under a key. -/
def put (key value : String) (ttl : Number) : Caching Unit :=
  ExceptT.mk (Script.once (Question.store (.set key value (some ttl))))

/-- Removes keys. -/
def remove (keys : List String) : Caching Unit :=
  ExceptT.mk (Script.once (Question.store (.delete keys)))

/-- Adds a key to a set. -/
def enter (set key : String) (ttl : Number) : Caching Unit :=
  ExceptT.mk (Script.once (Question.store (.addToSet set [key] (some ttl))))

/-- The keys in a set. -/
def keysIn (set : String) : Caching (List String) :=
  ExceptT.mk (Script.once (Question.store (.members set)))

/-- The time. -/
def now : Caching Number := Asking.ask Question.now

/-- Writes an entry of the log. -/
def log (level : Level) (message : String) : Caching Unit :=
  Asking.ask (Question.log ⟨level, .cache, message⟩)

/-- Does something; where it fails, says so in the log and goes on with another result. -/
def attempt {α : Type} (x : Caching α) (message : String) (otherwise : α) : Caching α := do
  match ← x.outcome with
  | .ok a => return a
  | .error _ =>
    log .warning message
    return otherwise

/-- The data under a key that has not ended. What has ended is removed. -/
def read (key : String) : Caching (Option Value) := do
  match ← fetch key with
  | none => return none
  | some s =>
    match ← contentOf (← now) s with
    | .data v => return v.toOption
    | .ended =>
      remove [key]
      log .debug ("Cache entry expired: " ++ key)
      return none

/-- The cached data of a target. -/
def get (c : Config) (target : Target) (scope : String) : Caching (Option Value) := do
  let key ← target.key c scope
  attempt (read key) ("Cache read failed for " ++ key) none

/-- The key of a tag's set. -/
def tagKey (c : Config) (tag : Value) : Except Fault String :=
  match tag with
  | .text t => behind c.tagPrefix t
  | _ => .error .wrongType

/-- The tags of a value; what counts as false has none. -/
def tagsOf (v : Value) : Except Fault (List Value) :=
  if !v.truthy then .ok []
  else
    match v.items? with
    | some tags => .ok tags
    | none => .error .wrongType

/-- Adds a key to the sets of tags. -/
def enterAll (c : Config) (key : String) (ttl : Number) : List Value → Caching Unit
  | [] => return
  | tag :: rest => do
    enter (← tagKey c tag) key ttl
    enterAll c key ttl rest

/-- Puts data under a key, then the key into the sets of its tags. -/
def write (c : Config) (key : String) (data : Value) (ttl : Number) (tags : Value) :
    Caching Bool := do
  let ends ← Number.lift ((← now).add ttl)
  put key (← enclose ends data) ttl
  enterAll c key ttl (← tagsOf tags)
  return true

/-- Whether a formula accepts a query. A query has no columns. -/
def accepts (q : Query) : Formula → Except Fault Bool
  | .constant v => .ok v.truthy
  | .limitAbove bound =>
    match q.limit with
    | some n => bound.less n
    | none => .error .wrongType
  | .column _ | .plus _ _ => .error .wrongType
  | .failing => .error .outside

/-- Whether a target wants to be cached. -/
def isWanted : Target → Except Fault Bool
  | .named _ => .ok true
  | .query q =>
    match q.cache with
    | some settings =>
      match settings.condition with
      | some f => accepts q f
      | none => .ok true
    | none => .ok true

/-- A time to live that is long enough; none if there is none or nothing of it. -/
def lifetime (ttl : Value) : Except Fault (Option Number) :=
  match ttl with
  | .null => .ok none
  | v => do
    let t ← v.comparable
    return if t.atMost (.int 0) then none else some t

/-- Caches data of a target for a time, under tags; where they are null, the settings of the target
count. Tells whether the data was written. -/
def set (c : Config) (target : Target) (data ttl tags : Value) (scope : String) :
    Caching Bool := do
  if !(← isWanted target) then return false
  else
    let ttl := if ttl.isNull then (target.settings.map fun s => .number s.ttl).getD .null else ttl
    let tags := if tags.isNull then (target.settings.map fun s => .texts s.tags).getD .null else tags
    match ← lifetime ttl with
    | none => return false
    | some t =>
      let key ← target.key c scope
      attempt (write c key data t tags) ("Cache write failed for " ++ key) false

/-- Removes the keys in a set, then the set. -/
def clear (set : String) : Caching Unit := do
  let keys ← keysIn set
  if !keys.isEmpty then remove (Text.sorted keys)
  remove [set]

/-- Removes everything that has one of some tags. -/
def invalidate (c : Config) : List Value → Caching Unit
  | [] => return
  | tag :: rest => do
    let set ← tagKey c tag
    attempt (clear set) ("Cache invalidation failed for tag " ++ tag.shown) ()
    invalidate c rest

end RowGate.Cache
