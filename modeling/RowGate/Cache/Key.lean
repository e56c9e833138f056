import RowGate.Query.Writer
import RowGate.Json.Writer
import RowGate.Text.Base64
import RowGate.Value.Formula
import RowGate.Config
/-!
The keys of cached answers. A query that names its key has that one; any other has its whole text,
with sorted names, behind the scope that it is asked in.
-/
namespace RowGate.Cache

/-- How values outside the interchange format are cached: moments, decimals and identifiers by their
text, bytes in base 64, sets as lists ordered by the texts of their items. -/
def fallback : Json.Fallback where
  text? := fun
    | .moment m => some m.iso
    | .number (.decimal d) => some d.text
    | .uuid n => some (uuidText n)
    | .bytes data => some (Text.Base64.encode data)
    | _ => none
  setOrder? := some Value.plain

/-- A value in the interchange format. -/
def jsonOf (v : Value) : Except Fault Json :=
  match v.toJson? fallback with
  | some j => .ok j
  | none => .error .wrongType

/-- The text of a query: queries that differ only in the order of names have one text. -/
def queryText (q : Query) : Except Fault String := do
  return (← jsonOf q.toValue).sortKeys.render

/-- What a text is put behind; only texts can be. -/
def behind (start : Value) (s : String) : Except Fault String :=
  match start with
  | .text t => .ok (t ++ s)
  | _ => .error .wrongType

/-- The key that a query names, if it names one. -/
def ownKey? (q : Query) : Option String :=
  match q.cache with
  | some c =>
    match c.key with
    | some k => if k.isEmpty then none else some k
    | none => none
  | none => none

/-- What the keys of a scope start with. -/
def inScope (start : Value) (scope : String) : Value :=
  if scope.isEmpty then start else .text (start.plain ++ scope ++ ":")

/-- The key of a query. -/
def keyOf (start : Value) (scope : String) (q : Query) : Except Fault String := do
  match ownKey? q with
  | some k => behind start k
  | none => behind (inScope start scope) (← queryText q)

/-- What is cached: an answer under a name, or the answer of a query. -/
inductive Target where
  | named (key : String)
  | query (q : Query)

/-- The key of a target. -/
def Target.key (c : Config) (scope : String) : Target → Except Fault String
  | .named key => behind c.keyPrefix key
  | .query q => keyOf c.keyPrefix scope q

/-- The settings that a target carries. -/
def Target.settings : Target → Option CacheSettings
  | .named _ => none
  | .query q => q.cache

end RowGate.Cache
