import RowGate.Fault
import RowGate.Text.Word
import RowGate.Text.Basic
/-!
Raw text of a request inside a statement. Each question mark becomes a named parameter; a colon that
the request itself has written before a word stays a colon.
-/
namespace RowGate.Sql

/-- Whether a colon behind a character may start a parameter. -/
def opensAfter : Option Char → Bool
  | none => true
  | some c => !(c == ':' || c == '\\' || Text.isWord c)

/-- Text in which a backslash precedes each colon that would start a parameter. -/
def escapeColons (before : Option Char) : List Char → List Char
  | [] => []
  | ':' :: rest =>
    (if opensAfter before && rest.head?.any Text.isWord then ['\\', ':'] else [':']) ++
      escapeColons (some ':') rest
  | c :: rest => c :: escapeColons (some c) rest

/-- The names of the parameters that a text declares. A name runs to the last word character that no
colon follows. -/
def declaredNames (before : Option Char) : List Char → List String
  | [] => []
  | c :: rest =>
    let run := rest.takeWhile Text.isWord
    let named := if (rest.dropWhile Text.isWord).head? = some ':' then run.dropLast else run
    (if c == ':' && opensAfter before && !named.isEmpty then [String.ofList named] else []) ++
      declaredNames (some c) rest

/-- A part of written text: a character, or a name behind a colon. -/
inductive RawPart where
  | char (c : Char)
  | name (n : String)
deriving DecidableEq, Repr

/-- The parts of a text, behind `skip` characters that belong to the name before them. -/
def partsFrom (before : Option Char) (skip : Nat) : List Char → List RawPart
  | [] => []
  | c :: rest =>
    match skip with
    | n + 1 => partsFrom (some c) n rest
    | 0 =>
      let run := rest.takeWhile Text.isWord
      let ends := (rest.dropWhile Text.isWord).head? != some ':'
      if c == ':' && opensAfter before && !run.isEmpty && ends then
        .name (String.ofList run) :: partsFrom (some c) run.length rest
      else .char c :: partsFrom (some c) 0 rest

/-- Text with the escaped colons written as colons. -/
def unescapeColons : List Char → List Char
  | '\\' :: ':' :: rest =>
    if (rest.dropWhile Text.isWord).head? = some ':' then '\\' :: unescapeColons (':' :: rest)
    else ':' :: unescapeColons rest
  | c :: rest => c :: unescapeColons rest
  | [] => []
termination_by cs => cs.length

/-- A value for a parameter of raw text. A list stands for any number of values. -/
structure RawBinding where
  name : String
  value : Value
  many : Bool

/-- Raw text with its parameters. -/
structure RawText where
  text : List Char
  bindings : List RawBinding

/-- The text between the pieces filled with parameters. -/
def joinPieces (names : List String) : List (List Char) → List Char
  | [] => []
  | piece :: rest =>
    match names, rest with
    | n :: ns, _ :: _ => piece ++ ':' :: n.toList ++ joinPieces ns rest
    | _, _ => piece ++ joinPieces names rest

/-- The value of a parameter: collections of any kind stand as lists. -/
def rawBinding (name : String) (v : Value) : RawBinding :=
  match v with
  | .list vs | .tuple vs | .set vs => ⟨name, .list vs, true⟩
  | v => ⟨name, v, false⟩

/-- Pieces of raw text around its question marks. -/
def rawPieces (sql : String) : List (List Char) :=
  Text.splitAt '?' (escapeColons none sql.toList)

/-- There has to be a value for each question mark. -/
def checkBindings (sql : String) (bindings : List Value) : Except Fault Unit :=
  let holes := (rawPieces sql).length - 1
  if holes = bindings.length then .ok ()
  else .error (.violation (.bindingCount holes bindings.length sql))

/-- The names of the parameters of a fragment, the first of which has number `first`. -/
def rawNames (first count : Nat) : List String :=
  (List.range count).map fun i => "raw_" ++ toString (first + i)

/-- Raw text between an opening and a closing, with parameters numbered from `first`. The text has
to declare each of them. -/
def RawText.of (first : Nat) (opening : String) (sql : String) (bindings : List Value) :
    Except Fault RawText :=
  let names := rawNames first bindings.length
  let text := opening.toList ++ joinPieces names (rawPieces sql) ++ [')']
  let declared := declaredNames none text
  if names.all declared.contains then .ok ⟨text, List.zipWith rawBinding names bindings⟩
  else .error .badArgument

/-- The parts of raw text. -/
def RawText.parts (r : RawText) : List RawPart := partsFrom none 0 r.text

/-- The binding of a name, if it is a parameter of the text. -/
def RawText.binding? (r : RawText) (name : String) : Option RawBinding :=
  r.bindings.find? (·.name == name)

end RowGate.Sql
