import RowGate.Text.Case
import RowGate.Text.Basic
/-!
Names in statements: which names are quoted, and how parameters are named after columns.
-/
namespace RowGate.Sql

/-- Words that are no names unless they are quoted. -/
def reservedWords : List String :=
  ["all", "analyse", "analyze", "and", "any", "array", "as", "asc", "asymmetric", "authorization",
    "between", "binary", "both", "case", "cast", "check", "collate", "column", "constraint",
    "create", "cross", "current_date", "current_role", "current_time", "current_timestamp",
    "current_user", "default", "deferrable", "desc", "distinct", "do", "else", "end", "except",
    "false", "for", "foreign", "freeze", "from", "full", "grant", "group", "having", "ilike", "in",
    "initially", "inner", "intersect", "into", "is", "isnull", "join", "leading", "left", "like",
    "limit", "localtime", "localtimestamp", "natural", "new", "not", "notnull", "null", "off",
    "offset", "old", "on", "only", "or", "order", "outer", "overlaps", "placing", "primary",
    "references", "right", "select", "session_user", "set", "similar", "some", "symmetric",
    "table", "then", "to", "trailing", "true", "union", "unique", "user", "using", "verbose",
    "when", "where"]

/-- Characters of names without quotes: letters, digits, underscores and dollar signs, and the letters
outside that range which differ from one inside it only by case. -/
def isPlainChar (c : Char) : Bool :=
  c.isAlphanum || c == '_' || c == '$' || [0x130, 0x131, 0x17f, 0x212a].contains c.toNat

/-- Whether a name needs no quotes: it is in lower case, starts with a letter or underscore and is
no reserved word. A line end behind it is let pass. -/
def isPlainName (name : String) : Bool :=
  let cs := name.toList
  let body := if cs.getLast? = some '\n' then cs.dropLast else cs
  !body.isEmpty && body.all isPlainChar && Text.lower name = name &&
    !(cs.head?.any fun c => c.isDigit || c == '$') && !reservedWords.contains (Text.lower name)

/-- Quoted text, in which a quotation mark is written twice. -/
def doubleQuoted (cs : List Char) : List Char :=
  '"' :: cs.flatMap (fun c => if c = '"' then ['"', '"'] else [c]) ++ ['"']

/-- A name as statements write it. -/
def name (s : String) : String :=
  if isPlainName s then s else String.ofList (doubleQuoted s.toList)

/-- Characters that numbered names leave out. -/
def isGap (c : Char) : Bool := ['%', '(', ')', ':', '.', '[', ']', ' ', '$'].contains c

/-- Characters with an underscore in place of each run of gaps; `inGap` tells that a run has
begun. -/
def closeGapsFrom (inGap : Bool) : List Char → List Char
  | [] => []
  | c :: rest =>
    if isGap c then (if inGap then [] else ['_']) ++ closeGapsFrom true rest
    else c :: closeGapsFrom false rest

/-- Characters with an underscore in place of each run of gaps. -/
def closeGaps (cs : List Char) : List Char := closeGapsFrom false cs

/-- What a parameter's name has in place of a character. -/
def bindChar (c : Char) : Char :=
  if c = '%' then 'P'
  else if c = '(' then 'A'
  else if c = ')' then 'Z'
  else if c = ':' then 'C'
  else if c = '.' || c = '[' || c = ']' || c = ' ' then '_'
  else c

/-- A name that a parameter may have. -/
def bindName (s : String) : String := String.ofList (s.toList.map bindChar)

/-- Characters without the underscores at both ends. -/
def trimUnderscores (cs : List Char) : List Char :=
  ((cs.dropWhile (· == '_')).reverse.dropWhile (· == '_')).reverse

/-- What the names of numbered parameters for a column start with. -/
def bindBase (column : String) : String :=
  String.ofList (trimUnderscores (closeGaps column.toList))

/-- A name, or the first name with a number behind it that is not among those given. -/
def freeName (given : List String) (base : String) : String :=
  if given.contains base then
    let numbered := (List.range given.length).map fun i => base ++ "__" ++ toString (i + 1)
    (numbered.find? (!given.contains ·)).getD base
  else base

/-- How long the name of a numbered parameter may be. -/
def longestName : Nat := 9993

/-- The `n`-th name that is cut: its beginning, and `n` in base sixteen. -/
def cutName (name : String) (n : Nat) : String :=
  String.ofList (name.toList.take longestName ++ '_' :: Nat.toDigits 16 n)

end RowGate.Sql
