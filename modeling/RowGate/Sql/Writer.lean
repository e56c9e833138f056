import RowGate.Sql.Name
import RowGate.Sql.Select
import RowGate.Sql.Literal
/-!
Statements written as text. Values become named parameters, numbered by the order in which they are
written, or are written into the text. Table expressions at all depths go into one list, each after
those that it declares itself; two of them may not share a name.
-/
namespace RowGate.Sql

/-- A statement as text, with the values of its parameters. -/
structure Written where
  sql : String
  parameters : Record

/-- Where the values of a statement go. -/
inductive Form where
  /-- Values are parameters. -/
  | bound
  /-- Values are part of the text. -/
  | inline
deriving DecidableEq, Repr

/-- A single parameter in the text. -/
def single (name : String) : String := ":" ++ name

/-- A parameter that stands for any number of values. -/
def several (name : String) : String := "__[POSTCOMPILE_" ++ name ++ "]"

/-- A parameter of raw text; one for any number of values has parentheses of its own. -/
def RawBinding.parameter (b : RawBinding) : String :=
  if b.many then "(" ++ several b.name ++ ")" else single b.name

/-- Raw text on its own, with the parameters that it uses. -/
def RawText.written (r : RawText) : Written :=
  let parts := r.parts.flatMap fun
    | .char c => [c]
    | .name n => (((r.binding? n).map RawBinding.parameter).getD (single n)).toList
  let used := r.bindings.filter fun b => r.parts.contains (.name b.name)
  ⟨String.ofList (unescapeColons parts), used.map fun b => (b.name, b.value)⟩

/-- What has been written so far. -/
structure Progress where
  /-- How many numbers of each name are taken. -/
  counts : List (String × Nat)
  /-- How many names have been cut. -/
  cuts : Nat
  /-- The names of the parameters, before characters are replaced. -/
  names : List String
  /-- The table expressions met so far, by name. -/
  known : List (String × Nat)
  /-- Table expressions as text, in order. -/
  entries : List String
  hasRecursion : Bool
  parameters : Record

/-- Nothing written. -/
def Progress.start : Progress := ⟨[], 0, [], [], [], false, []⟩

/-- Writing may fail. -/
abbrev Writing := StateT Progress (Except Fault)

namespace Writing

/-- A name with the next number for it. -/
def numbered (base : String) : Writing String := do
  let p ← get
  let n := (p.counts.lookup base).getD 0 + 1
  set { p with counts := (base, n) :: p.counts }
  return base ++ "_" ++ toString n

/-- The next name of a parameter for a column, cut if it is too long. -/
def parameterName (column : String) : Writing String := do
  let name ← numbered (bindBase column)
  if name.length ≤ longestName then return name
  else
    let n := (← get).cuts + 1
    modify fun p => { p with cuts := n }
    return cutName name n

/-- Takes a name for a parameter and answers how it is written. A name is taken once; one that is
written like another is told apart by a number. -/
def take (name : String) (v : Value) : Writing String := do
  let p ← get
  if p.names.contains name then throw .unwritable
  else
    let written := freeName p.parameters.keys (bindName name)
    set { p with names := name :: p.names, parameters := p.parameters ++ [(written, v)] }
    return written

/-- A text that is there unless the value cannot be written. -/
def orRefuse (s : Option String) : Writing String :=
  match s with
  | some s => return s
  | none => throw .unwritable

/-- A value named after a column. -/
def value (form : Form) (base : String) (v : Value) : Writing String := do
  match form with
  | .inline => orRefuse (literal? v)
  | .bound =>
    return single (← take (← parameterName base) v)

/-- The list of values that a column is sought in, between its parentheses. -/
def values (form : Form) (base : String) (negated : Bool) (vs : List Value) : Writing String := do
  match form with
  | .inline =>
    if vs.isEmpty then return if negated then "NULL) OR (1 = 1" else "NULL) AND (1 != 1"
    else literals vs
  | .bound =>
    return several (← take (← parameterName base) (.list vs))

/-- A parameter of raw text. -/
def rawValue (form : Form) (b : RawBinding) : Writing String := do
  match form, b.many with
  | .bound, _ => return ({ b with name := ← take b.name b.value } : RawBinding).parameter
  | .inline, false => orRefuse (literal? b.value)
  | .inline, true =>
    let vs := b.value.items?.getD []
    if vs.isEmpty then return "(SELECT 1 WHERE 1!=1)"
    else return "(" ++ (← literals vs) ++ ")"

/-- Raw text with its parameters. Backslashes before colons go last, also from written values. -/
def raw (form : Form) (r : RawText) : Writing String := do
  let parts ← r.parts.mapM fun
    | .char c => return [c]
    | .name n =>
      match r.binding? n with
      | some b => return (← rawValue form b).toList
      | none => return ':' :: n.toList
  return String.ofList (unescapeColons parts.flatten)

/-- A base table as text. -/
def table (schema : Option String) (table : String) : String :=
  match schema with
  | some s => name s ++ "." ++ name table
  | none => name table

/-- A column as text. -/
def column : Column → String
  | .named n => name n
  | .inTable schema t n => table schema t ++ "." ++ name n
  | .verbatim t => t

/-- The word between a column and what it is compared to, negated or not. -/
def negatable (negated : Bool) (word : String) : String := if negated then "NOT " ++ word else word

/-- A test as text. -/
def test (form : Form) : Test → Writing String
  | .isNull c negated => return column c ++ " IS " ++ negatable negated "NULL"
  | .isTruth c equal b =>
    return column c ++ (if equal then " = " else " != ") ++ (if b then "true" else "false")
  | .compare c op v => return column c ++ " " ++ op.sign ++ " " ++ (← value form c.key v)
  | .like c negated v =>
    return column c ++ " " ++ negatable negated "LIKE" ++ " " ++ (← value form c.key v)
  | .likeAnyCase c v =>
    return "lower(" ++ column c ++ ") LIKE lower(" ++ (← value form c.key v) ++ ")"
  | .between c low high => do
    let low ← value form c.key low
    return column c ++ " BETWEEN " ++ low ++ " AND " ++ (← value form c.key high)
  | .isIn c false vs => return column c ++ " IN (" ++ (← values form c.key false vs) ++ ")"
  | .isIn c true vs => return "(" ++ column c ++ " NOT IN (" ++ (← values form c.key true vs) ++ "))"
  | .raw r => raw form r

/-- A piece of a condition as text. -/
def piece (form : Form) : Piece Test → Writing String
  | .one t => test form t
  | .join .and => return " AND "
  | .join .or => return " OR "
  | .open_ => return "("
  | .close => return ")"

/-- A condition as text. -/
def criterion (form : Form) (c : Criterion) : Writing String := do
  return String.join (← c.pieces.mapM (piece form))

/-- An ordering term as text. -/
def sort (s : OrderKey) : String :=
  column s.column ++ (if s.descending then " DESC" else " ASC") ++
    match s.nullsFirst with
    | some true => " NULLS FIRST"
    | some false => " NULLS LAST"
    | none => ""

/-- The end of a frame; one that is unbounded is given its text. -/
def frameEnd (form : Form) (unbounded : String) : Option Int → Writing String
  | none => return unbounded
  | some n => do
    if n = 0 then return "CURRENT ROW"
    else
      let count ← value form "param" (.int n.natAbs)
      return count ++ (if n < 0 then " PRECEDING" else " FOLLOWING")

/-- A frame as text. -/
def frame (form : Form) (f : FrameEnds) : Writing String := do
  let start ← frameEnd form "UNBOUNDED PRECEDING" f.start
  return f.unit ++ " BETWEEN " ++ start ++ " AND " ++
    (← frameEnd form "UNBOUNDED FOLLOWING" f.stop)

/-- The name of a function: quoted only for characters that names do not have. -/
def functionName (s : String) : String :=
  if s.toList.all isPlainChar then s else String.ofList (doubleQuoted s.toList)

/-- A window column as text. Counting without an argument counts rows. -/
def windowColumn (form : Form) (w : Over) : Writing String := do
  let argument :=
    match w.argument with
    | some c => column c
    | none => if w.function = "count" then "*" else ""
  let filter ←
    match w.criterion with
    | some c => do pure (" FILTER (WHERE " ++ (← criterion form c) ++ ")")
    | none => pure ""
  let partition :=
    if w.partition.isEmpty then [] else ["PARTITION BY " ++ commas (w.partition.map column)]
  let order := if w.order.isEmpty then [] else ["ORDER BY " ++ commas (w.order.map sort)]
  let frame ←
    match w.frame with
    | some f => do pure [← frame form f]
    | none => pure []
  return functionName w.function ++ "(" ++ argument ++ ")" ++ filter ++ " OVER (" ++
    String.intercalate " " (partition ++ order ++ frame) ++ ")"

/-- A selected column as text. -/
def projection (form : Form) : Projection → Writing String
  | .column c => return column c
  | .aggregate f c label => return f ++ "(" ++ column c ++ ") AS " ++ name label
  | .window text label => return text ++ " AS " ++ name label
  | .framed w label => return (← windowColumn form w) ++ " AS " ++ name label

/-- A source as text. The table expression of a name has to be the one that is meant. -/
def source : Source → Writing String
  | .table schema t => return table schema t
  | .common id t => do
    match (← get).known.lookup t with
    | some other => if other = id then return name t else throw .unwritable
    | none => return name t

/-- A clause that is left out if there is nothing in it. -/
def clause (opening : String) : List String → String
  | [] => ""
  | parts => opening ++ commas parts

/-- A condition behind its keyword, if there is one. -/
def condition (form : Form) (opening : String) (cs : List Criterion) : Writing String := do
  match Joined.conjunction cs with
  | some c => return opening ++ (← criterion form c)
  | none => return ""

/-- A count behind its keyword, if there is one. -/
def count (form : Form) (opening : String) : Option Int → Writing String
  | some n => return opening ++ (← value form "param" (.int n))
  | none => return ""

/-- The clauses of a statement in order. An offset without a limit is given a limit without
effect. -/
def body (form : Form) (b : Body) : Writing String := do
  let columns ← b.projection.mapM (projection form)
  let source ← source b.source
  let criteria ← condition form " \nWHERE " b.criteria
  let having ← condition form " \nHAVING " b.having
  let limit ← count form "\n LIMIT " b.limit
  let offset ← count form " OFFSET " b.offset
  let unlimited := if b.limit.isNone && b.offset.isSome then "\n LIMIT -1" else ""
  return "SELECT " ++ commas columns ++ " \nFROM " ++ source ++ criteria ++
    clause " GROUP BY " (b.groupBy.map column) ++ having ++
    clause " ORDER BY " (b.orderBy.map sort) ++ limit ++ unlimited ++ offset

/-- Names of plain columns in a column list; a name that has been given is numbered. -/
def columnNames (given : List String) (counts : List (String × Nat)) : List String → List String
  | [] => []
  | c :: rest =>
    if given.contains c then
      let base := String.ofList (closeGaps c.toList)
      let n := (counts.lookup base).getD 0 + 1
      (base ++ "_" ++ toString n) :: columnNames given ((base, n) :: counts) rest
    else c :: columnNames (c :: given) counts rest

/-- Labels in a column list; a label that has been given is numbered. -/
def labelNames (given : List String) : List String → Writing (List String)
  | [] => return []
  | l :: rest => do
    let n ← if given.contains l then numbered (String.ofList (closeGaps l.toList)) else pure l
    return n :: (← labelNames (l :: given) rest)

/-- The column list of a recursive table expression. -/
def columnList (b : Body) : Writing String := do
  let plain := b.projection.filterMap fun
    | .column c => some c.key
    | _ => none
  let labels ← labelNames [] (b.projection.filterMap (·.label?))
  return "(" ++ commas ((columnNames [] [] plain ++ labels).map name) ++ ")"

/-- Notes a table expression. The answer tells whether it was new; another one of its name may not
have been noted. -/
def meet (id : Nat) (table : String) : Writing Bool := do
  let p ← get
  match p.known.lookup table with
  | some other => if other = id then return false else throw .unwritable
  | none =>
    set { p with known := (table, id) :: p.known }
    return true

/-- Adds the text of a table expression. -/
def addEntry (opening query : String) : Writing Unit :=
  modify fun p => { p with entries := p.entries ++ [opening ++ " AS \n(" ++ query ++ ")"] }

/-- Both halves of a table expression need to have the same number of columns. -/
def matching (initial recursive : Body) : Writing Unit :=
  if initial.projection.length = recursive.projection.length then return else throw .unwritable

/-- Parentheses where they are needed. -/
def grouped (needed : Bool) (s : String) : String := if needed then "(" ++ s ++ ")" else s

end Writing

mutual

/-- A statement as text, without the list of table expressions. -/
def Select.write (form : Form) : Select → Writing String
  | .mk tables body => do
    writeTables form tables
    Writing.body form body

/-- Table expressions as entries of the list. -/
def writeTables (form : Form) : List CommonTable → Writing Unit
  | [] => return
  | t :: ts => do
    t.write form
    writeTables form ts

/-- A table expression as an entry of the list. -/
def CommonTable.write (form : Form) : CommonTable → Writing Unit
  | .plain id table query => do
    if ← Writing.meet id table then
      Writing.addEntry (name table) (← query.write form)
  | .recursive id table initial recursive keepRepeats => do
    if ← Writing.meet id table then
      modify fun p => { p with hasRecursion := true }
      let columns ← Writing.columnList initial.body
      let first ← initial.write form
      Writing.matching initial.body recursive.body
      let next ← recursive.write form
      Writing.addEntry (name table ++ columns)
        (Writing.grouped initial.needsParentheses first ++
          (if keepRepeats then " UNION ALL " else " UNION ") ++
          Writing.grouped recursive.needsParentheses next)

end

/-- A statement as text, with the list of its table expressions in front. -/
def Select.written (form : Form) (s : Select) : Except Fault Written := do
  let (text, p) ← (s.write form).run Progress.start
  let tables :=
    if p.entries.isEmpty then ""
    else (if p.hasRecursion then "WITH RECURSIVE " else "WITH ") ++
      String.intercalate ", \n" p.entries ++ "\n "
  return ⟨tables ++ text, p.parameters⟩

/-- The text to show for a statement: with its values or, if they cannot be written, with
parameters. -/
def Select.shown (s : Select) : Except Fault String :=
  match s.written .inline with
  | .error .unwritable => (s.written .bound).map (·.sql)
  | w => w.map (·.sql)

end RowGate.Sql
