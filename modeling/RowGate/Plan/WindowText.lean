import RowGate.Plan.Identifier
import RowGate.Query.Basic
import RowGate.Text.Case
import RowGate.Text.Basic
import RowGate.Text.Ranges
/-!
Window columns as text. Every name in the text has been checked, and the text holds no values of
the request.
-/
namespace RowGate

/-- Aggregates that columns and windows may compute. -/
def aggregateTypes : List String := ["count", "sum", "avg", "min", "max"]

/-- Ranking functions, which take no argument unless one is given. -/
def rankingTypes : List String := ["row_number", "rank", "dense_rank", "percent_rank", "cume_dist"]

/-- Functions that windows may compute. -/
def windowTypes : List String :=
  rankingTypes ++ ["ntile", "lag", "lead", "first_value", "last_value", "nth_value"] ++
    aggregateTypes

/-- Words of a frame clause, numbers aside. -/
def frameWords : List String :=
  ["ROWS", "RANGE", "GROUPS", "BETWEEN", "AND", "UNBOUNDED", "PRECEDING", "FOLLOWING", "CURRENT",
    "ROW", "EXCLUDE", "NO", "OTHERS", "GROUP", "TIES"]

/-- The first word of a frame clause. -/
def frameUnits : List String := ["ROWS", "RANGE", "GROUPS"]

/-- A word or number of a frame clause. -/
def isFrameToken (token : String) : Bool :=
  frameWords.contains (Text.upper token) ||
    (!token.isEmpty && token.toList.all Text.isDigitChar)

/-- A frame clause with single blanks between its words. -/
def checkFrameClause (clause : String) : Except Fault String :=
  let tokens := Text.fields clause
  let opens := tokens.head?.any fun t => frameUnits.contains (Text.upper t)
  if opens && tokens.all isFrameToken then .ok (String.intercalate " " tokens)
  else .error (.unsupported (.frameClause clause))

/-- The call of a window function. -/
def functionCall (type : String) (field : Option String) : Except Fault String := do
  if !windowTypes.contains type then .error (.unsupported (.windowType type))
  else if type = "row_number" then .ok "ROW_NUMBER()"
  else
    match field with
    | none =>
      if rankingTypes.contains type then .ok (Text.upper type ++ "()")
      else .ok (Text.upper type ++ "(*)")
    | some f => return Text.upper type ++ "(" ++ (← checkColumn f) ++ ")"

/-- A checked order of nulls. -/
def checkNulls (nulls : String) : Except Fault String :=
  if nulls = "first" || nulls = "last" then .ok nulls
  else .error (.unsupported (.nullOrder nulls))

/-- A checked direction. -/
def checkDirection (direction : String) : Except Fault String :=
  if direction = "asc" || direction = "desc" then .ok direction
  else .error (.unsupported (.sortDirection direction))

/-- An ordering term of a window. -/
def orderText (o : OrderTerm) : Except Fault String := do
  let direction ← checkDirection o.direction
  let term := (← checkIdentifier o.field) ++ " " ++ direction
  match o.nulls with
  | none => return term
  | some nulls => return term ++ " NULLS " ++ Text.upper (← checkNulls nulls)

/-- The clause that describes a window; absent parts leave no trace. -/
def overClause (partitionBy : List String) (orderBy : List OrderTerm) (frame : Option String) :
    Except Fault String := do
  let partition ←
    if partitionBy.isEmpty then pure []
    else do pure ["PARTITION BY " ++ commas (← partitionBy.mapM checkIdentifier)]
  let order ←
    if orderBy.isEmpty then pure []
    else do pure ["ORDER BY " ++ commas (← orderBy.mapM orderText)]
  let frame ←
    match frame with
    | none => pure []
    | some clause => if clause.isEmpty then pure [] else do pure [← checkFrameClause clause]
  return "OVER (" ++ String.intercalate " " (partition ++ order ++ frame) ++ ")"

/-- The clause of a window column. -/
def Window.overClause (w : Window) : Except Fault String :=
  RowGate.overClause w.partitionBy w.orderBy w.frame

/-- A window column without its name. -/
def Window.fragment (w : Window) : Except Fault String := do
  let call ← functionCall w.type w.field
  return call ++ " " ++ (← w.overClause)

/-- The end of a frame in rows from the current one: before it negative, after it positive, without
bound none. An offset counts back at the start of a frame and forward at its end. -/
def FrameBound.rows (b : FrameBound) (atStart : Bool) : Except Fault (Option Int) :=
  match b with
  | .offset n =>
    if n < 0 then .error (.unsupported (.frameOffset n))
    else .ok (some (if atStart then -n else n))
  | .named name =>
    if name = "CURRENT ROW" then .ok (some 0)
    else if name = (if atStart then "UNBOUNDED PRECEDING" else "UNBOUNDED FOLLOWING") then .ok none
    else .error (.unsupported (.frameBound name))

/-- The ends of a frame of rows or of a range; a frame without an end ends at the current row. -/
def Frame.bounds (f : Frame) : Except Fault (Option Int × Option Int) := do
  if f.type != "ROWS" && f.type != "RANGE" then .error (.unsupported (.frameType f.type))
  let start ← f.start.rows true
  return (start, ← (f.stop.getD (.named "CURRENT ROW")).rows false)

end RowGate
