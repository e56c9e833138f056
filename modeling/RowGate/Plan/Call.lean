import RowGate.Plan.Operation
/-!
Operations by name and named arguments. A call may name an operation that does not exist, or lack
arguments; only its application tells.
-/
namespace RowGate

/-- An argument of a call. -/
inductive Argument (C : Type) where
  | value (v : Value)
  | window (w : FramedWindow)
  | group (g : Group)
  | calls (cs : List C)

/-- An operation by its name and its named arguments. -/
structure Call where
  kind : String
  arguments : List (String × Argument Call)

/-- A text that may be absent, as a value. -/
def optionalText (s : Option String) : Value := (s.map .text).getD .null

/-- Texts as a tuple. -/
def textTuple (xs : List String) : Value := .tuple (xs.map .text)

mutual

/-- An operation as a call. -/
def Operation.call : Operation → Call
  | .table name operations columns source =>
    ⟨"with_cte", [("name", .value (.text name)), ("operations", .calls (callsOf operations)),
      ("columns", .value (textTuple columns)), ("table", .value (optionalText source))]⟩
  | .recursiveTable name initial recursive keepRepeats columns source recursiveSource
      recursiveColumns =>
    ⟨"with_recursive_cte", [("name", .value (.text name)),
      ("initial", .calls (callsOf initial)), ("recursive", .calls (callsOf recursive)),
      ("union_all", .value (.bool keepRepeats)), ("columns", .value (textTuple columns)),
      ("table", .value (optionalText source)),
      ("recursive_table", .value (optionalText recursiveSource)),
      ("recursive_columns", .value (textTuple recursiveColumns))]⟩
  | .window label fragment =>
    ⟨"select_window", [("alias", .value (.text label)), ("fragment", .value (.text fragment))]⟩
  | .framedWindow w => ⟨"select_advanced_window", [("window", .window w)]⟩
  | .equals values => ⟨"where_equals", [("values", .value (.map values))]⟩
  | .fragment sql bindings =>
    ⟨"where_raw", [("sql", .value (.text sql)), ("bindings", .value (.tuple bindings))]⟩
  | .aggregate type field label =>
    ⟨"aggregate", [("type", .value (.text type)), ("field", .value (.text field)),
      ("alias", .value (.text label))]⟩
  | .condition field operator value =>
    ⟨"where", [("field", .value (.text field)), ("operator", .value (.text operator)),
      ("value", .value value)]⟩
  | .range field low high =>
    ⟨"where_between", [("field", .value (.text field)), ("low", .value low),
      ("high", .value high)]⟩
  | .isNull field => ⟨"where_null", [("field", .value (.text field))]⟩
  | .notNull field => ⟨"where_not_null", [("field", .value (.text field))]⟩
  | .isIn field values =>
    ⟨"where_in", [("field", .value (.text field)), ("values", .value (.tuple values))]⟩
  | .notIn field values =>
    ⟨"where_not_in", [("field", .value (.text field)), ("values", .value (.tuple values))]⟩
  | .exists_ sql bindings =>
    ⟨"where_exists", [("sql", .value (.text sql)), ("bindings", .value (.tuple bindings))]⟩
  | .group g => ⟨"where_group", [("group", .group g)]⟩
  | .groupBy fields => ⟨"group_by", [("fields", .value (textTuple fields))]⟩
  | .having field operator value =>
    ⟨"having", [("field", .value (.text field)), ("operator", .value (.text operator)),
      ("value", .value value)]⟩
  | .orderBy field direction nulls =>
    ⟨"order_by", [("field", .value (.text field)), ("direction", .value (.text direction)),
      ("nulls", .value (optionalText nulls))]⟩
  | .limit count => ⟨"limit", [("count", .value count)]⟩
  | .offset count => ⟨"offset", [("count", .value (.int count))]⟩

/-- Operations as calls. -/
def callsOf : List Operation → List Call
  | [] => []
  | o :: os => o.call :: callsOf os

end

mutual

/-- A call as a map. -/
def Call.toValue (c : Call) : Value :=
  match c with
  | {kind, arguments} => .map [("kind", .text kind), ("args", .map (argumentsToRecord arguments))]

/-- Arguments as the fields of a map. -/
def argumentsToRecord : List (String × Argument Call) → Record
  | [] => []
  | (k, a) :: rest => (k, argumentToValue a) :: argumentsToRecord rest

/-- An argument as a value. -/
def argumentToValue : Argument Call → Value
  | .value v => v
  | .window w => w.toValue
  | .group g => g.toValue
  | .calls cs => .list (callsToValues cs)

/-- Calls as maps. -/
def callsToValues : List Call → List Value
  | [] => []
  | c :: cs => c.toValue :: callsToValues cs

end

namespace Shown

/-- A name with named arguments. -/
def fields (name : String) (args : List (String × String)) : String :=
  name ++ "(" ++ commas (args.map fun (k, v) => k ++ "=" ++ v) ++ ")"

/-- Shown items as a tuple. -/
def tuple : List String → String
  | [x] => "(" ++ x ++ ",)"
  | xs => "(" ++ commas xs ++ ")"

/-- A text that may be absent. -/
def optional (s : Option String) : String := (optionalText s).shown

end Shown

/-- An ordering term as messages show it. -/
def OrderTerm.shown (o : OrderTerm) : String :=
  Shown.fields "OrderBy" [("field", Text.quoted o.field), ("direction", Text.quoted o.direction),
    ("nulls", Shown.optional o.nulls)]

/-- A condition as messages show it. -/
def Condition.shown (c : Condition) : String :=
  Shown.fields "WhereClause" [("field", Text.quoted c.field),
    ("operator", Text.quoted c.operator), ("value", c.value.shown),
    ("boolean", Shown.optional (c.joiner.map (·.name)))]

/-- A group given by its shown members. -/
def shownGroup (connective : Connective) (members : List String) (joiner : Option Connective) :
    String :=
  Shown.fields "WhereGroup" [("type", Text.quoted connective.name),
    ("clauses", Shown.tuple members), ("boolean", Shown.optional (joiner.map (·.name)))]

mutual

/-- A member of a group as messages show it. -/
def GroupMember.shown : GroupMember → String
  | .condition c => c.shown
  | .group connective members joiner => shownGroup connective (shownMembers members) joiner

/-- The members of a group as messages show them. -/
def shownMembers : List GroupMember → List String
  | [] => []
  | m :: ms => m.shown :: shownMembers ms

end

/-- A group as messages show it. -/
def Group.shown (g : Group) : String := shownGroup g.connective (shownMembers g.members) g.joiner

/-- A frame as messages show it. -/
def Frame.shown (f : Frame) : String :=
  Shown.fields "WindowFrame" [("type", Text.quoted f.type), ("start", f.start.toValue.shown),
    ("end", ((f.stop.map FrameBound.toValue).getD .null).shown)]

/-- A framed window as messages show it. -/
def FramedWindow.shown (w : FramedWindow) : String :=
  Shown.fields "AdvancedWindow" [("type", Text.quoted w.type), ("alias", Text.quoted w.label),
    ("field", Shown.optional w.field), ("partition_by", (textTuple w.partitionBy).shown),
    ("order_by", Shown.tuple (w.orderBy.map (·.shown))),
    ("frame", (w.frame.map (·.shown)).getD Value.null.shown),
    ("filter", Shown.tuple (w.conditions.map (·.shown)))]

mutual

/-- A call as messages show it. -/
def Call.shown (c : Call) : String :=
  match c with
  | {kind, arguments} => "Operation(" ++ kind ++ ": " ++ commas (shownArguments arguments) ++ ")"

/-- Arguments as messages show them. -/
def shownArguments : List (String × Argument Call) → List String
  | [] => []
  | (k, a) :: rest => (k ++ "=" ++ shownArgument a) :: shownArguments rest

/-- An argument as messages show it. -/
def shownArgument : Argument Call → String
  | .value v => v.shown
  | .window w => w.shown
  | .group g => g.shown
  | .calls cs => Shown.tuple (shownCalls cs)

/-- Calls as messages show them. -/
def shownCalls : List Call → List String
  | [] => []
  | c :: cs => c.shown :: shownCalls cs

end
end RowGate
