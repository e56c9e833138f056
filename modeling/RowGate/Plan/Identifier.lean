import RowGate.Fault
/-!
Identifiers that may stand in a statement: names of letters, digits and underscores, joined by
dots.
-/
namespace RowGate

/-- First characters of a name. -/
def isNameStart (c : Char) : Bool := c.isAlpha || c == '_'

/-- Further characters of a name. -/
def isNameChar (c : Char) : Bool := c.isAlphanum || c == '_'

/-- Whether names joined by single dots follow; `fresh` tells that a name has to start. -/
def isPathFrom (fresh : Bool) : List Char → Bool
  | [] => !fresh
  | c :: rest =>
    if c = '.' then !fresh && isPathFrom true rest
    else if fresh then isNameStart c && isPathFrom false rest
    else isNameChar c && isPathFrom false rest

/-- A text without the line end at its end. -/
def dropLineEnd (cs : List Char) : List Char :=
  if cs.getLast? = some '\n' then cs.dropLast else cs

/-- An identifier is a path of names; a line end behind it is let pass. -/
def isIdentifier (s : String) : Bool := isPathFrom true (dropLineEnd s.toList)

/-- The name itself if it is an identifier. -/
def checkIdentifier (name : String) : Except Fault String :=
  if isIdentifier name then .ok name else .error (.unsupported (.identifier name))

theorem checkIdentifier_eq {name checked : String} (h : checkIdentifier name = .ok checked) :
    checked = name := by
  unfold checkIdentifier at h
  split at h
  · exact (Except.ok.inj h).symm
  · cases h

/-- The name itself if it is an identifier or the star. -/
def checkColumn (name : String) : Except Fault String :=
  if name = "*" then .ok name else checkIdentifier name

end RowGate
