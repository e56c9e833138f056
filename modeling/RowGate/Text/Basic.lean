/-!
Blank characters, and the two ways of removing them; occurrences of one text within another; lists of
texts without repetitions or in ascending order.
-/
namespace RowGate.Text

/-- Spaces, tabs, line and paragraph ends and separators of all scripts. -/
def isBlank (c : Char) : Bool :=
  let n := c.toNat
  (9 ≤ n && n ≤ 13) || (28 ≤ n && n ≤ 32) || n = 0x85 || n = 0xa0 || n = 0x1680 ||
    (0x2000 ≤ n && n ≤ 0x200a) || n = 0x2028 || n = 0x2029 || n = 0x202f || n = 0x205f ||
    n = 0x3000

/-- The characters without the blanks at both ends. -/
def stripChars (cs : List Char) : List Char :=
  ((cs.dropWhile isBlank).reverse.dropWhile isBlank).reverse

/-- The text without the blanks at both ends. -/
def strip (s : String) : String := String.ofList (stripChars s.toList)

/-- Fields of a character list, where `field` holds the current field, last character first. -/
def fieldsFrom (field : List Char) : List Char → List String
  | [] => if field.isEmpty then [] else [String.ofList field.reverse]
  | c :: rest =>
    if isBlank c then
      if field.isEmpty then fieldsFrom [] rest
      else String.ofList field.reverse :: fieldsFrom [] rest
    else fieldsFrom (c :: field) rest

/-- The maximal runs of characters that are not blank. -/
def fields (s : String) : List String := fieldsFrom [] s.toList

/-- Whether the characters `part` stand somewhere in a list. -/
def occursIn (part : List Char) : List Char → Bool
  | [] => part.isEmpty
  | c :: rest => part.isPrefixOf (c :: rest) || occursIn part rest

/-- Whether a text contains another. -/
def contains (s part : String) : Bool := occursIn part.toList s.toList

/-- Pieces between the occurrences of a character, where `piece` holds the current piece, last
character first. -/
def splitFrom (mark : Char) (piece : List Char) : List Char → List (List Char)
  | [] => [piece.reverse]
  | c :: rest =>
    if c = mark then piece.reverse :: splitFrom mark [] rest else splitFrom mark (c :: piece) rest

/-- The pieces of a character list between the occurrences of a character; one more than there are
occurrences. -/
def splitAt (mark : Char) (cs : List Char) : List (List Char) := splitFrom mark [] cs

/-- Texts without repetitions, in the order of their first occurrences. -/
def distinct (xs : List String) : List String :=
  xs.foldl (fun seen x => if seen.contains x then seen else seen ++ [x]) []

/-- Texts in ascending order. -/
def sorted (xs : List String) : List String := xs.mergeSort (· ≤ ·)

end RowGate.Text
