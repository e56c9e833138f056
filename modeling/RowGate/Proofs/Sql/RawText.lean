import Mathlib.Data.List.Basic
import RowGate.Sql.RawText
import RowGate.Proofs.Number.Digits
import RowGate.Proofs.Sequence
/-!
Raw text around its parameters. Main statements: each question mark is read as its own parameter
exactly if it stands apart from what is around it, and exactly the colons that are not doubtful come
out as they were given.
-/
namespace RowGate.Sql

/-! ## Question marks replaced by items -/

section Placing

variable {α : Type}

/-- Characters as items, with given items in place of the question marks. -/
def placed (char : Char → α) : List α → List Char → List α
  | _, [] => []
  | [], c :: rest => char c :: placed char [] rest
  | a :: as, c :: rest =>
    if c = '?' then a :: placed char as rest else char c :: placed char (a :: as) rest

variable {char : Char → α}

@[simp] theorem placed_nil (as : List α) : placed char as [] = [] := by
  cases as <;> rfl

theorem placed_hole (a : α) (as : List α) (rest : List Char) :
    placed char (a :: as) ('?' :: rest) = a :: placed char as rest := if_pos rfl

theorem placed_char (as : List α) {c : Char} (hc : c ≠ '?') (rest : List Char) :
    placed char as (c :: rest) = char c :: placed char as rest := by
  cases as with
  | nil => rfl
  | cons a as => exact if_neg hc

end Placing

/-- A part as it stands in the text. -/
def RawPart.text : RawPart → List Char
  | .char c => [c]
  | .name n => ':' :: n.toList

/-- The parts of a text whose question marks are parameters. -/
def named (names : List String) (cs : List Char) : List RawPart :=
  placed .char (names.map .name) cs

theorem named_nil (names : List String) : named names [] = [] := placed_nil _

theorem named_hole (n : String) (names : List String) (rest : List Char) :
    named (n :: names) ('?' :: rest) = .name n :: named names rest := placed_hole _ _ _

theorem named_char (names : List String) {c : Char} (hc : c ≠ '?') (rest : List Char) :
    named names (c :: rest) = .char c :: named names rest := placed_char _ hc _

/-- Parts as text. -/
def partsText (parts : List RawPart) : List Char := parts.flatMap RawPart.text

theorem joinPieces_cons (n : String) (names : List String) (piece next : List Char)
    (rest : List (List Char)) : joinPieces (n :: names) (piece :: next :: rest) =
      piece ++ ':' :: n.toList ++ joinPieces names (next :: rest) := rfl

theorem joinPieces_single (names : List String) (piece : List Char) :
    joinPieces names [piece] = piece := by
  cases names <;> exact List.append_nil piece

theorem splitFrom_ne_nil (mark : Char) (piece cs : List Char) :
    Text.splitFrom mark piece cs ≠ [] := by
  induction cs generalizing piece with
  | nil => exact List.cons_ne_nil _ _
  | cons c rest ih =>
    unfold Text.splitFrom
    split
    · exact List.cons_ne_nil _ _
    · exact ih (c :: piece)

/-- Pieces joined by names are the text whose question marks are those names. -/
theorem joinPieces_split {names : List String} {piece cs : List Char}
    (hcount : names.length = cs.count '?') :
    joinPieces names (Text.splitFrom '?' piece cs) =
      piece.reverse ++ partsText (named names cs) := by
  induction cs generalizing names piece with
  | nil => rw [Text.splitFrom, joinPieces_single, named_nil]; simp [partsText]
  | cons c rest ih =>
    by_cases hc : c = '?'
    · subst hc
      cases names with
      | nil => simp at hcount
      | cons n names =>
        have hrest : names.length = rest.count '?' := by simpa using hcount
        rw [Text.splitFrom, if_pos rfl]
        cases hsplit : Text.splitFrom '?' [] rest with
        | nil => exact absurd hsplit (splitFrom_ne_nil _ _ _)
        | cons next others =>
          rw [joinPieces_cons, ← hsplit, ih hrest, named_hole]
          simp [partsText, RawPart.text]
    · have hrest : names.length = rest.count '?' := by
        rwa [List.count_cons_of_ne hc] at hcount
      rw [Text.splitFrom, if_neg hc, ih hrest, named_char names hc]
      simp [partsText, RawPart.text]

theorem length_splitFrom (piece cs : List Char) :
    (Text.splitFrom '?' piece cs).length = cs.count '?' + 1 := by
  induction cs generalizing piece with
  | nil => rfl
  | cons c rest ih =>
    by_cases hc : c = '?'
    · subst hc
      rw [Text.splitFrom, if_pos rfl, List.length_cons, ih, List.count_cons_self]
    · rw [Text.splitFrom, if_neg hc, ih, List.count_cons_of_ne hc]

/-! ## Escaped colons -/

/-- A colon that would start a parameter. -/
def startsName (before : Option Char) (rest : List Char) : Bool :=
  opensAfter before && rest.head?.any Text.isWord

theorem escapeColons_colon (before : Option Char) (rest : List Char) :
    escapeColons before (':' :: rest) =
      (if startsName before rest then ['\\', ':'] else [':']) ++ escapeColons (some ':') rest := rfl

theorem escapeColons_char (before : Option Char) {c : Char} (hc : c ≠ ':') (rest : List Char) :
    escapeColons before (c :: rest) = c :: escapeColons (some c) rest := by
  rw [escapeColons]
  exact hc

theorem count_escapeColons (before : Option Char) (cs : List Char) :
    (escapeColons before cs).count '?' = cs.count '?' := by
  induction cs generalizing before with
  | nil => rfl
  | cons c rest ih =>
    by_cases hc : c = ':'
    · subst hc
      rw [escapeColons_colon, List.count_append, ih]
      split <;> simp
    · rw [escapeColons_char before hc, List.count_cons, ih, List.count_cons]

/-! ## Parameters of a text -/

/-- Whether a parameter may start behind a character of a text with question marks. -/
def opensHole (before : Option Char) : Bool := opensAfter before && before != some '?'

/-- Whether a parameter ends before a text with question marks. A colon that is escaped ends it. -/
def endsHole : List Char → Bool
  | [] => true
  | c :: rest => !Text.isWord c && c != '?' && (c != ':' || rest.head?.any Text.isWord)

/-- Whether each question mark of a text stands apart from its neighbours: there is no colon,
backslash, word character or question mark before it, and behind it no word character, no question
mark, and no colon but one before a word. -/
def standsApart (before : Option Char) : List Char → Bool
  | [] => true
  | c :: rest => (c != '?' || opensHole before && endsHole rest) && standsApart (some c) rest

theorem standsApart_hole (before : Option Char) (rest : List Char) :
    standsApart before ('?' :: rest) =
      (opensHole before && endsHole rest && standsApart (some '?') rest) := by
  simp [standsApart]

theorem standsApart_char (before : Option Char) {c : Char} (hc : c ≠ '?') (rest : List Char) :
    standsApart before (c :: rest) = standsApart (some c) rest := by
  simp [standsApart, hc]

/-- Names of parameters: they are not empty, and have word characters only. -/
def AreNames (names : List String) : Prop :=
  ∀ n ∈ names, n.toList ≠ [] ∧ ∀ c ∈ n.toList, Text.isWord c = true

/-- The text of a fragment behind an opening, up to its closing parenthesis. -/
def holeText (names : List String) (before : Option Char) (cs : List Char) : List Char :=
  partsText (named names (escapeColons before cs)) ++ [')']

section Parts

theorem isWord_closing : Text.isWord ')' = false := by decide

theorem isWord_colon : Text.isWord ':' = false := by decide

theorem isWord_backslash : Text.isWord '\\' = false := by decide

theorem holeText_nil (names : List String) (before : Option Char) :
    holeText names before [] = [')'] := by
  simp [holeText, escapeColons, named_nil, partsText]

theorem holeText_hole (n : String) (names : List String) (before : Option Char)
    (rest : List Char) : holeText (n :: names) before ('?' :: rest) =
      ':' :: (n.toList ++ holeText names (some '?') rest) := by
  rw [holeText, escapeColons_char before (by decide), named_hole]
  simp [holeText, partsText, RawPart.text]

theorem holeText_escaped (names : List String) {before : Option Char} {rest : List Char}
    (h : startsName before rest = true) : holeText names before (':' :: rest) =
      '\\' :: ':' :: holeText names (some ':') rest := by
  rw [holeText, escapeColons_colon, if_pos h]
  simp only [List.cons_append, List.nil_append]
  rw [named_char names (by decide), named_char names (by decide)]
  simp [holeText, partsText, RawPart.text]

theorem holeText_colon (names : List String) {before : Option Char} {rest : List Char}
    (h : startsName before rest = false) : holeText names before (':' :: rest) =
      ':' :: holeText names (some ':') rest := by
  rw [holeText, escapeColons_colon, if_neg (by simp [h])]
  simp only [List.cons_append, List.nil_append]
  rw [named_char names (by decide)]
  simp [holeText, partsText, RawPart.text]

theorem holeText_char (names : List String) (before : Option Char) {c : Char} (hhole : c ≠ '?')
    (hcolon : c ≠ ':') (rest : List Char) : holeText names before (c :: rest) =
      c :: holeText names (some c) rest := by
  rw [holeText, escapeColons_char before hcolon, named_char names hhole]
  simp [holeText, partsText, RawPart.text]

/-- A parameter ends where its text is followed by neither a word nor a colon. -/
theorem endsHole_iff {names : List String} {rest : List Char}
    (hcount : names.length = rest.count '?') :
    endsHole rest = true ↔ ∃ d tail, holeText names (some '?') rest = d :: tail ∧
      Text.isWord d = false ∧ d ≠ ':' := by
  cases rest with
  | nil => simp [holeText_nil, endsHole, isWord_closing]
  | cons c rest =>
    by_cases hhole : c = '?'
    · subst hhole
      cases names with
      | nil => simp at hcount
      | cons n names => simp [holeText_hole, endsHole]
    by_cases hcolon : c = ':'
    · subst hcolon
      have hopens : opensAfter (some '?') = true := by decide
      cases hword : rest.head?.any Text.isWord with
      | true =>
        have hstarts : startsName (some '?') rest = true := by simp [startsName, hopens, hword]
        rw [holeText_escaped names hstarts]
        simp [endsHole, isWord_colon, isWord_backslash, hword]
      | false =>
        have hstarts : startsName (some '?') rest = false := by simp [startsName, hword]
        rw [holeText_colon names hstarts]
        simp [endsHole, hword]
    · rw [holeText_char names _ hhole hcolon]
      simp [endsHole, hhole, hcolon]

theorem getLast?_cons_or (c : Char) (cs : List Char) (before : Option Char) :
    (c :: cs).getLast?.or before = cs.getLast?.or (some c) := by
  cases cs with
  | nil => rfl
  | cons d cs => simp [List.getLast?_eq_some_getLast]

/-- The characters of a name belong to it. -/
theorem partsFrom_skip (before : Option Char) (cs rest : List Char) :
    partsFrom before cs.length (cs ++ rest) = partsFrom (cs.getLast?.or before) 0 rest := by
  induction cs generalizing before with
  | nil => simp
  | cons c cs ih =>
    rw [List.length_cons, List.cons_append, partsFrom, ih, getLast?_cons_or]

theorem partsFrom_char (before : Option Char) {c : Char} (hc : c ≠ ':') (rest : List Char) :
    partsFrom before 0 (c :: rest) = .char c :: partsFrom (some c) 0 rest := by
  simp [partsFrom, hc]

/-- A colon that starts no parameter is a character. -/
theorem partsFrom_colon {before : Option Char} {rest : List Char}
    (h : opensAfter before = false ∨ ∃ d tail, rest = d :: tail ∧ Text.isWord d = false) :
    partsFrom before 0 (':' :: rest) = .char ':' :: partsFrom (some ':') 0 rest := by
  rcases h with hopens | ⟨d, tail, rfl, hd⟩
  · simp [partsFrom, hopens]
  · simp [partsFrom, hd]

/-- A colon before a name starts a parameter of that name exactly if one may start behind what is
before it, and the name ends there. -/
theorem partsFrom_name {before : Option Char} {n : String} {d : Char} {rest : List Char}
    (hne : n.toList ≠ []) (hword : ∀ c ∈ n.toList, Text.isWord c = true) (parts : List RawPart) :
    partsFrom before 0 (':' :: (n.toList ++ d :: rest)) = .name n :: parts ↔
      opensAfter before = true ∧ Text.isWord d = false ∧ d ≠ ':' ∧
        partsFrom n.toList.getLast? 0 (d :: rest) = parts := by
  have htake : (n.toList ++ d :: rest).takeWhile Text.isWord =
      n.toList ++ (d :: rest).takeWhile Text.isWord := List.takeWhile_append_of_pos hword
  have hdrop : (n.toList ++ d :: rest).dropWhile Text.isWord =
      (d :: rest).dropWhile Text.isWord := List.dropWhile_append_of_pos hword
  rw [partsFrom]
  simp only [htake, hdrop]
  by_cases hd : Text.isWord d = true
  · rw [List.takeWhile_cons_of_pos hd]
    split <;> simp [hd]
  · rw [List.takeWhile_cons_of_neg hd, List.dropWhile_cons_of_neg hd, List.append_nil]
    have hskip := partsFrom_skip (some ':') n.toList (d :: rest)
    have hlast : n.toList.getLast?.or (some ':') = n.toList.getLast? := by
      simp [List.getLast?_eq_some_getLast hne]
    rw [hlast] at hskip
    by_cases hopens : opensAfter before = true
    · by_cases hcolon : d = ':'
      · simp [hopens, hcolon]
      · simp [hopens, hcolon, hd, hskip, hne]
    · simp [hopens]

/-- A text that does not begin with a word is none in the statement either. -/
theorem headless_holeText {names : List String} {before : Option Char} {rest : List Char}
    (hcount : names.length = rest.count '?') (h : rest.head?.any Text.isWord = false) :
    ∃ d tail, holeText names before rest = d :: tail ∧ Text.isWord d = false := by
  cases rest with
  | nil => exact ⟨_, _, holeText_nil names before, isWord_closing⟩
  | cons c rest =>
    by_cases hcolon : c = ':'
    · subst hcolon
      cases hstarts : startsName before rest with
      | true => exact ⟨_, _, holeText_escaped names hstarts, isWord_backslash⟩
      | false => exact ⟨_, _, holeText_colon names hstarts, isWord_colon⟩
    by_cases hhole : c = '?'
    · subst hhole
      cases names with
      | nil => simp at hcount
      | cons n names => exact ⟨_, _, holeText_hole n names before rest, isWord_colon⟩
    · exact ⟨_, _, holeText_char names before hhole hcolon rest, by simpa using h⟩

theorem opensAfter_word {c : Char} (hc : Text.isWord c = true) : opensAfter (some c) = false := by
  simp [opensAfter, hc]

/-- Each question mark is read as its own parameter, and nothing else as one, exactly if all of them
stand apart. -/
theorem partsFrom_holeText {names : List String} {before last : Option Char} {sql : List Char}
    (hnames : AreNames names) (hcount : names.length = sql.count '?')
    (hlast : opensAfter last = opensHole before) :
    partsFrom last 0 (holeText names before sql) =
        named names (escapeColons before sql) ++ [.char ')'] ↔
      standsApart before sql = true := by
  induction sql generalizing names before last with
  | nil => simp [holeText_nil, partsFrom, escapeColons, named_nil, standsApart]
  | cons c sql ih =>
    by_cases hhole : c = '?'
    · subst hhole
      cases names with
      | nil => simp at hcount
      | cons n names =>
        obtain ⟨⟨hne, hword⟩, hnames⟩ := List.forall_mem_cons.mp hnames
        have hrest : names.length = sql.count '?' := by simpa using hcount
        have hnext : opensAfter n.toList.getLast? = opensHole (some '?') := by
          rw [List.getLast?_eq_some_getLast hne, opensAfter_word (hword _ (List.getLast_mem hne))]
          rfl
        have hends := endsHole_iff hrest
        have hparts := ih hnames hrest hnext
        rw [holeText_hole, escapeColons_char before (by decide), named_hole, standsApart_hole,
          List.cons_append]
        cases htext : holeText names (some '?') sql with
        | nil => exact absurd htext (by simp [holeText])
        | cons d tail =>
          rw [htext] at hends hparts
          rw [partsFrom_name hne hword, hlast, hparts, Bool.and_eq_true, Bool.and_eq_true, hends]
          simp [and_assoc]
    by_cases hcolon : c = ':'
    · subst hcolon
      have hrest : names.length = sql.count '?' := by simpa using hcount
      have hnext : opensAfter (some ':') = opensHole (some ':') := rfl
      have hparts := ih hnames hrest hnext
      rw [standsApart_char before (by decide), escapeColons_colon]
      cases hstarts : startsName before sql with
      | true =>
        have hbackslash : opensAfter (some '\\') = false := by decide
        rw [holeText_escaped names hstarts, partsFrom_char last (by decide),
          partsFrom_colon (.inl hbackslash)]
        simp only [if_true, List.cons_append, List.nil_append]
        rw [named_char names (by decide), named_char names (by decide)]
        simpa using hparts
      | false =>
        have hcharacter : partsFrom last 0 (':' :: holeText names (some ':') sql) =
            .char ':' :: partsFrom (some ':') 0 (holeText names (some ':') sql) := by
          apply partsFrom_colon
          cases hopens : opensAfter before with
          | false => exact .inl (by simp [hlast, opensHole, hopens])
          | true =>
            exact .inr (headless_holeText hrest (by simpa [startsName, hopens] using hstarts))
        rw [holeText_colon names hstarts, hcharacter]
        simp only [Bool.false_eq_true, if_false, List.cons_append, List.nil_append]
        rw [named_char names (by decide)]
        simpa using hparts
    · rw [holeText_char names before hhole hcolon, partsFrom_char last hcolon,
        escapeColons_char before hcolon, named_char names hhole, standsApart_char before hhole,
        List.cons_append, List.cons.injEq, ih hnames (by simpa [hhole] using hcount)]
      · simp
      · simp [opensHole, hhole]

end Parts

/-! ## Fragments -/

/-- An opening that raw text stands behind. -/
structure IsOpening (opening : String) : Prop where
  closed : ∃ front, opening.toList = front ++ ['(']
  plain : ':' ∉ opening.toList
  unescaped : '\\' ∉ opening.toList

theorem isOpening_parenthesis : IsOpening "(" := ⟨⟨[], rfl⟩, by decide, by decide⟩

theorem isOpening_exists : IsOpening "EXISTS (" := ⟨⟨"EXISTS ".toList, rfl⟩, by decide, by decide⟩

/-- Parts whose question marks are parameters, between an opening and a closing parenthesis. -/
def fragmentParts (opening : String) (names : List String) (sql : List Char) : List RawPart :=
  opening.toList.map .char ++ named names (escapeColons none sql) ++ [.char ')']

section Fragments

theorem areNames_rawNames (first count : Nat) : AreNames (rawNames first count) := by
  intro n hn
  obtain ⟨i, -, rfl⟩ := List.mem_map.mp hn
  rw [String.toList_append]
  constructor
  · simp
  · intro c hc
    rcases List.mem_append.mp hc with hletter | hdigit
    · have hletters : "raw_".toList.all Text.isWord = true := by decide
      exact List.all_eq_true.mp hletters c hletter
    · have hdigit : c.isDigit = true := Number.allDigits_natText (first + i) c hdigit
      exact Text.isWord_of_isAlphanum (by simp [Char.isAlphanum, hdigit])

theorem length_rawNames (first count : Nat) : (rawNames first count).length = count := by
  simp [rawNames]

theorem numbered_inj (base : String) {m n : Nat} :
    base ++ toString m = base ++ toString n ↔ m = n := by
  constructor
  · intro h
    have hlist := congrArg String.toList h
    simp only [String.toList_append, List.append_cancel_left_eq] at hlist
    rw [← Number.numberOf_natText m, ← Number.numberOf_natText n, hlist]
  · rintro rfl
    rfl

theorem nodup_rawNames (first count : Nat) : (rawNames first count).Nodup := by
  apply List.nodup_range.map
  intro i j h
  have hsum := (numbered_inj "raw_").mp h
  omega

/-- Characters without a colon are no part of a parameter. -/
theorem partsFrom_plain {cs : List Char} (h : ':' ∉ cs) (before : Option Char) (rest : List Char) :
    partsFrom before 0 (cs ++ rest) =
      cs.map .char ++ partsFrom (cs.getLast?.or before) 0 rest := by
  induction cs generalizing before with
  | nil => simp
  | cons c cs ih =>
    obtain ⟨hc, hcs⟩ : ':' ≠ c ∧ ':' ∉ cs := by simpa using h
    rw [List.cons_append, partsFrom_char before (Ne.symm hc), ih hcs, getLast?_cons_or]
    rfl

/-- A parameter of a text is declared in it. -/
theorem declared_of_part {n : String} {before : Option Char} {skip : Nat} {cs : List Char}
    (h : .name n ∈ partsFrom before skip cs) : n ∈ declaredNames before cs := by
  induction cs generalizing before skip with
  | nil => simp [partsFrom] at h
  | cons c cs ih =>
    rw [declaredNames]
    cases skip with
    | succ k =>
      rw [partsFrom] at h
      exact List.mem_append_right _ (ih h)
    | zero =>
      rw [partsFrom] at h
      split at h
      · rename_i hparameter
        rcases List.mem_cons.mp h with heq | hrest
        · obtain rfl := RawPart.name.inj heq
          apply List.mem_append_left
          simp_all
        · exact List.mem_append_right _ (ih hrest)
      · rcases List.mem_cons.mp h with heq | hrest
        · cases heq
        · exact List.mem_append_right _ (ih hrest)

theorem name_mem_named {names : List String} {cs : List Char}
    (hcount : names.length = cs.count '?') : ∀ n ∈ names, .name n ∈ named names cs := by
  induction cs generalizing names with
  | nil =>
    obtain rfl : names = [] := List.eq_nil_of_length_eq_zero (by simpa using hcount)
    exact List.forall_mem_nil _
  | cons c cs ih =>
    by_cases hhole : c = '?'
    · subst hhole
      cases names with
      | nil => simp at hcount
      | cons n names =>
        have hrest : names.length = cs.count '?' := by simpa using hcount
        rw [named_hole]
        intro m hm
        rcases List.mem_cons.mp hm with rfl | hm
        · exact List.mem_cons_self
        · exact List.mem_cons_of_mem _ (ih hrest m hm)
    · rw [named_char names hhole]
      rw [List.count_cons_of_ne hhole] at hcount
      exact fun m hm => List.mem_cons_of_mem _ (ih hcount m hm)

variable {opening sql : String} {bindings : List Value} {first : Nat}

/-- There are as many values as question marks, or the values are refused. -/
theorem checkBindings_eq (sql : String) (bindings : List Value) : checkBindings sql bindings =
    if sql.toList.count '?' = bindings.length then .ok ()
    else .error (.violation (.bindingCount (sql.toList.count '?') bindings.length sql)) := by
  unfold checkBindings rawPieces Text.splitAt
  simp only [length_splitFrom, count_escapeColons, Nat.add_sub_cancel]

theorem fragment_text (opening : String) (hcount : sql.toList.count '?' = bindings.length) :
    opening.toList ++ joinPieces (rawNames first bindings.length) (rawPieces sql) ++ [')'] =
      opening.toList ++ holeText (rawNames first bindings.length) none sql.toList := by
  have hnames : (rawNames first bindings.length).length =
      (escapeColons none sql.toList).count '?' := by
    rw [length_rawNames, count_escapeColons, hcount]
  unfold rawPieces Text.splitAt
  rw [joinPieces_split hnames, List.append_assoc]
  rfl

variable (first) in
/-- The question marks of a fragment are its parameters, and nothing else is one, exactly if they
stand apart. -/
theorem fragment_parts (hopening : IsOpening opening)
    (hcount : sql.toList.count '?' = bindings.length) :
    partsFrom none 0 (opening.toList ++ holeText (rawNames first bindings.length) none sql.toList) =
        fragmentParts opening (rawNames first bindings.length) sql.toList ↔
      standsApart none sql.toList = true := by
  obtain ⟨front, hfront⟩ := hopening.closed
  have hlast : opening.toList.getLast?.or none = some '(' := by simp [hfront]
  have hopens : opensAfter (some '(') = opensHole none := by decide
  have hnames : (rawNames first bindings.length).length = sql.toList.count '?' := by
    rw [length_rawNames, hcount]
  rw [partsFrom_plain hopening.plain, hlast, fragmentParts, List.append_assoc,
    List.append_cancel_left_eq]
  exact partsFrom_holeText (areNames_rawNames _ _) hnames hopens

variable (first) in
/-- Raw text with as many values as question marks, all of which stand apart, is built. -/
theorem of_standsApart (hopening : IsOpening opening)
    (hcount : sql.toList.count '?' = bindings.length)
    (hapart : standsApart none sql.toList = true) :
    ∃ r, RawText.of first opening sql bindings = .ok r := by
  have hparts := (fragment_parts first hopening hcount).mpr hapart
  have hnames : (rawNames first bindings.length).length =
      (escapeColons none sql.toList).count '?' := by
    rw [length_rawNames, count_escapeColons, hcount]
  have hdeclared : (rawNames first bindings.length).all (declaredNames none
      (opening.toList ++ holeText (rawNames first bindings.length) none sql.toList)).contains =
        true := by
    rw [List.all_eq_true]
    intro n hn
    have hpart : .name n ∈ partsFrom none 0
        (opening.toList ++ holeText (rawNames first bindings.length) none sql.toList) := by
      rw [hparts]
      apply List.mem_append_left
      apply List.mem_append_right
      exact name_mem_named hnames n hn
    rw [List.contains_iff_mem]
    exact declared_of_part hpart
  unfold RawText.of
  simp only [fragment_text opening hcount]
  exact ⟨_, if_pos hdeclared⟩

/-- What raw text consists of. -/
theorem of_eq_ok {r : RawText} (hcount : sql.toList.count '?' = bindings.length)
    (h : RawText.of first opening sql bindings = .ok r) :
    r.text = opening.toList ++ holeText (rawNames first bindings.length) none sql.toList ∧
      r.bindings = List.zipWith rawBinding (rawNames first bindings.length) bindings := by
  unfold RawText.of at h
  simp only [fragment_text opening hcount] at h
  split at h
  · rw [← Except.ok.inj h]
    exact ⟨rfl, rfl⟩
  · cases h

end Fragments

/-! ## Colons that come out as they were given -/

/-- Whether a colon stands behind the word that a text begins with, or at its beginning. -/
def runsToColon (rest : List Char) : Bool := (rest.dropWhile Text.isWord).head? == some ':'

/-- Whether each colon of a text comes out as it was given: one with a backslash of its own has to
be before a word that ends at a colon, and one that would start a parameter must not be. -/
def keepsColons (before : Option Char) : List Char → Bool
  | [] => true
  | '\\' :: ':' :: rest => runsToColon rest && keepsColons (some ':') rest
  | ':' :: rest => !(startsName before rest && runsToColon rest) && keepsColons (some ':') rest
  | c :: rest => keepsColons (some c) rest

/-- A text with others in place of its question marks, up to its closing parenthesis. -/
def filled (texts : List (List Char)) (cs : List Char) : List Char :=
  (placed (fun c => [c]) texts cs).flatten ++ [')']

section Colons

theorem filled_nil (texts : List (List Char)) : filled texts [] = [')'] := by
  rw [filled, placed_nil]
  rfl

theorem filled_hole (text : List Char) (texts : List (List Char)) (rest : List Char) :
    filled (text :: texts) ('?' :: rest) = text ++ filled texts rest := by
  rw [filled, placed_hole, List.flatten_cons, List.append_assoc]
  rfl

theorem filled_char (texts : List (List Char)) {c : Char} (hc : c ≠ '?') (rest : List Char) :
    filled texts (c :: rest) = c :: filled texts rest := by
  rw [filled, placed_char texts hc, List.flatten_cons]
  rfl

theorem unescapeColons_char {c : Char} (hc : c ≠ '\\') (rest : List Char) :
    unescapeColons (c :: rest) = c :: unescapeColons rest := by
  rw [unescapeColons]
  intro tail h
  exact absurd h hc

/-- A backslash before anything but a colon stays. -/
theorem unescapeColons_backslash {rest : List Char} (h : rest.head? ≠ some ':') :
    unescapeColons ('\\' :: rest) = '\\' :: unescapeColons rest := by
  rw [unescapeColons]
  rintro tail - rfl
  exact h rfl

theorem unescapeColons_escaped (rest : List Char) : unescapeColons ('\\' :: ':' :: rest) =
    if runsToColon rest then '\\' :: ':' :: unescapeColons rest
    else ':' :: unescapeColons rest := by
  rw [unescapeColons, unescapeColons_char (by decide)]
  simp [runsToColon]

theorem unescapeColons_plain {cs : List Char} (h : '\\' ∉ cs) (rest : List Char) :
    unescapeColons (cs ++ rest) = cs ++ unescapeColons rest := by
  induction cs with
  | nil => rfl
  | cons c cs ih =>
    obtain ⟨hc, hcs⟩ : '\\' ≠ c ∧ '\\' ∉ cs := by simpa using h
    rw [List.cons_append, unescapeColons_char (Ne.symm hc), ih hcs, List.cons_append]

theorem runsToColon_word {c : Char} (hc : Text.isWord c = true) (rest : List Char) :
    runsToColon (c :: rest) = runsToColon rest := by
  rw [runsToColon, List.dropWhile_cons_of_pos hc]
  rfl

theorem runsToColon_other {c : Char} (hc : Text.isWord c = false) (rest : List Char) :
    runsToColon (c :: rest) = (c == ':') := by
  rw [runsToColon, List.dropWhile_cons_of_neg (by simp [hc])]
  simp

/-- What stands behind a word is the same with parameters and escaped colons. -/
theorem runsToColon_filled {texts : List (List Char)} {before : Option Char} {rest : List Char}
    (hbefore : opensAfter before = false) (hapart : standsApart before rest = true) :
    runsToColon (filled texts (escapeColons before rest)) = runsToColon rest := by
  induction rest generalizing before with
  | nil =>
    rw [escapeColons, filled_nil]
    rfl
  | cons c rest ih =>
    by_cases hhole : c = '?'
    · subst hhole
      simp [standsApart_hole, opensHole, hbefore] at hapart
    by_cases hcolon : c = ':'
    · subst hcolon
      have hstarts : startsName before rest = false := by simp [startsName, hbefore]
      rw [escapeColons_colon, if_neg (by simp [hstarts]), List.singleton_append,
        filled_char _ (by decide), runsToColon_other isWord_colon, runsToColon_other isWord_colon]
    rw [escapeColons_char before hcolon, filled_char _ hhole]
    cases hword : Text.isWord c with
    | true =>
      rw [runsToColon_word hword, runsToColon_word hword]
      rw [standsApart_char before hhole] at hapart
      exact ih (opensAfter_word hword) hapart
    | false => rw [runsToColon_other hword, runsToColon_other hword]

/-- No parameter, and no colon, stands behind a backslash but one that is there already. -/
theorem head_filled {texts : List (List Char)} {rest : List Char} (hhead : rest.head? ≠ some ':')
    (hapart : standsApart (some '\\') rest = true) :
    (filled texts (escapeColons (some '\\') rest)).head? ≠ some ':' := by
  cases rest with
  | nil =>
    rw [escapeColons, filled_nil]
    decide
  | cons c rest =>
    have hcolon : c ≠ ':' := by simpa using hhead
    by_cases hhole : c = '?'
    · subst hhole
      have hopens : opensHole (some '\\') = false := by decide
      simp [standsApart_hole, hopens] at hapart
    · rw [escapeColons_char _ hcolon, filled_char _ hhole]
      simpa using hcolon

/-- The text of a fragment is the given one with its parameters exactly if no colon is lost or gains
a backslash. -/
theorem unescapeColons_filled {texts : List (List Char)} {before : Option Char} {sql : List Char}
    (hplain : ∀ text ∈ texts, '\\' ∉ text) (hcount : texts.length = sql.count '?')
    (hapart : standsApart before sql = true) :
    unescapeColons (filled texts (escapeColons before sql)) = filled texts sql ↔
      keepsColons before sql = true := by
  induction before, sql using keepsColons.induct generalizing texts with
  | case1 before =>
    rw [escapeColons, filled_nil, unescapeColons_char (by decide), unescapeColons, keepsColons]
    simp
  | case2 before rest ih =>
    have hbackslash : opensAfter (some '\\') = false := by decide
    have hstarts : startsName (some '\\') rest = false := by simp [startsName, hbackslash]
    have hrest : standsApart (some ':') rest = true := by
      rwa [standsApart_char before (by decide), standsApart_char _ (by decide)] at hapart
    have hruns : runsToColon (filled texts (escapeColons (some ':') rest)) = runsToColon rest :=
      runsToColon_filled rfl hrest
    have hcolons := ih hplain (by simpa using hcount) hrest
    rw [escapeColons_char before (by decide), escapeColons_colon, if_neg (by simp [hstarts]),
      List.singleton_append]
    simp only [filled_char texts (show '\\' ≠ '?' by decide),
      filled_char texts (show ':' ≠ '?' by decide)]
    rw [unescapeColons_escaped, hruns, keepsColons]
    cases runsToColon rest with
    | true => simpa using hcolons
    | false => simp
  | case3 before rest ih =>
    have hrest : standsApart (some ':') rest = true := by
      rwa [standsApart_char before (by decide)] at hapart
    have hruns : runsToColon (filled texts (escapeColons (some ':') rest)) = runsToColon rest :=
      runsToColon_filled rfl hrest
    have hcolons := ih hplain (by simpa using hcount) hrest
    rw [escapeColons_colon, keepsColons]
    cases startsName before rest with
    | true =>
      simp only [if_true, List.cons_append, List.nil_append]
      simp only [filled_char texts (show '\\' ≠ '?' by decide),
        filled_char texts (show ':' ≠ '?' by decide)]
      rw [unescapeColons_escaped, hruns]
      cases runsToColon rest with
      | true => simp
      | false => simpa using hcolons
    | false =>
      simp only [Bool.false_eq_true, if_false, List.cons_append, List.nil_append]
      rw [filled_char texts (by decide), filled_char texts (by decide),
        unescapeColons_char (by decide)]
      simpa using hcolons
  | case4 before c rest hescaped hcolon ih =>
    have hkeeps : keepsColons before (c :: rest) = keepsColons (some c) rest := by
      rw [keepsColons]
      · exact hescaped
      · exact hcolon
    rw [hkeeps, escapeColons_char before hcolon]
    by_cases hhole : c = '?'
    · subst hhole
      cases texts with
      | nil => simp at hcount
      | cons text texts =>
        obtain ⟨htext, hplain⟩ := List.forall_mem_cons.mp hplain
        have hrest : standsApart (some '?') rest = true := by
          simp only [standsApart_hole, Bool.and_eq_true] at hapart
          exact hapart.2
        rw [filled_hole, filled_hole, unescapeColons_plain htext, List.append_cancel_left_eq]
        exact ih hplain (by simpa using hcount) hrest
    · rw [standsApart_char before hhole] at hapart
      have hcolons := ih hplain (by simpa [hhole] using hcount) hapart
      have hpassed : unescapeColons (c :: filled texts (escapeColons (some c) rest)) =
          c :: unescapeColons (filled texts (escapeColons (some c) rest)) := by
        by_cases hbackslash : c = '\\'
        · subst hbackslash
          have hhead : rest.head? ≠ some ':' := by
            intro h
            obtain ⟨tail, rfl⟩ := List.head?_eq_some_iff.mp h
            exact hescaped tail rfl rfl
          exact unescapeColons_backslash (head_filled hhead hapart)
        · exact unescapeColons_char hbackslash _
      rw [filled_char texts hhole, filled_char texts hhole, hpassed, List.cons.injEq]
      simpa using hcolons

end Colons

end RowGate.Sql
