import Mathlib.Data.List.Basic
import RowGate.Proofs.Plan.Spelling
/-!
Windows read back from their texts. Parentheses cut a text into a function, an argument and a clause,
and blanks cut the clause into words. A comma at the end of a word says that a list goes on, so that
names may be words of clauses themselves. Main statement: two windows have the same text exactly if
they are alike.
-/
namespace RowGate

/-! ## Words of texts -/

/-- The words of a text, with single blanks between them. -/
def wordsOf (s : String) : List String := (s.toList.splitOn ' ').map String.ofList

/-- A text without a blank is a word. -/
def IsWord (s : String) : Prop := SpelledIn (· ≠ ' ') s

theorem wordsOf_word {s : String} (h : IsWord s) : wordsOf s = [s] := by
  have hblank : ' ' ∉ s.toList := fun hmem => h ' ' hmem rfl
  rw [wordsOf, List.splitOn_eq_singleton hblank, List.map_singleton, String.ofList_toList]

theorem wordsOf_append (s t : String) : wordsOf (s ++ " " ++ t) = wordsOf s ++ wordsOf t := by
  have hcut : (s ++ " " ++ t).toList = s.toList ++ ' ' :: t.toList := by simp
  unfold wordsOf
  rw [hcut, List.splitOn_append_cons_self, List.map_append]

theorem wordsOf_cons {s : String} (h : IsWord s) (t : String) :
    wordsOf (s ++ " " ++ t) = s :: wordsOf t := by
  rw [wordsOf_append, wordsOf_word h, List.singleton_append]

theorem wordsOf_intercalate {parts : List String} (h : parts ≠ []) :
    wordsOf (" ".intercalate parts) = parts.flatMap wordsOf := by
  induction parts with
  | nil => exact absurd rfl h
  | cons part parts ih =>
    cases parts with
    | nil => simp
    | cons next parts =>
      rw [String.intercalate_cons_cons, wordsOf_append, ih (List.cons_ne_nil _ _)]
      rfl

/-- What stands before the first occurrence of a character, and what behind it. -/
theorem cut_inj {c : Char} {xs xs' ys ys' : List Char} (hxs : c ∉ xs) (hxs' : c ∉ xs')
    (h : xs ++ c :: ys = xs' ++ c :: ys') : xs = xs' ∧ ys = ys' := by
  have hpieces := congrArg (List.splitOn c) h
  rw [List.splitOn_append_cons_self_of_not_mem hxs,
    List.splitOn_append_cons_self_of_not_mem hxs'] at hpieces
  obtain rfl := (List.cons.inj hpieces).1
  exact ⟨rfl, (List.cons.inj (List.append_cancel_left h)).2⟩

/-! ## Lists of items -/

/-- What stands right behind an item of a list: a comma, if another item follows. -/
def listMark (more : Bool) : String := if more then "," else ""

theorem isWord_append {s t : String} : IsWord (s ++ t) ↔ IsWord s ∧ IsWord t := spelledIn_append

theorem isWord_marked {s : String} (h : IsWord s) (more : Bool) : IsWord (s ++ listMark more) := by
  refine isWord_append.mpr ⟨h, ?_⟩
  cases more <;> simp [listMark, IsWord, SpelledIn]

/-- A text without a comma and the mark behind it are told apart. -/
theorem marked_inj {s t : String} (hs : ',' ∉ s.toList) (ht : ',' ∉ t.toList) {more more' : Bool}
    (h : s ++ listMark more = t ++ listMark more') : s = t ∧ more = more' := by
  cases more <;> cases more'
  · exact ⟨by simpa [listMark] using h, rfl⟩
  · have hcomma : s = t ++ "," := by simpa [listMark] using h
    exact absurd (by simp [hcomma]) hs
  · have hcomma : s ++ "," = t := by simpa [listMark] using h
    exact absurd (by simp [← hcomma]) ht
  · exact ⟨(String.append_left_inj ",").mp h, rfl⟩

/-- Nothing but the end of a list leaves a text as it is. -/
theorem marked_eq {s t : String} (hs : ',' ∉ s.toList) (ht : ',' ∉ t.toList) {more : Bool}
    (h : s ++ listMark more = t) : more = false :=
  (marked_inj hs ht (h.trans String.append_empty.symm : _ = t ++ listMark false)).2

section Items

variable {α : Type} {text : α → String} {Item : α → Prop} {Behind : List String → Prop}

/-- The words of a list of items, a comma behind each but the last. -/
def listWords (text : α → String) : α → List α → List String
  | a, [] => wordsOf (text a ++ listMark false)
  | a, b :: as => wordsOf (text a ++ listMark true) ++ listWords text b as

theorem wordsOf_commas (text : α → String) (a : α) (as : List α) :
    wordsOf (commas ((a :: as).map text)) = listWords text a as := by
  induction as generalizing a with
  | nil => simp [commas, listWords, listMark]
  | cons b as ih =>
    have hmark : text a ++ ", " = text a ++ "," ++ " " := by
      rw [String.append_assoc]
      rfl
    have hcommas : commas ((a :: b :: as).map text) =
        text a ++ "," ++ " " ++ commas ((b :: as).map text) := by
      rw [commas, List.map_cons, List.map_cons, String.intercalate_cons_cons, hmark]
      rfl
    rw [hcommas, wordsOf_append, ih]
    rfl

/-- The words of an item tell the item and whether another follows, given what may stand behind the
last one. -/
def IsReadable (text : α → String) (Item : α → Prop) (Behind : List String → Prop) : Prop :=
  ∀ {a b more more' x y}, Item a → Item b → (more = false → Behind x) → (more' = false → Behind y) →
    wordsOf (text a ++ listMark more) ++ x = wordsOf (text b ++ listMark more') ++ y →
    a = b ∧ more = more' ∧ x = y

/-- A list of items is read back from its words, and so is what stands behind it. -/
theorem IsReadable.list (h : IsReadable text Item Behind) {a b : α} {as bs : List α}
    {x y : List String} (has : ∀ c ∈ a :: as, Item c) (hbs : ∀ c ∈ b :: bs, Item c)
    (hx : Behind x) (hy : Behind y) (heq : listWords text a as ++ x = listWords text b bs ++ y) :
    a :: as = b :: bs ∧ x = y := by
  -- on the first list; the mark behind an item tells whether the second list goes on with it
  induction as generalizing a b bs with
  | nil =>
    have ha := has a List.mem_cons_self
    have hb := hbs b List.mem_cons_self
    cases bs with
    | nil =>
      obtain ⟨rfl, -, hrest⟩ := h ha hb (fun _ => hx) (fun _ => hy) heq
      exact ⟨rfl, hrest⟩
    | cons d bs =>
      rw [listWords, listWords, List.append_assoc] at heq
      obtain ⟨-, hmore, -⟩ := h ha hb (fun _ => hx) (by simp) heq
      cases hmore
  | cons c as ih =>
    obtain ⟨ha, hmore⟩ := List.forall_mem_cons.mp has
    obtain ⟨hb, hothers⟩ := List.forall_mem_cons.mp hbs
    rw [listWords, List.append_assoc] at heq
    cases bs with
    | nil =>
      obtain ⟨-, hmore, -⟩ := h ha hb (by simp) (fun _ => hy) heq
      cases hmore
    | cons d bs =>
      rw [listWords, List.append_assoc] at heq
      obtain ⟨rfl, -, hbehind⟩ := h ha hb (by simp) (by simp) heq
      obtain ⟨htail, hrest⟩ := ih hmore hothers hbehind
      exact ⟨congrArg (a :: ·) htail, hrest⟩

/-- The words of a part of a clause: two leading words and a list; an empty list is passed over. -/
def partWords (first second : String) (text : α → String) : List α → List String
  | [] => []
  | a :: as => first :: second :: listWords text a as

theorem words_listPart {first second : String} (hfirst : IsWord first) (hsecond : IsWord second)
    (text : α → String) (as : List α) :
    (listPart (first ++ " " ++ second ++ " ") (as.map text)).flatMap wordsOf =
      partWords first second text as := by
  cases as with
  | nil => rfl
  | cons a as =>
    change [first ++ " " ++ second ++ " " ++ commas ((a :: as).map text)].flatMap wordsOf = _
    rw [List.flatMap_singleton, wordsOf_append, wordsOf_cons hfirst, wordsOf_word hsecond,
      wordsOf_commas]
    rfl

/-- A part of a clause is read back from its words, if nothing behind it could be taken for one. -/
theorem IsReadable.part (h : IsReadable text Item Behind) {first second : String} {as bs : List α}
    {x y : List String} (has : ∀ c ∈ as, Item c) (hbs : ∀ c ∈ bs, Item c)
    (hx : Behind x) (hy : Behind y) (hxfirst : x.head? ≠ some first) (hyfirst : y.head? ≠ some first)
    (heq : partWords first second text as ++ x = partWords first second text bs ++ y) :
    as = bs ∧ x = y := by
  cases as with
  | nil =>
    cases bs with
    | nil => exact ⟨rfl, heq⟩
    | cons b bs =>
      rw [partWords, List.nil_append] at heq
      exact absurd (congrArg List.head? heq) hxfirst
  | cons a as =>
    cases bs with
    | nil =>
      rw [partWords, partWords, List.nil_append] at heq
      exact absurd (congrArg List.head? heq).symm hyfirst
    | cons b bs =>
      rw [partWords, partWords, List.cons_append, List.cons_append, List.cons_append,
        List.cons_append] at heq
      exact h.list has hbs hx hy (List.cons.inj (List.cons.inj heq).2).2

end Items

/-! ## Names and ordering terms -/

theorem identifier_word {name : String} (h : isIdentifier name = true) : IsWord name := by
  refine (identifier_spelled h).imp ?_
  rintro c hc rfl
  revert hc
  decide

theorem comma_notMem_identifier {name : String} (h : isIdentifier name = true) :
    ',' ∉ name.toList := by
  intro hmem
  have hcomma := identifier_spelled h ',' hmem
  revert hcomma
  decide

/-- A list of names is read back, whatever stands behind it. -/
theorem names_readable : IsReadable id (isIdentifier · = true) fun _ => True := by
  intro a b more more' x y ha hb _ _ heq
  rw [id, id, wordsOf_word (isWord_marked (identifier_word ha) more),
    wordsOf_word (isWord_marked (identifier_word hb) more')] at heq
  obtain ⟨hname, hrest⟩ := List.cons.inj heq
  obtain ⟨hname, hmore⟩ :=
    marked_inj (comma_notMem_identifier ha) (comma_notMem_identifier hb) hname
  exact ⟨hname, hmore, hrest⟩

/-- An ordering term that may stand in a window. -/
def OrderTerm.IsValid (o : OrderTerm) : Prop :=
  (o.direction = "asc" ∨ o.direction = "desc") ∧ isIdentifier o.field = true ∧
    ∀ n ∈ o.nulls, n = "first" ∨ n = "last"

/-- The words of an ordering term in a list. -/
def OrderTerm.words (o : OrderTerm) (more : Bool) : List String :=
  match o.nulls with
  | none => [o.field, o.direction ++ listMark more]
  | some nulls => [o.field, o.direction, "NULLS", Text.upper nulls ++ listMark more]

theorem direction_word {direction : String} (h : direction = "asc" ∨ direction = "desc") :
    IsWord direction ∧ ',' ∉ direction.toList := by
  rcases h with rfl | rfl <;> simp [IsWord, SpelledIn]

theorem nulls_word {nulls : String} (h : nulls = "first" ∨ nulls = "last") :
    IsWord (Text.upper nulls) ∧ ',' ∉ (Text.upper nulls).toList := by
  have hfirst : Text.upper "first" = "FIRST" := by decide
  have hlast : Text.upper "last" = "LAST" := by decide
  rcases h with rfl | rfl
  · simp [hfirst, IsWord, SpelledIn]
  · simp [hlast, IsWord, SpelledIn]

theorem upper_nulls_inj {n n' : String} (h : n = "first" ∨ n = "last")
    (h' : n' = "first" ∨ n' = "last") (heq : Text.upper n = Text.upper n') : n = n' := by
  have hne : Text.upper "first" ≠ Text.upper "last" := by decide
  rcases h with rfl | rfl <;> rcases h' with rfl | rfl
  · rfl
  · exact absurd heq hne
  · exact absurd heq.symm hne
  · rfl

theorem isWord_nulls : IsWord "NULLS" := by simp [IsWord, SpelledIn]

theorem isWord_partition : IsWord "PARTITION" := by simp [IsWord, SpelledIn]

theorem isWord_order : IsWord "ORDER" := by simp [IsWord, SpelledIn]

theorem isWord_by : IsWord "BY" := by simp [IsWord, SpelledIn]

theorem OrderTerm.IsValid.words_eq {o : OrderTerm} (h : o.IsValid) (more : Bool) :
    wordsOf (o.text ++ listMark more) = o.words more := by
  obtain ⟨hdirection, hfield, hnulls⟩ := h
  have hfield := identifier_word hfield
  have hdirection := (direction_word hdirection).1
  unfold OrderTerm.text OrderTerm.words
  cases h : o.nulls with
  | none =>
    rw [Option.elim_none, String.append_empty, String.append_assoc, wordsOf_cons hfield,
      wordsOf_word (isWord_marked hdirection more)]
  | some nulls =>
    have hnulls := (nulls_word (hnulls nulls h)).1
    have htext : o.field ++ " " ++ o.direction ++ (" NULLS " ++ Text.upper nulls) ++ listMark more =
        o.field ++ " " ++ (o.direction ++ " " ++ ("NULLS" ++ " " ++
          (Text.upper nulls ++ listMark more))) := by
      have hlead : " NULLS " = " " ++ ("NULLS" ++ " ") := rfl
      rw [hlead]
      simp only [String.append_assoc]
    rw [Option.elim_some, htext, wordsOf_cons hfield, wordsOf_cons hdirection,
      wordsOf_cons isWord_nulls, wordsOf_word (isWord_marked hnulls more)]

/-- A list of ordering terms is read back, if no order of nulls is behind it. -/
theorem orderTerms_readable :
    IsReadable OrderTerm.text OrderTerm.IsValid (·.head? ≠ some "NULLS") := by
  intro a b more more' x y ha hb hx hy heq
  rw [ha.words_eq, hb.words_eq] at heq
  obtain ⟨field, direction, nulls⟩ := a
  obtain ⟨field', direction', nulls'⟩ := b
  obtain ⟨hda, -, hna⟩ := ha
  obtain ⟨hdb, -, hnb⟩ := hb
  have hda := (direction_word hda).2
  have hdb := (direction_word hdb).2
  cases nulls with
  | none =>
    cases nulls' with
    | none =>
      simp only [OrderTerm.words, List.cons_append, List.nil_append, List.cons.injEq] at heq
      obtain ⟨rfl, hdirection, rfl⟩ := heq
      obtain ⟨rfl, rfl⟩ := marked_inj hda hdb hdirection
      exact ⟨rfl, rfl, rfl⟩
    | some n' =>
      simp only [OrderTerm.words, List.cons_append, List.nil_append, List.cons.injEq] at heq
      obtain ⟨-, hdirection, rfl⟩ := heq
      exact absurd rfl (hx (marked_eq hda hdb hdirection))
  | some n =>
    have hn := hna n rfl
    cases nulls' with
    | none =>
      simp only [OrderTerm.words, List.cons_append, List.nil_append, List.cons.injEq] at heq
      obtain ⟨-, hdirection, rfl⟩ := heq
      exact absurd rfl (hy (marked_eq hdb hda hdirection.symm))
    | some n' =>
      have hn' := hnb n' rfl
      simp only [OrderTerm.words, List.cons_append, List.nil_append, List.cons.injEq] at heq
      obtain ⟨rfl, rfl, -, hnulls, rfl⟩ := heq
      obtain ⟨hupper, rfl⟩ := marked_inj (nulls_word hn).2 (nulls_word hn').2 hnulls
      obtain rfl := upper_nulls_inj hn hn' hupper
      exact ⟨rfl, rfl, rfl⟩

/-! ## Clauses -/

/-- The words of the frame of a window. -/
def Window.frameTokens (w : Window) : List String := (w.frame.map Text.fields).getD []

/-- The words of a clause. -/
def Window.clauseWords (w : Window) : List String :=
  partWords "PARTITION" "BY" id w.partitionBy ++
    (partWords "ORDER" "BY" OrderTerm.text w.orderBy ++ w.frameTokens)

theorem frameToken_word {token : String} (h : isFrameToken token = true) : IsWord token := by
  rintro c hc rfl
  exact notMem_frameToken h (by decide) hc

section Clauses

variable {v w : Window}

theorem frameTokens_valid (hw : w.IsValid) : ∀ token ∈ w.frameTokens, isFrameToken token = true := by
  unfold Window.frameTokens
  cases hframe : w.frame with
  | none => exact List.forall_mem_nil _
  | some clause => exact frame_valid hw clause hframe

/-- A frame comes first with a word that starts no other part of a clause. -/
theorem head?_frameTokens (hw : w.IsValid) {word : String} (hword : Text.upper word ∉ frameUnits) :
    w.frameTokens.head? ≠ some word := by
  intro hhead
  unfold Window.frameTokens at hhead
  cases hframe : w.frame with
  | none => simp [hframe] at hhead
  | some clause =>
    rw [hframe, Option.map_some, Option.getD_some] at hhead
    have hne : clause ≠ "" := by
      rintro rfl
      cases hhead
    obtain ⟨token, htoken, hunit⟩ := (hw.frame clause hframe hne).1
    rw [Option.mem_def, hhead, Option.some.injEq] at htoken
    exact hword (htoken ▸ hunit)

theorem framePart_eq (hw : w.IsValid) :
    framePart w.frame = if w.frameTokens = [] then [] else [" ".intercalate w.frameTokens] := by
  unfold framePart Window.frameTokens
  cases hframe : w.frame with
  | none => rfl
  | some clause =>
    dsimp only
    by_cases hclause : clause = ""
    · rw [hclause]
      rfl
    · have hfields : Text.fields clause ≠ [] := by
        intro hnil
        obtain ⟨token, htoken, -⟩ := (hw.frame clause hframe hclause).1
        rw [hnil] at htoken
        cases htoken
      rw [if_neg (by simpa using hclause)]
      exact (if_neg hfields).symm

theorem words_framePart (hw : w.IsValid) : (framePart w.frame).flatMap wordsOf = w.frameTokens := by
  rw [framePart_eq hw]
  split
  · rename_i hnil
    rw [hnil]
    rfl
  · rename_i hsome
    have hwords : w.frameTokens.flatMap wordsOf = w.frameTokens.flatMap fun token => [token] :=
      List.flatMap_congr fun token htoken =>
        wordsOf_word (frameToken_word (frameTokens_valid hw token htoken))
    rw [List.flatMap_singleton, wordsOf_intercalate hsome, hwords, List.flatMap_singleton']

/-- The parts of a clause. -/
def Window.parts (w : Window) : List String :=
  listPart "PARTITION BY " w.partitionBy ++ listPart "ORDER BY " (w.orderBy.map (·.text)) ++
    framePart w.frame

theorem words_parts (hw : w.IsValid) : w.parts.flatMap wordsOf = w.clauseWords := by
  have hpartition : (listPart "PARTITION BY " w.partitionBy).flatMap wordsOf =
      partWords "PARTITION" "BY" id w.partitionBy := by
    have hpart := words_listPart isWord_partition isWord_by id w.partitionBy
    rwa [List.map_id] at hpart
  have horder : (listPart "ORDER BY " (w.orderBy.map (·.text))).flatMap wordsOf =
      partWords "ORDER" "BY" OrderTerm.text w.orderBy :=
    words_listPart isWord_order isWord_by OrderTerm.text w.orderBy
  unfold Window.parts Window.clauseWords
  rw [List.flatMap_append, List.flatMap_append, hpartition, horder, words_framePart hw,
    List.append_assoc]

/-- The words of a clause start with a word, if there are any. -/
theorem head?_clauseWords (hw : w.IsValid) : w.clauseWords.head? ≠ some "" := by
  unfold Window.clauseWords
  cases w.partitionBy with
  | cons name names => simp [partWords]
  | nil =>
    cases w.orderBy with
    | cons o os => simp [partWords]
    | nil => exact head?_frameTokens hw (by decide)

/-- A clause is read back into words; one without parts is one empty word. -/
theorem clauseWords_inj (hv : v.IsValid) (hw : w.IsValid) (h : v.clause = w.clause) :
    v.clauseWords = w.clauseWords := by
  have hwords := congrArg wordsOf h
  unfold Window.clause at hwords
  change wordsOf (" ".intercalate v.parts) = wordsOf (" ".intercalate w.parts) at hwords
  have hempty : wordsOf (" ".intercalate []) = [""] := by decide
  rw [← words_parts hv, ← words_parts hw]
  -- the empty text has a word as well, which no part of a clause starts with
  by_cases hvparts : v.parts = []
  · by_cases hwparts : w.parts = []
    · rw [hvparts, hwparts]
    · rw [hvparts, hempty, wordsOf_intercalate hwparts, words_parts hw] at hwords
      exact absurd (congrArg List.head? hwords).symm (head?_clauseWords hw)
  · by_cases hwparts : w.parts = []
    · rw [hwparts, hempty, wordsOf_intercalate hvparts, words_parts hv] at hwords
      exact absurd (congrArg List.head? hwords) (head?_clauseWords hv)
    · rwa [wordsOf_intercalate hvparts, wordsOf_intercalate hwparts] at hwords

/-- The lists and the frame of a clause are read back from its words. -/
theorem lists_of_clauseWords (hv : v.IsValid) (hw : w.IsValid)
    (h : v.clauseWords = w.clauseWords) :
    v.partitionBy = w.partitionBy ∧ v.orderBy = w.orderBy ∧ v.frameTokens = w.frameTokens := by
  have hbehind {u : Window} (hu : u.IsValid) :
      (partWords "ORDER" "BY" OrderTerm.text u.orderBy ++ u.frameTokens).head? ≠
        some "PARTITION" := by
    cases u.orderBy with
    | nil => exact head?_frameTokens hu (by decide)
    | cons o os => simp [partWords]
  have hnulls {u : Window} (hu : u.IsValid) : u.frameTokens.head? ≠ some "NULLS" :=
    head?_frameTokens hu (by decide)
  have horder {u : Window} (hu : u.IsValid) : u.frameTokens.head? ≠ some "ORDER" :=
    head?_frameTokens hu (by decide)
  obtain ⟨hpartitionBy, hrest⟩ := names_readable.part hv.partitionBy hw.partitionBy trivial trivial
    (hbehind hv) (hbehind hw) h
  obtain ⟨horderBy, hframe⟩ := orderTerms_readable.part hv.orderBy hw.orderBy (hnulls hv) (hnulls hw)
    (horder hv) (horder hw) hrest
  exact ⟨hpartitionBy, horderBy, hframe⟩

/-- The text of a window is read back into the name of a function, an argument and a clause. -/
theorem parts_of_text (hv : v.IsValid) (hw : w.IsValid) (h : v.text = w.text) :
    Text.upper v.type = Text.upper w.type ∧ v.argument = w.argument ∧ v.clause = w.clause := by
  have hchars (u : Window) : u.text.toList = (Text.upper u.type).toList ++ '(' ::
      (u.argument.toList ++ ')' :: (" OVER (".toList ++ (u.clause.toList ++ [')']))) := by
    unfold Window.text
    simp
  have hclosed {u : Window} (hu : u.IsValid) :
      '(' ∉ (Text.upper u.type).toList ∧ ')' ∉ u.argument.toList := by
    have hparts := parts_closed hu
    exact ⟨fun hmem => (hparts _ (by simp) '(' hmem).1 rfl,
      fun hmem => (hparts _ (by simp) ')' hmem).2 rfl⟩
  have h := congrArg String.toList h
  rw [hchars, hchars] at h
  obtain ⟨htype, h⟩ := cut_inj (hclosed hv).1 (hclosed hw).1 h
  obtain ⟨hargument, h⟩ := cut_inj (hclosed hv).2 (hclosed hw).2 h
  exact ⟨String.toList_inj.mp htype, String.toList_inj.mp hargument,
    String.toList_inj.mp (List.append_cancel_right (List.append_cancel_left h))⟩

end Clauses

/-! ## Windows -/

/-- Windows that differ in nothing but their names, the field of a row number, a field that stands
for all columns and the blanks of a frame. -/
structure Window.Alike (v w : Window) : Prop where
  type : v.type = w.type
  ranked : v.type ∈ rankingTypes → v.type ≠ "row_number" → v.field = w.field
  unranked : v.type ∉ rankingTypes → v.field.getD "*" = w.field.getD "*"
  partitionBy : v.partitionBy = w.partitionBy
  orderBy : v.orderBy = w.orderBy
  frame : v.frameTokens = w.frameTokens

section Windows

variable {v w : Window}

theorem upper_type_inj {s t : String} (hs : s ∈ windowTypes) (ht : t ∈ windowTypes)
    (h : Text.upper s = Text.upper t) : s = t := by
  have hinj : ∀ s ∈ windowTypes, ∀ t ∈ windowTypes, Text.upper s = Text.upper t → s = t := by
    decide
  exact hinj s hs t ht h

/-- An argument of a ranking function that is written is not empty. -/
theorem field_ne_empty (hw : w.IsValid) (hrow : w.type ≠ "row_number") : w.field ≠ some "" := by
  intro hfield
  have hempty : ¬ ("" = "*" ∨ isIdentifier "" = true) := by decide
  exact hempty (hw.field hrow "" hfield)

theorem getD_empty_inj {a b : Option String} (ha : a ≠ some "") (hb : b ≠ some "")
    (h : a.getD "" = b.getD "") : a = b := by
  cases a <;> cases b <;> simp_all

/-- The argument tells the field, as far as there is anything to tell. -/
theorem argument_inj (hv : v.IsValid) (hw : w.IsValid) (htype : v.type = w.type) :
    v.argument = w.argument ↔ (v.type ∈ rankingTypes → v.type ≠ "row_number" → v.field = w.field) ∧
      (v.type ∉ rankingTypes → v.field.getD "*" = w.field.getD "*") := by
  unfold Window.argument
  rw [← htype]
  by_cases hrow : v.type = "row_number"
  · have hranked : v.type ∈ rankingTypes := by
      rw [hrow]
      decide
    rw [if_pos hrow, if_pos hrow]
    exact iff_of_true rfl ⟨fun _ hne => absurd hrow hne, fun hne => absurd hranked hne⟩
  rw [if_neg hrow, if_neg hrow]
  by_cases hranked : v.type ∈ rankingTypes
  · rw [if_pos (List.contains_iff_mem.mpr hranked)]
    have hvfield := field_ne_empty hv hrow
    have hwfield := field_ne_empty hw (htype ▸ hrow)
    exact ⟨fun h => ⟨fun _ _ => getD_empty_inj hvfield hwfield h, fun hne => absurd hranked hne⟩,
      fun h => congrArg (·.getD "") (h.1 hranked hrow)⟩
  · rw [if_neg (mt List.contains_iff_mem.mp hranked)]
    exact ⟨fun h => ⟨fun hmem => absurd hmem hranked, fun _ => h⟩, fun h => h.2 hranked⟩

theorem clause_of_alike (hv : v.IsValid) (hw : w.IsValid) (h : v.Alike w) :
    v.clause = w.clause := by
  unfold Window.clause
  rw [framePart_eq hv, framePart_eq hw, h.partitionBy, h.orderBy, h.frame]

/-- Valid windows have the same text exactly if they are alike. -/
theorem text_inj (hv : v.IsValid) (hw : w.IsValid) : v.text = w.text ↔ v.Alike w := by
  constructor
  · intro h
    obtain ⟨hupper, hargument, hclause⟩ := parts_of_text hv hw h
    have htype := upper_type_inj hv.type hw.type hupper
    obtain ⟨hranked, hunranked⟩ := (argument_inj hv hw htype).mp hargument
    obtain ⟨hpartitionBy, horderBy, hframe⟩ :=
      lists_of_clauseWords hv hw (clauseWords_inj hv hw hclause)
    exact ⟨htype, hranked, hunranked, hpartitionBy, horderBy, hframe⟩
  · intro h
    have hargument := (argument_inj hv hw h.type).mpr ⟨h.ranked, h.unranked⟩
    unfold Window.text
    rw [h.type, hargument, clause_of_alike hv hw h]

/-- Two windows that are made into texts have the same text exactly if they have the same function,
the same lists and the same words in their frames, and fields that come to the same: a row number
has none, and a function that ranks nothing takes all columns for want of one. -/
theorem window_texts_unambiguous {s t : String} (hv : v.fragment = .ok s) (hw : w.fragment = .ok t) :
    s = t ↔ v.Alike w := by
  have hinj := text_inj (valid_of_fragment hv) (valid_of_fragment hw)
  rw [fragment_eq hv, fragment_eq hw]
  exact hinj.trans ⟨fun h => ⟨h.type, h.ranked, h.unranked, h.partitionBy, h.orderBy, h.frame⟩,
    fun h => ⟨h.type, h.ranked, h.unranked, h.partitionBy, h.orderBy, h.frame⟩⟩

end Windows

/-- Sums in groups whose names are words of clauses. -/
def groupedSums : Window :=
  ⟨"sum", "total", none, ["ORDER", "BY"], [⟨"ROWS", "asc", some "last"⟩],
    some " rows  2 preceding"⟩

/-- The names are told from the words around them, but a star from no field is not, and the blanks of
the frame are lost. -/
theorem groupedSums_alike :
    groupedSums.fragment = .ok
        "SUM(*) OVER (PARTITION BY ORDER, BY ORDER BY ROWS asc NULLS LAST rows 2 preceding)" ∧
      groupedSums.Alike { groupedSums with field := some "*", frame := some "rows 2 preceding" } := by
  have hfragment : groupedSums.fragment = .ok
      "SUM(*) OVER (PARTITION BY ORDER, BY ORDER BY ROWS asc NULLS LAST rows 2 preceding)" := by
    rfl
  have hother : ({ groupedSums with field := some "*", frame := some "rows 2 preceding" } :
      Window).fragment = .ok
      "SUM(*) OVER (PARTITION BY ORDER, BY ORDER BY ROWS asc NULLS LAST rows 2 preceding)" := by
    rfl
  exact ⟨hfragment, (window_texts_unambiguous hfragment hother).mp rfl⟩

end RowGate
