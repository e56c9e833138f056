import Mathlib
import RowGate.Proofs.Plan.Stages
import RowGate.Proofs.Plan.Acceptance
import RowGate.Proofs.Text.Case
/-!
How identifiers and windows are spelled. An identifier is a path of names, but a line end behind the
path is let pass; a frame clause is read in any case and with any digits, and comes out with the
characters that it went in with. Main statement: what passes as an identifier, and the characters and
parentheses of the text of a window.
-/
namespace RowGate

/-! ## Paths -/

/-- A name: a letter or an underscore, then letters, digits and underscores. -/
def IsName (cs : List Char) : Prop :=
  ∃ c ds, cs = c :: ds ∧ isNameStart c = true ∧ ∀ d ∈ ds, isNameChar d = true

/-- One or more names, joined by single dots. -/
def IsPath (cs : List Char) : Prop :=
  ∃ names, names ≠ [] ∧ (∀ name ∈ names, IsName name) ∧ cs = ['.'].intercalate names

/-- The rest of a path behind the start of a name: the rest of this name, then further names. -/
def IsPathRest (cs : List Char) : Prop :=
  ∃ ds, ∃ names : List (List Char), (∀ d ∈ ds, isNameChar d = true) ∧
    (∀ name ∈ names, IsName name) ∧ cs = ds ++ names.flatMap ('.' :: ·)

theorem intercalate_dot (name : List Char) (names : List (List Char)) :
    ['.'].intercalate (name :: names) = name ++ names.flatMap ('.' :: ·) := by
  induction names generalizing name with
  | nil => simp
  | cons next names ih =>
    rw [List.intercalate_cons_cons, ih, List.flatMap_cons, List.append_assoc]
    rfl

theorem isNameChar_of_isNameStart {c : Char} (h : isNameStart c = true) : isNameChar c = true := by
  simp only [isNameStart, isNameChar, Char.isAlphanum, Bool.or_eq_true] at h ⊢
  tauto

theorem isPath_cons {c : Char} {cs : List Char} :
    IsPath (c :: cs) ↔ isNameStart c = true ∧ IsPathRest cs := by
  constructor
  · rintro ⟨names, hne, hnames, hcs⟩
    obtain ⟨name, names, rfl⟩ := List.exists_cons_of_ne_nil hne
    obtain ⟨⟨d, ds, rfl, hd, hds⟩, hrest⟩ := List.forall_mem_cons.mp hnames
    rw [intercalate_dot, List.cons_append, List.cons.injEq] at hcs
    obtain ⟨rfl, rfl⟩ := hcs
    exact ⟨hd, ds, names, hds, hrest, rfl⟩
  · rintro ⟨hc, ds, names, hds, hnames, rfl⟩
    refine ⟨(c :: ds) :: names, List.cons_ne_nil _ _, ?_, (intercalate_dot (c :: ds) names).symm⟩
    exact List.forall_mem_cons.mpr ⟨⟨c, ds, rfl, hc, hds⟩, hnames⟩

theorem not_isPath_nil : ¬ IsPath [] := by
  rintro ⟨names, hne, hnames, hcs⟩
  obtain ⟨name, names, rfl⟩ := List.exists_cons_of_ne_nil hne
  obtain ⟨⟨c, ds, rfl, -, -⟩, -⟩ := List.forall_mem_cons.mp hnames
  rw [intercalate_dot] at hcs
  cases hcs

theorem isPathRest_nil : IsPathRest [] :=
  ⟨[], [], List.forall_mem_nil _, List.forall_mem_nil _, rfl⟩

/-- Behind a dot a name starts; any other character belongs to the name before it. -/
theorem isPathRest_cons {c : Char} {cs : List Char} :
    IsPathRest (c :: cs) ↔
      if c = '.' then IsPath cs else isNameChar c = true ∧ IsPathRest cs := by
  have hdot : isNameChar '.' = false := by decide
  constructor
  · rintro ⟨ds, names, hds, hnames, hcs⟩
    cases ds with
    | nil =>
      cases names with
      | nil => cases hcs
      | cons name names =>
        rw [List.nil_append, List.flatMap_cons, List.cons_append, List.cons.injEq] at hcs
        obtain ⟨rfl, rfl⟩ := hcs
        rw [if_pos rfl]
        exact ⟨name :: names, List.cons_ne_nil _ _, hnames, (intercalate_dot _ _).symm⟩
    | cons d ds =>
      rw [List.cons_append, List.cons.injEq] at hcs
      obtain ⟨rfl, rfl⟩ := hcs
      obtain ⟨hc, hds⟩ := List.forall_mem_cons.mp hds
      rw [if_neg (by rintro rfl; simp [hdot] at hc)]
      exact ⟨hc, ds, names, hds, hnames, rfl⟩
  · split
    · rename_i hc
      rintro ⟨names, hne, hnames, rfl⟩
      obtain ⟨name, names, rfl⟩ := List.exists_cons_of_ne_nil hne
      refine ⟨[], name :: names, List.forall_mem_nil _, hnames, ?_⟩
      rw [intercalate_dot, hc]
      rfl
    · rintro ⟨hc, ds, names, hds, hnames, rfl⟩
      exact ⟨c :: ds, names, List.forall_mem_cons.mpr ⟨hc, hds⟩, hnames, rfl⟩

/-- The scan accepts paths at the start of a name, and their rests inside of one. -/
theorem isPathFrom_iff (cs : List Char) :
    (isPathFrom true cs = true ↔ IsPath cs) ∧ (isPathFrom false cs = true ↔ IsPathRest cs) := by
  induction cs with
  | nil => exact ⟨iff_of_false (by decide) not_isPath_nil, iff_of_true rfl isPathRest_nil⟩
  | cons c cs ih =>
    obtain ⟨hfresh, hinside⟩ := ih
    have hdot : isNameStart '.' = false := by decide
    rw [isPath_cons, isPathRest_cons, ← hfresh, ← hinside]
    by_cases hc : c = '.'
    · simp [isPathFrom, hc, hdot]
    · simp [isPathFrom, hc]

/-- A text that has a line end at its end and something else before it. -/
theorem dropLineEnd_concat (cs : List Char) (c : Char) :
    dropLineEnd (cs ++ [c]) = if c = '\n' then cs else cs ++ [c] := by
  simp [dropLineEnd]

theorem isNameChar_of_isPath {cs : List Char} (h : IsPath cs) :
    ∀ c ∈ cs, isNameChar c = true ∨ c = '.' := by
  obtain ⟨names, hne, hnames, rfl⟩ := h
  obtain ⟨name, names, rfl⟩ := List.exists_cons_of_ne_nil hne
  have hname (name : List Char) (h : IsName name) (c : Char) (hc : c ∈ name) :
      isNameChar c = true := by
    obtain ⟨d, ds, rfl, hd, hds⟩ := h
    rcases List.mem_cons.mp hc with rfl | hc
    · exact isNameChar_of_isNameStart hd
    · exact hds c hc
  obtain ⟨hfirst, hrest⟩ := List.forall_mem_cons.mp hnames
  intro c hc
  rw [intercalate_dot, List.mem_append, List.mem_flatMap] at hc
  rcases hc with hc | ⟨next, hnext, hc⟩
  · exact .inl (hname name hfirst c hc)
  · rcases List.mem_cons.mp hc with rfl | hc
    · exact .inr rfl
    · exact .inl (hname next (hrest next hnext) c hc)

/-- What passes as an identifier: a path, or a path with a line end behind it. -/
theorem isIdentifier_iff (s : String) :
    isIdentifier s = true ↔ IsPath s.toList ∨ ∃ path, IsPath path ∧ s.toList = path ++ ['\n'] := by
  rw [isIdentifier, (isPathFrom_iff _).1]
  have hline : ¬ (isNameChar '\n' = true ∨ '\n' = '.') := by decide
  rcases List.eq_nil_or_concat s.toList with hnil | ⟨cs, c, hs⟩
  · simp [hnil, dropLineEnd]
  · rw [hs, List.concat_eq_append, dropLineEnd_concat]
    by_cases hc : c = '\n'
    · subst hc
      have hpath : ¬ IsPath (cs ++ ['\n']) := fun h =>
        hline (isNameChar_of_isPath h '\n' (by simp))
      simp [hpath]
    · simp [hc]

/-! ## The text of a window -/

/-- What stands in the parentheses of a window's function. -/
def Window.argument (w : Window) : String :=
  if w.type = "row_number" then ""
  else w.field.getD (if rankingTypes.contains w.type then "" else "*")

/-- An ordering term of a window, as it is written. -/
def OrderTerm.text (o : OrderTerm) : String :=
  o.field ++ " " ++ o.direction ++ (o.nulls.elim "" fun nulls => " NULLS " ++ Text.upper nulls)

/-- A part of a clause for a list; an empty list is passed over. -/
def listPart (lead : String) (items : List String) : List String :=
  if items.isEmpty then [] else [lead ++ commas items]

/-- The part of a clause for a frame: its words with single blanks between them. -/
def framePart (frame : Option String) : List String :=
  match frame with
  | none => []
  | some clause =>
    if clause.isEmpty then [] else [String.intercalate " " (Text.fields clause)]

/-- What stands in the parentheses that describe a window's rows. -/
def Window.clause (w : Window) : String :=
  String.intercalate " " (listPart "PARTITION BY " w.partitionBy ++
    listPart "ORDER BY " (w.orderBy.map (·.text)) ++ framePart w.frame)

/-- A window as it is written. -/
def Window.text (w : Window) : String :=
  Text.upper w.type ++ "(" ++ w.argument ++ ") OVER (" ++ w.clause ++ ")"

theorem orderText_eq {o : OrderTerm} {text : String} (h : orderText o = .ok text) :
    text = o.text := by
  unfold orderText at h
  obtain ⟨direction, hdirection, h⟩ := sequence_eq_ok.mp h
  obtain ⟨field, hfield, h⟩ := sequence_eq_ok.mp h
  have hdirection : direction = o.direction := by
    unfold checkDirection at hdirection
    split at hdirection
    · exact (Except.ok.inj hdirection).symm
    · cases hdirection
  rw [checkIdentifier_eq hfield, hdirection] at h
  unfold OrderTerm.text
  cases hnulls : o.nulls with
  | none =>
    rw [hnulls] at h
    rw [← Except.ok.inj h]
    exact String.append_empty.symm
  | some nulls =>
    rw [hnulls] at h
    obtain ⟨checked, hchecked, h⟩ := sequence_eq_ok.mp h
    have hchecked : checked = nulls := by
      unfold checkNulls at hchecked
      split at hchecked
      · exact (Except.ok.inj hchecked).symm
      · cases hchecked
    rw [← Except.ok.inj h, hchecked, String.append_assoc]
    rfl

theorem checkColumn_eq {name checked : String} (h : checkColumn name = .ok checked) :
    checked = name := by
  unfold checkColumn at h
  split at h
  · exact (Except.ok.inj h).symm
  · exact checkIdentifier_eq h

theorem functionCall_eq {w : Window} {call : String} (h : functionCall w.type w.field = .ok call) :
    call = Text.upper w.type ++ "(" ++ w.argument ++ ")" := by
  unfold functionCall at h
  unfold Window.argument
  split at h
  · cases h
  split at h
  · rename_i hrow
    have hupper : Text.upper "row_number" = "ROW_NUMBER" := by decide
    rw [if_pos hrow, hrow, hupper, ← Except.ok.inj h]
    rfl
  · rename_i hrow
    rw [if_neg hrow]
    cases hfield : w.field with
    | none =>
      simp only [hfield] at h
      split at h
      · rename_i hranking
        rw [Option.getD_none, if_pos hranking, ← Except.ok.inj h, String.append_empty,
          String.append_assoc]
        rfl
      · rename_i hranking
        rw [Option.getD_none, if_neg hranking, ← Except.ok.inj h, String.append_assoc,
          String.append_assoc]
        rfl
    | some f =>
      simp only [hfield] at h
      obtain ⟨column, hcolumn, h⟩ := sequence_eq_ok.mp h
      rw [Option.getD_some, ← Except.ok.inj h, checkColumn_eq hcolumn]

/-- A part of a clause for a list whose items are written as they are. -/
theorem listPart_eq {α : Type} {f : α → Except Fault String} {g : α → String}
    (hfg : ∀ a b, f a = .ok b → b = g a) {as : List α} {lead text : String}
    {next : List String → Except Fault String}
    (h : (if as.isEmpty = true then pure [] >>= next
      else as.mapM f >>= fun bs => pure [lead ++ commas bs] >>= next) = .ok text) :
    next (listPart lead (as.map g)) = .ok text := by
  unfold listPart
  rw [List.isEmpty_map]
  split at h
  · rename_i hempty
    rwa [if_pos hempty]
  · rename_i hsome
    obtain ⟨bs, hbs, h⟩ := sequence_eq_ok.mp h
    rw [mapM_eq_map hfg hbs] at h
    rwa [if_neg hsome]

theorem overClause_eq {w : Window} {text : String} (h : w.overClause = .ok text) :
    text = "OVER (" ++ w.clause ++ ")" := by
  unfold Window.overClause RowGate.overClause at h
  have h := listPart_eq (fun _ _ => checkIdentifier_eq) h
  have h := listPart_eq (fun _ _ => orderText_eq) h
  rw [List.map_id'] at h
  unfold Window.clause framePart
  cases hframe : w.frame with
  | none =>
    rw [hframe] at h
    exact (Except.ok.inj h).symm
  | some clause =>
    simp only [hframe] at h
    split at h
    · rename_i hempty
      rw [← Except.ok.inj h]
      simp only [hempty, if_true]
    · rename_i hsome
      obtain ⟨checked, hchecked, h⟩ := sequence_eq_ok.mp h
      have hchecked : checked = String.intercalate " " (Text.fields clause) := by
        unfold checkFrameClause at hchecked
        dsimp only at hchecked
        split at hchecked
        · exact (Except.ok.inj hchecked).symm
        · cases hchecked
      rw [← Except.ok.inj h, hchecked]
      simp only [hsome]
      rfl

/-- What is made of a window is the window as it is written. -/
theorem fragment_eq {w : Window} {text : String} (h : w.fragment = .ok text) : text = w.text := by
  unfold Window.fragment at h
  obtain ⟨call, hcall, h⟩ := sequence_eq_ok.mp h
  obtain ⟨clause, hclause, h⟩ := sequence_eq_ok.mp h
  rw [functionCall_eq hcall, overClause_eq hclause] at h
  have hjoin : ") OVER (" = ")" ++ (" " ++ "OVER (") := rfl
  rw [← Except.ok.inj h, Window.text, hjoin]
  simp only [String.append_assoc]

/-! ## Words of frame clauses -/

/-- The small dotless i and the long s, which are no letters of the first 128 characters but have
such letters as their upper case forms. -/
def strayLetters : List Char := ['ı', 'ſ']

/-- A run of one stray letter, or of characters whose upper case forms are no capital letters. -/
def strays (r : Text.CaseRun) : Bool :=
  decide (r.last < 128) || decide (r.image.last < 65) || decide (90 < r.image.first) ||
    (r.first == r.last && strayLetters.contains (Char.ofNat r.first))

/-- A capital letter of the first 128 characters. -/
def IsCapital (c : Char) : Prop := 65 ≤ c.toNat ∧ c.toNat ≤ 90

instance (c : Char) : Decidable (IsCapital c) := inferInstanceAs (Decidable (_ ∧ _))

theorem isCapital_of_mem {word : String} (hword : word ∈ frameWords) {d : Char}
    (hd : d ∈ word.toList) : IsCapital d := by
  have hcapitals : (frameWords.all fun word => word.toList.all fun d => IsCapital d) = true := by
    decide
  exact of_decide_eq_true (List.all_eq_true.mp (List.all_eq_true.mp hcapitals word hword) d hd)

theorem isAlpha_of_toUpper {c : Char} (hc : c.toNat < 128) (h : IsCapital c.toUpper) :
    c.isAlpha = true := by
  have hletters : ((List.range 128).all fun n =>
      !decide (IsCapital (Char.ofNat n).toUpper) || (Char.ofNat n).isAlpha) = true := by
    decide
  have hletter := List.all_eq_true.mp hletters c.toNat (List.mem_range.mpr hc)
  simpa [h] using hletter

/-- A code that is that of a capital letter is the code of its character. -/
theorem toNat_of_isCapital {n : Nat} (h : IsCapital (Char.ofNat n)) : (Char.ofNat n).toNat = n := by
  unfold IsCapital at h
  rw [Char.toNat_ofNat] at h ⊢
  split at h
  · rename_i hvalid
    exact if_pos hvalid
  · omega

theorem stray_of_run {r : Text.CaseRun} (hr : r ∈ Text.upperRuns) {c : Char}
    (hc : ¬ c.toNat < 128) {n : Nat} (h : r.map? c.toNat = some n)
    (hn : IsCapital (Char.ofNat n)) : c ∈ strayLetters := by
  have hstrays : Text.upperRuns.all strays = true := by decide
  have hstray := List.all_eq_true.mp hstrays r hr
  obtain ⟨⟨hfirst, hlast, -⟩, hmap⟩ := Text.CaseRun.has_of_map? h
  have himage : r.image.first ≤ n ∧ n ≤ r.image.last := by
    change (r.first + r.shift).toNat ≤ n ∧ n ≤ (r.last + r.shift).toNat
    omega
  have hcode := toNat_of_isCapital hn
  simp only [strays, Bool.or_eq_true, Bool.and_eq_true, decide_eq_true_eq, beq_iff_eq,
    List.contains_iff_mem] at hstray
  obtain ⟨hone, hstray⟩ := hstray.resolve_left (by unfold IsCapital at hn; omega)
  rwa [show r.first = c.toNat by omega, Char.ofNat_toNat] at hstray

/-- Beyond the first 128 characters only stray letters have capital letters of a frame word as their
upper case forms. -/
theorem stray_of_mapCase {word : String} (hword : word ∈ frameWords) {c : Char}
    (hc : ¬ c.toNat < 128)
    (h : Text.mapCase Text.upperRuns Text.upperExpansions c <:+: word.toList) :
    c ∈ strayLetters := by
  unfold Text.mapCase at h
  cases hrun : Text.upperRuns.findSome? (·.map? c.toNat) with
  | some n =>
    obtain ⟨r, hr, hmap⟩ := List.exists_of_findSome?_eq_some hrun
    exact stray_of_run hr hc hmap (isCapital_of_mem hword (h.subset (by simp [hrun])))
  | none =>
    cases hlookup : Text.upperExpansions.lookup c.toNat with
    | some ns =>
      simp only [hrun, hlookup] at h
      have hexpansions : ∀ e ∈ Text.upperExpansions, ∀ word ∈ frameWords,
          ¬ e.2.map Char.ofNat <:+: word.toList := by decide +kernel
      obtain ⟨before, after, hsplit, -⟩ := List.lookup_eq_some_iff.mp hlookup
      exact absurd h (hexpansions (c.toNat, ns) (by simp [hsplit]) word hword)
    | none =>
      have hcapital : IsCapital c := isCapital_of_mem hword (h.subset (by simp [hrun, hlookup]))
      unfold IsCapital at hcapital
      omega

/-- A letter of a frame word is the upper case form of a letter of the first 128 characters or of a
stray one. -/
theorem letter_of_upperChar {word : String} (hword : word ∈ frameWords) {c : Char}
    (h : Text.upperChar c <:+: word.toList) : c.isAlpha = true ∨ c ∈ strayLetters := by
  unfold Text.upperChar at h
  split at h
  · rename_i hc
    exact .inl (isAlpha_of_toUpper hc (isCapital_of_mem hword (h.subset List.mem_cons_self)))
  · rename_i hc
    exact .inr (stray_of_mapCase hword hc h)

/-- The characters of what passes in a frame clause. -/
theorem frameToken_chars {token : String} (h : isFrameToken token = true) :
    ∀ c ∈ token.toList, c.isAlpha = true ∨ c ∈ strayLetters ∨ Text.isDigitChar c = true := by
  intro c hc
  rcases (Bool.or_eq_true _ _).mp h with hword | hdigits
  · have hinfix : Text.upperChar c <:+: (Text.upper token).toList := by
      rw [Text.upper, String.toList_ofList]
      exact List.infix_flatMap_of_mem hc Text.upperChar
    rcases letter_of_upperChar (List.contains_iff_mem.mp hword) hinfix with hletter | hstray
    · exact .inl hletter
    · exact .inr (.inl hstray)
  · have hall := ((Bool.and_eq_true _ _).mp hdigits).2
    exact .inr (.inr (List.all_eq_true.mp hall c hc))

/-! ## Characters of texts -/

/-- All characters of a text have a property. -/
def SpelledIn (P : Char → Prop) (s : String) : Prop := ∀ c ∈ s.toList, P c

/-- Characters that stand in a clause: those of names, and the marks between names. -/
def isClauseChar (c : Char) : Bool := isNameChar c || ['.', ',', '*', ' '].contains c

/-- Characters that stand in a window's text: those of clauses, and parentheses. -/
def isFragmentChar (c : Char) : Bool := isClauseChar c || c == '(' || c == ')'

section SpelledIn

variable {P : Char → Prop} {s t : String}

theorem spelledIn_append : SpelledIn P (s ++ t) ↔ SpelledIn P s ∧ SpelledIn P t := by
  unfold SpelledIn
  rw [String.toList_append, List.forall_mem_append]

theorem spelledIn_intercalate {separator : String} (h : SpelledIn P separator) (ts : List String) :
    SpelledIn P (separator.intercalate ts) ↔ ∀ t ∈ ts, SpelledIn P t := by
  induction ts with
  | nil => simp [SpelledIn]
  | cons t ts ih =>
    cases ts with
    | nil => simp
    | cons u ts =>
      rw [String.intercalate_cons_cons]
      simp only [spelledIn_append, ih, List.forall_mem_cons, h, and_true]

theorem SpelledIn.imp {Q : Char → Prop} (h : SpelledIn P s) (hPQ : ∀ c, P c → Q c) :
    SpelledIn Q s := fun c hc => hPQ c (h c hc)

/-- A fixed text of a clause. -/
theorem spelledIn_fixed (hP : ∀ c, isClauseChar c = true → P c)
    (h : s.toList.all isClauseChar = true) : SpelledIn P s :=
  fun c hc => hP c (List.all_eq_true.mp h c hc)

theorem spelledIn_orderText (hP : ∀ c, isClauseChar c = true → P c) {o : OrderTerm}
    (hdirection : o.direction = "asc" ∨ o.direction = "desc")
    (hnulls : ∀ n ∈ o.nulls, n = "first" ∨ n = "last") :
    SpelledIn P o.text ↔ SpelledIn P o.field := by
  have hblank : SpelledIn P " " := spelledIn_fixed hP (by decide)
  have hdirection : SpelledIn P o.direction := by
    apply spelledIn_fixed hP
    rcases hdirection with h | h <;> rw [h] <;> decide
  have hnulls : SpelledIn P (o.nulls.elim "" fun nulls => " NULLS " ++ Text.upper nulls) := by
    apply spelledIn_fixed hP
    cases hn : o.nulls with
    | none => rfl
    | some n => rcases hnulls n hn with rfl | rfl <;> decide
  unfold OrderTerm.text
  simp only [spelledIn_append, hblank, hdirection, hnulls, and_true]

theorem spelledIn_listPart (hP : ∀ c, isClauseChar c = true → P c) {lead : String}
    (hlead : lead.toList.all isClauseChar = true) (items : List String) :
    (∀ part ∈ listPart lead items, SpelledIn P part) ↔ ∀ item ∈ items, SpelledIn P item := by
  unfold listPart
  split
  · rename_i hempty
    simp [List.isEmpty_iff.mp hempty]
  · rw [List.forall_mem_singleton, spelledIn_append, commas,
      spelledIn_intercalate (spelledIn_fixed hP (by decide))]
    simp only [spelledIn_fixed hP hlead, true_and]

theorem spelledIn_framePart (hP : ∀ c, isClauseChar c = true → P c) (frame : Option String) :
    (∀ part ∈ framePart frame, SpelledIn P part) ↔
      ∀ clause ∈ frame, ∀ token ∈ Text.fields clause, SpelledIn P token := by
  unfold framePart
  cases frame with
  | none => simp
  | some clause =>
    dsimp only
    split
    · rename_i hempty
      have hempty : clause = "" := String.isEmpty_iff.mp hempty
      simp [hempty, Text.fields, Text.fieldsFrom]
    · rw [List.forall_mem_singleton, spelledIn_intercalate (spelledIn_fixed hP (by decide))]
      simp

end SpelledIn

/-! ## Windows -/

/-- The names of a request that stand in a window's text. The field of a row number does not. -/
def Window.names (w : Window) : List String :=
  (if w.type = "row_number" then none else w.field).toList ++ (w.partitionBy ++
    w.orderBy.map (·.field))

/-- A window with a text is valid, whatever its name. -/
theorem valid_of_fragment {w : Window} {text : String} (h : w.fragment = .ok text) :
    ({ w with label := "w" } : Window).IsValid := by
  apply met_window.mp
  apply (settles_window _).ok_iff.mp
  have hlabel : checkIdentifier "w" = .ok "w" := if_pos (by decide)
  refine ⟨.window "w" text, ?_⟩
  unfold Window.compile
  rw [hlabel, ok_sequence]
  change w.fragment >>= _ = _
  rw [h]
  rfl

theorem spelledIn_clause {P : Char → Prop} (hP : ∀ c, isClauseChar c = true → P c) {w : Window}
    (hw : w.IsValid) :
    SpelledIn P w.clause ↔ (∀ name ∈ w.partitionBy ++ w.orderBy.map (·.field), SpelledIn P name) ∧
      ∀ clause ∈ w.frame, ∀ token ∈ Text.fields clause, SpelledIn P token := by
  have horder : (∀ item ∈ w.orderBy.map (·.text), SpelledIn P item) ↔
      ∀ name ∈ w.orderBy.map (·.field), SpelledIn P name := by
    rw [List.forall_mem_map, List.forall_mem_map]
    apply forall₂_congr
    intro o ho
    obtain ⟨hdirection, -, hnulls⟩ := hw.orderBy o ho
    exact spelledIn_orderText hP hdirection hnulls
  unfold Window.clause
  rw [spelledIn_intercalate (spelledIn_fixed hP (by decide)), List.forall_mem_append,
    List.forall_mem_append, List.forall_mem_append, spelledIn_listPart hP (by decide),
    spelledIn_listPart hP (by decide), spelledIn_framePart hP, horder]

theorem spelledIn_argument {P : Char → Prop} (hP : ∀ c, isClauseChar c = true → P c) (w : Window) :
    SpelledIn P w.argument ↔
      ∀ name ∈ (if w.type = "row_number" then none else w.field).toList, SpelledIn P name := by
  unfold Window.argument
  split
  · exact iff_of_true (spelledIn_fixed hP rfl) (by simp)
  · cases w.field with
    | none =>
      refine iff_of_true (spelledIn_fixed hP ?_) (by simp)
      rw [Option.getD_none]
      split <;> decide
    | some f => simp

theorem spelledIn_type {P : Char → Prop} (hP : ∀ c, isClauseChar c = true → P c) {type : String}
    (h : type ∈ windowTypes) : SpelledIn P (Text.upper type) := by
  have hall : (windowTypes.all fun type => (Text.upper type).toList.all isClauseChar) = true := by
    decide
  exact spelledIn_fixed hP (List.all_eq_true.mp hall type h)

/-- The characters of a window's text are those of its names and of the words of its frame, and
others that are plain. -/
theorem spelledIn_text {P : Char → Prop} (hP : ∀ c, isFragmentChar c = true → P c) {w : Window}
    (hw : w.IsValid) :
    SpelledIn P w.text ↔ (∀ name ∈ w.names, SpelledIn P name) ∧
      ∀ clause ∈ w.frame, ∀ token ∈ Text.fields clause, SpelledIn P token := by
  have hclause (c : Char) (hc : isClauseChar c = true) : P c := hP c (by simp [isFragmentChar, hc])
  have hfixed (s : String) (h : s.toList.all isFragmentChar = true) : SpelledIn P s :=
    fun c hc => hP c (List.all_eq_true.mp h c hc)
  unfold Window.text Window.names
  simp only [spelledIn_append, spelledIn_type hclause hw.type, spelledIn_argument hclause,
    spelledIn_clause hclause hw, hfixed "(" rfl, hfixed ")" rfl, hfixed ") OVER (" (by decide),
    List.forall_mem_append, true_and, and_true, and_assoc]

theorem identifier_spelled {name : String} (h : isIdentifier name = true) :
    SpelledIn (fun c => isNameChar c = true ∨ c = '.' ∨ c = '\n') name := by
  have hpath {path : List Char} (h : IsPath path) (c : Char) (hc : c ∈ path) :
      isNameChar c = true ∨ c = '.' ∨ c = '\n' :=
    (isNameChar_of_isPath h c hc).imp_right .inl
  intro c hc
  rcases (isIdentifier_iff name).mp h with h | ⟨path, h, hname⟩
  · exact hpath h c hc
  · rw [hname, List.mem_append, List.mem_singleton] at hc
    exact hc.elim (hpath h c) fun hline => .inr (.inr hline)

theorem name_spelled {name : String} (h : name = "*" ∨ isIdentifier name = true) :
    SpelledIn (fun c => isClauseChar c = true ∨ c = '\n') name := by
  rcases h with rfl | hidentifier
  · intro c hc
    obtain rfl : c = '*' := by simpa using hc
    exact .inl (by decide)
  · refine (identifier_spelled hidentifier).imp ?_
    rintro c (hc | rfl | rfl)
    · exact .inl (by simp [isClauseChar, hc])
    · exact .inl (by decide)
    · exact .inr rfl

theorem names_valid {w : Window} (hw : w.IsValid) :
    ∀ name ∈ w.names, name = "*" ∨ isIdentifier name = true := by
  unfold Window.names
  intro name hname
  rw [List.mem_append, List.mem_append, List.mem_map] at hname
  rcases hname with hfield | hpartition | ⟨o, ho, rfl⟩
  · split at hfield
    · cases hfield
    · rename_i hrow
      exact hw.field hrow name (Option.mem_toList.mp hfield)
  · exact .inr (hw.partitionBy name hpartition)
  · exact .inr (hw.orderBy o ho).2.1

theorem frame_valid {w : Window} (hw : w.IsValid) :
    ∀ clause ∈ w.frame, ∀ token ∈ Text.fields clause, isFrameToken token = true := by
  intro clause hclause token htoken
  apply (hw.frame clause hclause ?_).2 token htoken
  rintro rfl
  cases htoken

theorem code_lt_of_isFragmentChar {c : Char} (h : isFragmentChar c = true) : c.toNat < 128 := by
  simp only [isFragmentChar, isClauseChar, isNameChar, Bool.or_eq_true, beq_iff_eq,
    List.contains_iff_mem, List.mem_cons, List.not_mem_nil, or_false] at h
  rcases h with (((h | rfl) | rfl | rfl | rfl | rfl) | rfl) | rfl
  · exact Text.code_lt_of_isAlphanum h
  all_goals decide

theorem isFragmentChar_of_digit {c : Char} (hc : c.toNat < 128) (h : Text.isDigitChar c = true) :
    isFragmentChar c = true := by
  have hdigits : ((List.range 128).all fun n =>
      !Text.isDigitChar (Char.ofNat n) || isFragmentChar (Char.ofNat n)) = true := by decide
  have hdigit := List.all_eq_true.mp hdigits c.toNat (List.mem_range.mpr hc)
  simpa [h] using hdigit

/-- The plain words of a frame are those of the first 128 characters. -/
theorem frameToken_plain {token : String} (h : isFrameToken token = true) :
    SpelledIn (isFragmentChar · = true) token ↔ SpelledIn (·.toNat < 128) token := by
  apply forall₂_congr
  intro c hc
  refine ⟨code_lt_of_isFragmentChar, fun hcode => ?_⟩
  rcases frameToken_chars h c hc with hletter | hstray | hdigit
  · simp [isFragmentChar, isClauseChar, isNameChar, Char.isAlphanum, hletter]
  · have hstrays : (strayLetters.all fun d => decide (128 ≤ d.toNat)) = true := by decide
    have hstray := of_decide_eq_true (List.all_eq_true.mp hstrays c hstray)
    omega
  · exact isFragmentChar_of_digit hcode hdigit

/-- The plain names are those without a line end. -/
theorem name_plain {name : String} (h : name = "*" ∨ isIdentifier name = true) :
    SpelledIn (isFragmentChar · = true) name ↔ '\n' ∉ name.toList := by
  have hline : isFragmentChar '\n' = false := by decide
  constructor
  · intro hplain hmem
    exact absurd (hplain '\n' hmem) (by simp [hline])
  · intro hmem c hc
    rcases name_spelled h c hc with hclause | rfl
    · simp [isFragmentChar, hclause]
    · exact absurd hc hmem

/-- A window of names without a line end, whose frame has no characters but the first 128. -/
structure Window.IsPlain (w : Window) : Prop where
  names : ∀ name ∈ w.names, '\n' ∉ name.toList
  frame : ∀ clause ∈ w.frame, ∀ token ∈ Text.fields clause, SpelledIn (·.toNat < 128) token

theorem isPlain_iff {w : Window} (hw : w.IsValid) :
    SpelledIn (isFragmentChar · = true) w.text ↔ w.IsPlain := by
  have hnames : (∀ name ∈ w.names, SpelledIn (isFragmentChar · = true) name) ↔
      ∀ name ∈ w.names, '\n' ∉ name.toList :=
    forall₂_congr fun name hname => name_plain (names_valid hw name hname)
  have hframe : (∀ clause ∈ w.frame, ∀ token ∈ Text.fields clause,
        SpelledIn (isFragmentChar · = true) token) ↔
      ∀ clause ∈ w.frame, ∀ token ∈ Text.fields clause, SpelledIn (·.toNat < 128) token :=
    forall₂_congr fun clause hclause => forall₂_congr fun token htoken =>
      frameToken_plain (frame_valid hw clause hclause token htoken)
  rw [spelledIn_text (fun _ hc => hc) hw, hnames, hframe]
  exact ⟨fun h => ⟨h.1, h.2⟩, fun h => ⟨h.names, h.frame⟩⟩

/-- What is neither a letter nor a digit stands in no word of a frame. -/
theorem notMem_frameToken {token : String} (h : isFrameToken token = true) {d : Char}
    (hd : (d.isAlpha || strayLetters.contains d || Text.isDigitChar d) = false) :
    d ∉ token.toList := by
  intro hmem
  simp only [Bool.or_eq_false_iff, List.contains_eq_mem, decide_eq_false_iff_not] at hd
  simpa [hd] using frameToken_chars h d hmem

/-- No word of a frame brings a parenthesis. -/
theorem frameToken_closed {token : String} (h : isFrameToken token = true) :
    SpelledIn (fun c => c ≠ '(' ∧ c ≠ ')') token := by
  intro c hc
  constructor <;> rintro rfl <;> exact notMem_frameToken h (by decide) hc

/-- The name of a function, its argument and the clause of a window have no parentheses. -/
theorem parts_closed {w : Window} (hw : w.IsValid) :
    ∀ part ∈ [Text.upper w.type, w.argument, w.clause],
      SpelledIn (fun c => c ≠ '(' ∧ c ≠ ')') part := by
  have hclause (c : Char) (hc : isClauseChar c = true) : c ≠ '(' ∧ c ≠ ')' := by
    constructor <;> rintro rfl <;> revert hc <;> decide
  have hnames (name : String) (hname : name ∈ w.names) :
      SpelledIn (fun c => c ≠ '(' ∧ c ≠ ')') name := by
    refine (name_spelled (names_valid hw name hname)).imp ?_
    rintro c (hc | rfl)
    · exact hclause c hc
    · decide
  have hframe (clause : String) (hmem : clause ∈ w.frame) (token : String)
      (htoken : token ∈ Text.fields clause) : SpelledIn (fun c => c ≠ '(' ∧ c ≠ ')') token :=
    frameToken_closed (frame_valid hw clause hmem token htoken)
  obtain ⟨hargument, hlists⟩ := List.forall_mem_append.mp hnames
  simp only [List.forall_mem_cons, List.not_mem_nil, false_imp_iff, implies_true, and_true]
  exact ⟨spelledIn_type hclause hw.type, (spelledIn_argument hclause w).mpr hargument,
    (spelledIn_clause hclause hw).mpr ⟨hlists, hframe⟩⟩

/-- The characters that may stand in a window's text: plain ones, line ends behind names, and the
stray letters and digits of frames. -/
theorem text_spelled {w : Window} (hw : w.IsValid) :
    SpelledIn (fun c => isFragmentChar c = true ∨ c = '\n' ∨ c ∈ strayLetters ∨
      Text.isDigitChar c = true) w.text := by
  refine (spelledIn_text (fun _ hc => .inl hc) hw).mpr ⟨fun name hname => ?_, ?_⟩
  · refine (name_spelled (names_valid hw name hname)).imp ?_
    rintro c (hc | hline)
    · exact .inl (by simp [isFragmentChar, hc])
    · exact .inr (.inl hline)
  · intro clause hclause token htoken c hc
    rcases frameToken_chars (frame_valid hw clause hclause token htoken) c hc with hletter | hrest
    · exact .inl (by simp [isFragmentChar, isClauseChar, isNameChar, Char.isAlphanum, hletter])
    · exact .inr (.inr hrest)

/-! ## What passes -/

/-- An identifier is a path of names, or one with a line end behind it, and nothing else passes. The
text of a window is one call and one clause that have no other parentheses than their own; its
characters are plain apart from line ends behind names and from the stray letters and the digits of
frames, and all of them are plain exactly if no name has a line end and the words of the frame are
written in the first 128 characters. -/
theorem names_and_windows_spelled (name : String) (w : Window) :
    ((checkIdentifier name = .ok name ↔
        IsPath name.toList ∨ ∃ path, IsPath path ∧ name.toList = path ++ ['\n']) ∧
      (checkIdentifier name = .ok name ∨
        checkIdentifier name = .error (.unsupported (.identifier name)))) ∧
    ∀ text, w.fragment = .ok text →
      text = Text.upper w.type ++ "(" ++ w.argument ++ ") OVER (" ++ w.clause ++ ")" ∧
      (∀ part ∈ [Text.upper w.type, w.argument, w.clause],
        SpelledIn (fun c => c ≠ '(' ∧ c ≠ ')') part) ∧
      SpelledIn (fun c => isFragmentChar c = true ∨ c = '\n' ∨ c ∈ strayLetters ∨
        Text.isDigitChar c = true) text ∧
      (SpelledIn (isFragmentChar · = true) text ↔ w.IsPlain) := by
  constructor
  · rw [← isIdentifier_iff, checkIdentifier]
    by_cases hname : isIdentifier name = true
    · simp [hname]
    · simp [hname]
  · intro text h
    have hw := valid_of_fragment h
    have hparts := parts_closed hw
    have hspelled := text_spelled hw
    have hplain := isPlain_iff hw
    rw [fragment_eq h]
    refine ⟨rfl, hparts, hspelled, ?_⟩
    exact hplain.trans ⟨fun h => ⟨h.names, h.frame⟩, fun h => ⟨h.names, h.frame⟩⟩

/-- Ranks of salaries in each department. -/
def salaryRanks : Window :=
  ⟨"row_number", "rn", none, ["dept"], [⟨"salary", "desc", none⟩], some "rows current row"⟩

theorem salaryRanks_spelled :
    salaryRanks.fragment =
        .ok "ROW_NUMBER() OVER (PARTITION BY dept ORDER BY salary desc rows current row)" ∧
      SpelledIn (isFragmentChar · = true)
        "ROW_NUMBER() OVER (PARTITION BY dept ORDER BY salary desc rows current row)" := by
  have hfragment : salaryRanks.fragment =
      .ok "ROW_NUMBER() OVER (PARTITION BY dept ORDER BY salary desc rows current row)" := by
    rfl
  refine ⟨hfragment, ((names_and_windows_spelled "dept" salaryRanks).2 _ hfragment).2.2.2.mpr ?_⟩
  constructor
  · decide
  · have hframe : ((Text.fields "rows current row").all fun token =>
        token.toList.all fun c => decide (c.toNat < 128)) = true := by decide
    intro clause hclause token htoken c hc
    obtain rfl := Option.mem_some_iff.mp hclause
    have htoken := List.all_eq_true.mp hframe token htoken
    exact of_decide_eq_true (List.all_eq_true.mp htoken c hc)

/-- A line end behind a name passes and stands in the text of a window, and so do a long s and a
raised two in a frame. -/
theorem line_end_passes :
    checkIdentifier "a\n" = .ok "a\n" ∧ ¬ IsPath "a\n".toList ∧
      ({ salaryRanks with partitionBy := ["a\n"], frame := none } : Window).fragment =
        .ok "ROW_NUMBER() OVER (PARTITION BY a\n ORDER BY salary desc)" ∧
      ({ salaryRanks with frame := some "rowſ ² preceding" } : Window).fragment =
        .ok "ROW_NUMBER() OVER (PARTITION BY dept ORDER BY salary desc rowſ ² preceding)" := by
  refine ⟨by rfl, ?_, by rfl, by rfl⟩
  rw [← (isPathFrom_iff _).1]
  decide

end RowGate
