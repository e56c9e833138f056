import Mathlib
import RowGate.Access.Rehearsal
import RowGate.Proofs.Script.Run
import RowGate.Proofs.Sql.RawText
import RowGate.Proofs.Text.Collection
/-!
Templates of conditions and the parameters of their statements. A template's placeholders and the
parameters that a statement declares are found by two scans, which stop at the same colons and
read different words behind them. Main statement: where the scans agree, mark by mark, and what a
rule with a template does then and otherwise.
-/
namespace RowGate.Access

open Sql (opensAfter declaredNames)

/-! ## Marks -/

/-- A colon that may start a name: the word behind it, and whether a colon closes the word. -/
structure Mark where
  word : List Char
  closed : Bool
deriving DecidableEq, Repr

namespace Mark

/-- The parameter that a statement declares at a mark. A word that a colon closes loses its last
character. -/
def bind? (m : Mark) : Option String :=
  let named := if m.closed then m.word.dropLast else m.word
  if named.isEmpty then none else some (String.ofList named)

/-- The placeholder that a template has at a mark. -/
def placeholder? (m : Mark) : Option String :=
  if m.word.head?.any Template.startsName then
    some (String.ofList (m.word.takeWhile Template.continuesName))
  else none

/-- A name of a placeholder: a letter or an underscore, then letters, digits and underscores, all of
the first 128 characters. -/
def IsName (cs : List Char) : Prop :=
  cs.head?.any Template.startsName = true ∧ cs.all Template.continuesName = true

/-- A mark that both scans read alike: no word is there; the word is a name and not closed; or the
character that a closed word loses is what no name goes on with. -/
def Agrees (m : Mark) : Prop :=
  m.word = [] ∨ (m.closed = false ∧ IsName m.word) ∨
    m.closed = true ∧ ∃ cs c, m.word = cs ++ [c] ∧
      ((cs = [] ∧ Template.startsName c = false) ∨ (IsName cs ∧ Template.continuesName c = false))

end Mark

/-- The marks of a text. A colon behind a colon, a backslash or a word is none. -/
def marksFrom (before : Option Char) : List Char → List Mark
  | [] => []
  | c :: rest =>
    (if c == ':' && opensAfter before then
      [⟨rest.takeWhile Text.isWord, (rest.dropWhile Text.isWord).head? == some ':'⟩]
    else []) ++ marksFrom (some c) rest

/-- The marks of a template. -/
def marks (t : String) : List Mark := marksFrom none t.toList

theorem isWord_of_continuesName {c : Char} (h : Template.continuesName c = true) :
    Text.isWord c = true := by
  rcases (Bool.or_eq_true _ _).mp h with halphanum | hunderscore
  · exact Text.isWord_of_isAlphanum halphanum
  · rw [beq_iff_eq.mp hunderscore]
    exact Text.isWord_underscore

theorem continuesName_of_startsName {c : Char} (h : Template.startsName c = true) :
    Template.continuesName c = true := by
  simp only [Template.startsName, Template.continuesName, Char.isAlphanum, Bool.or_eq_true] at h ⊢
  tauto

/-- The statement declares a parameter at each mark that has one. -/
theorem declaredNames_eq (before : Option Char) (cs : List Char) :
    declaredNames before cs = (marksFrom before cs).filterMap Mark.bind? := by
  induction cs generalizing before with
  | nil => rfl
  | cons c rest ih =>
    rw [declaredNames, marksFrom, List.filterMap_append, ih]
    congr 1
    by_cases hmark : (c == ':' && opensAfter before) = true
    · simp only [hmark, if_true, Bool.true_and, List.filterMap_cons, List.filterMap_nil, Mark.bind?,
        beq_iff_eq]
      generalize (if (rest.dropWhile Text.isWord).head? = some ':' then
        (rest.takeWhile Text.isWord).dropLast else rest.takeWhile Text.isWord) = named
      cases named <;> rfl
    · simp [hmark]

theorem head_takeWhile_isWord (rest : List Char) :
    (rest.takeWhile Text.isWord).head?.any Template.startsName =
      rest.head?.any Template.startsName := by
  cases rest with
  | nil => rfl
  | cons d rest =>
    by_cases hd : Text.isWord d = true
    · rw [List.takeWhile_cons_of_pos hd]
      rfl
    · have hstart : Template.startsName d = false := by
        by_contra hstart
        rw [Bool.not_eq_false] at hstart
        exact hd (isWord_of_continuesName (continuesName_of_startsName hstart))
      rw [List.takeWhile_cons_of_neg hd]
      simp [hstart]

theorem takeWhile_isWord_continuesName (rest : List Char) :
    (rest.takeWhile Text.isWord).takeWhile Template.continuesName =
      rest.takeWhile Template.continuesName := by
  rw [List.takeWhile_takeWhile]
  congr 1
  funext c
  by_cases hc : Template.continuesName c = true
  · simp [hc, isWord_of_continuesName hc]
  · simp [hc]

/-- The template has a placeholder at each mark that has one. -/
theorem namesFrom_eq (before : Option Char) (cs : List Char) :
    Template.namesFrom before cs = (marksFrom before cs).filterMap Mark.placeholder? := by
  induction cs generalizing before with
  | nil => rfl
  | cons c rest ih =>
    rw [Template.namesFrom, marksFrom, List.filterMap_append, ih]
    congr 1
    by_cases hmark : (c == ':' && opensAfter before) = true
    · simp only [hmark, if_true, Bool.true_and, List.filterMap_cons, List.filterMap_nil,
        Mark.placeholder?, head_takeWhile_isWord, takeWhile_isWord_continuesName]
      split <;> rfl
    · simp [hmark]

namespace Mark

theorem placeholder?_eq_some {m : Mark} {cs : List Char} :
    m.placeholder? = some (String.ofList cs) ↔
      m.word.head?.any Template.startsName = true ∧
        m.word.takeWhile Template.continuesName = cs := by
  have hinjective {ds : List Char} : String.ofList ds = String.ofList cs ↔ ds = cs :=
    ⟨fun h => by simpa using congrArg String.toList h, congrArg String.ofList⟩
  unfold placeholder?
  split
  · rename_i hstart
    rw [Option.some.injEq, hinjective]
    exact (and_iff_right hstart).symm
  · rename_i hstart
    exact iff_of_false nofun fun h => hstart h.1

theorem placeholder?_eq_none {m : Mark} :
    m.placeholder? = none ↔ ¬ m.word.head?.any Template.startsName = true := by
  unfold placeholder?
  split
  · rename_i hstart
    exact iff_of_false nofun (not_not.mpr hstart)
  · rename_i hstart
    exact iff_of_true rfl hstart

theorem takeWhile_concat {p : Char → Bool} (cs : List Char) (c : Char) :
    (cs ++ [c]).takeWhile p = cs ↔ cs.all p = true ∧ p c = false := by
  induction cs with
  | nil => cases hc : p c <;> simp [hc]
  | cons d cs ih => cases hd : p d <;> simp [hd, ih]

theorem agrees_open (word : List Char) :
    (⟨word, false⟩ : Mark).bind? = (⟨word, false⟩ : Mark).placeholder? ↔
      word = [] ∨ IsName word := by
  cases word with
  | nil => exact iff_of_true rfl (.inl rfl)
  | cons c cs =>
    have hbind : (⟨c :: cs, false⟩ : Mark).bind? = some (String.ofList (c :: cs)) := rfl
    rw [hbind, eq_comm, placeholder?_eq_some, List.takeWhile_eq_self_iff, ← List.all_eq_true]
    simp [IsName]

/-- A closed word is read alike where the placeholder stops before its last character. -/
theorem agrees_closed (cs : List Char) (c : Char) :
    (⟨cs ++ [c], true⟩ : Mark).bind? = (⟨cs ++ [c], true⟩ : Mark).placeholder? ↔
      (cs = [] ∧ Template.startsName c = false) ∨
        (IsName cs ∧ Template.continuesName c = false) := by
  cases cs with
  | nil =>
    have hbind : (⟨[] ++ [c], true⟩ : Mark).bind? = none := rfl
    rw [hbind, eq_comm, placeholder?_eq_none]
    simp [IsName]
  | cons d cs =>
    have hbind : (⟨d :: cs ++ [c], true⟩ : Mark).bind? = some (String.ofList (d :: cs)) := by
      rw [bind?, if_pos rfl, List.dropLast_concat]
      rfl
    rw [hbind, eq_comm, placeholder?_eq_some, takeWhile_concat, ← and_assoc]
    simp [IsName]

/-- The scans agree at the marks that were said to. -/
theorem agrees_iff (m : Mark) : m.bind? = m.placeholder? ↔ m.Agrees := by
  obtain ⟨word, closed⟩ := m
  cases closed with
  | false => simpa [Agrees] using agrees_open word
  | true =>
    rcases List.eq_nil_or_concat word with rfl | ⟨cs, c, rfl⟩
    · exact iff_of_true rfl (.inl rfl)
    · rw [List.concat_eq_append, agrees_closed]
      simp [Agrees]

end Mark

/-! ## The two lists -/

theorem isRowName_iff {n : String} :
    Template.isRowName n = true ↔ ∃ f, n = Template.rowMark ++ f := by
  unfold Template.isRowName
  rw [List.isPrefixOf_iff_prefix]
  constructor
  · rintro ⟨rest, hrest⟩
    refine ⟨String.ofList rest, String.toList_injective ?_⟩
    rw [String.toList_append, String.toList_ofList, hrest]
  · rintro ⟨f, rfl⟩
    rw [String.toList_append]
    exact List.prefix_append _ _

theorem drop_rowMark (f : String) :
    String.ofList ((Template.rowMark ++ f).toList.drop Template.rowMark.toList.length) = f := by
  rw [String.toList_append, List.drop_left, String.ofList_toList]

/-- The fields of the row are the row names without what they start with, in the same order. -/
theorem map_rowFields (t : String) :
    (Template.rowFields t).map (Template.rowMark ++ ·) =
      (Template.names t).filter Template.isRowName := by
  unfold Template.rowFields
  rw [List.map_map]
  conv_rhs => rw [← List.map_id ((Template.names t).filter Template.isRowName)]
  apply List.map_congr_left
  intro n hn
  obtain ⟨f, rfl⟩ := isRowName_iff.mp (List.mem_filter.mp hn).2
  change Template.rowMark ++ String.ofList _ = _
  rw [drop_rowMark]
  rfl

theorem mem_rowFields {t f : String} :
    f ∈ Template.rowFields t ↔ Template.rowMark ++ f ∈ Template.namesFrom none t.toList := by
  have hinjective : Function.Injective (Template.rowMark ++ ·) := fun f g h => by
    simpa using h
  rw [← List.mem_map_of_injective hinjective, map_rowFields, List.mem_filter, Template.names,
    Text.mem_distinct, isRowName_iff]
  exact and_iff_left ⟨f, rfl⟩

/-- Some texts stand in the order in which they first occur in a list. -/
def InOrderOf (xs ys : List String) : Prop := ys.Pairwise fun x y => xs.idxOf x < xs.idxOf y

theorem contextNames_inOrder (t : String) :
    InOrderOf (Template.namesFrom none t.toList) (Template.contextNames t) :=
  (Text.pairwise_distinct _).filter _

theorem rowFields_inOrder (t : String) :
    InOrderOf (Template.namesFrom none t.toList)
      ((Template.rowFields t).map (Template.rowMark ++ ·)) := by
  rw [map_rowFields]
  exact (Text.pairwise_distinct _).filter _

theorem nodup_contextNames (t : String) : (Template.contextNames t).Nodup :=
  (Text.nodup_distinct _).filter _

theorem nodup_rowFields (t : String) : (Template.rowFields t).Nodup := by
  apply List.Nodup.of_map (Template.rowMark ++ ·)
  rw [map_rowFields]
  exact (Text.nodup_distinct _).filter _

/-! ## The text around a template -/

/-- A template as the condition of a statement. -/
def asCondition (t : String) : List Char := ("SELECT 1 WHERE (" ++ t ++ ")").toList

theorem marksFrom_before {b b' : Option Char} (h : opensAfter b = opensAfter b') (cs : List Char) :
    marksFrom b cs = marksFrom b' cs := by
  cases cs with
  | nil => rfl
  | cons c cs => rw [marksFrom, marksFrom, h]

theorem marksFrom_closing (before : Option Char) (cs : List Char) :
    marksFrom before (cs ++ [')']) = marksFrom before cs := by
  have hclosing : Text.isWord ')' = false := Sql.isWord_closing
  have htake (rest : List Char) :
      (rest ++ [')']).takeWhile Text.isWord = rest.takeWhile Text.isWord := by
    induction rest with
    | nil => simp [hclosing]
    | cons c rest ih => cases hc : Text.isWord c <;> simp_all
  have hdrop (rest : List Char) :
      (((rest ++ [')']).dropWhile Text.isWord).head? == some ':') =
        ((rest.dropWhile Text.isWord).head? == some ':') := by
    induction rest with
    | nil => simp [hclosing]
    | cons c rest ih => cases hc : Text.isWord c <;> simp_all
  induction cs generalizing before with
  | nil => simp [marksFrom]
  | cons c cs ih => rw [List.cons_append, marksFrom, marksFrom, ih, htake, hdrop]

/-- Around a template no further marks stand. -/
theorem marksFrom_asCondition (t : String) : marksFrom none (asCondition t) = marks t := by
  have hopening (cs : List Char) :
      marksFrom none ("SELECT 1 WHERE (".toList ++ cs) = marksFrom (some '(') cs := rfl
  have hopens : opensAfter (some '(') = opensAfter none := by decide
  unfold asCondition marks
  rw [String.toList_append, String.toList_append, List.append_assoc, hopening]
  exact (marksFrom_closing _ _).trans (marksFrom_before hopens _)

theorem declaredNames_asCondition (t : String) :
    declaredNames none (asCondition t) = declaredNames none t.toList := by
  rw [declaredNames_eq, declaredNames_eq, marksFrom_asCondition]
  rfl

/-! ## Values -/

/-- What keeps a user's value from a template: it cannot be looked up, or it is not there. -/
def lack (u : User) (n : String) : Option Fault :=
  match u.value n with
  | .error f => some f
  | .ok .null => some (.missingContext n)
  | .ok _ => none

/-- The value of a user by name, null if there is none. -/
def given (u : User) (n : String) : Value :=
  match u.value n with
  | .error _ => .null
  | .ok v => v

/-- The first name that a user lacks decides; without one, all values are there. -/
theorem contextOf_eq (u : User) (ns : List String) :
    contextOf u ns = match ns.findSome? (lack u) with
      | some f => .error f
      | none => .ok (ns.map fun n => (n, given u n)) := by
  induction ns with
  | nil => rfl
  | cons n ns ih =>
    rw [contextOf, List.findSome?_cons, List.map_cons, lack, given, ih]
    cases u.value n with
    | error f => rfl
    | ok v =>
      rw [ok_sequence]
      cases v with
      | null => rfl
      | _ =>
        dsimp only
        cases ns.findSome? (lack u) <;> rfl

/-- The name of a field of the row without what it starts with. -/
def fieldOf (n : String) : String := String.ofList (n.toList.drop Template.rowMark.toList.length)

/-- What the statement of a template has for a parameter: the value of the user or of the row, and
null where the template has no such placeholder. -/
def bindingOf (t : String) (u : User) (row : Record) (n : String) : Sql.RawBinding :=
  if n ∈ Template.names t then
    if Template.isRowName n then ⟨n, row.get (fieldOf n), false⟩ else Sql.rawBinding n (given u n)
  else ⟨n, .null, false⟩

/-- The placeholders of a template: names of the user's values, then those of fields of the row. -/
def placeholders (t : String) : List String :=
  Template.contextNames t ++ (Template.rowFields t).map (Template.rowMark ++ ·)

/-- The names that get a value: the placeholders, and the parameters that are none of them. -/
def bound (t : String) : List String :=
  placeholders t ++ (Text.distinct (declaredNames none t.toList)).filter (· ∉ Template.names t)

/-- The statement that is executed for a template. -/
def asked (t : String) (u : User) (row : Record) : Sql.RawText :=
  ⟨asCondition t, (bound t).map (bindingOf t u row)⟩

theorem mem_placeholders {t n : String} : n ∈ placeholders t ↔ n ∈ Template.names t := by
  unfold placeholders
  rw [List.mem_append, map_rowFields, Template.contextNames, List.mem_filter, List.mem_filter]
  cases Template.isRowName n <;> simp

theorem contextBindings_eq {context : Record} {v : String → Value} {ns : List String}
    (h : ∀ n ∈ ns, context.get? n = some (v n)) :
    Template.contextBindings context ns = .ok (ns.map fun n => Sql.rawBinding n (v n)) := by
  induction ns with
  | nil => rfl
  | cons n ns ih =>
    obtain ⟨hn, hns⟩ := List.forall_mem_cons.mp h
    rw [Template.contextBindings, hn]
    dsimp only
    rw [ih hns]
    rfl

theorem get?_map_of_mem {v : String → Value} {ns : List String} {n : String} (h : n ∈ ns) :
    Record.get? (ns.map fun n => (n, v n)) n = some (v n) := by
  induction ns with
  | nil => cases h
  | cons m ns ih =>
    unfold Record.get? at ih ⊢
    rw [List.map_cons, List.lookup_cons]
    by_cases hm : n = m
    · simp [hm]
    · have hfirst : (n == m) = false := beq_false_of_ne hm
      rw [hfirst]
      exact ih ((List.mem_cons.mp h).resolve_left hm)

theorem rawBinding_name (n : String) (v : Value) : (Sql.rawBinding n v).name = n := by
  unfold Sql.rawBinding
  split <;> rfl

theorem bindingOf_name (t : String) (u : User) (row : Record) (n : String) :
    (bindingOf t u row n).name = n := by
  unfold bindingOf
  split
  · split
    · rfl
    · exact rawBinding_name _ _
  · rfl

/-- The placeholders get the values that the template is asked about. -/
theorem map_bindingOf_placeholders (t : String) (u : User) (row : Record) :
    (placeholders t).map (bindingOf t u row) =
      (Template.contextNames t).map (fun n => Sql.rawBinding n (given u n)) ++
        (Template.rowFields t).map fun f => ⟨Template.rowMark ++ f, row.get f, false⟩ := by
  unfold placeholders
  rw [List.map_append, List.map_map]
  congr 1
  · apply List.map_congr_left
    intro n hn
    obtain ⟨hname, hcontext⟩ := List.mem_filter.mp hn
    have hcontext : ¬ Template.isRowName n = true := by simpa using hcontext
    rw [bindingOf, if_pos hname, if_neg hcontext]
  · apply List.map_congr_left
    intro f hf
    have hname : Template.rowMark ++ f ∈ Template.names t :=
      Text.mem_distinct.mpr (mem_rowFields.mp hf)
    rw [Function.comp_apply, bindingOf, if_pos hname, if_pos (isRowName_iff.mpr ⟨f, rfl⟩), fieldOf,
      drop_rowMark]

/-- A statement is made for a template exactly if all its placeholders are declared. -/
theorem statement_eq (t : String) (u : User) (row : Record) :
    Template.statement t ((Template.contextNames t).map fun n => (n, given u n)) row =
      if ∀ n ∈ placeholders t, n ∈ declaredNames none t.toList then .ok (asked t u row).written
      else .error .badArgument := by
  have hnames (n : String) :
      (!((placeholders t).map (bindingOf t u row)).any (·.name == n)) =
        decide (n ∉ Template.names t) := by
    rw [Bool.eq_iff_iff, decide_eq_true_eq, ← mem_placeholders]
    simp only [Bool.not_eq_true', List.any_eq_false, List.forall_mem_map, bindingOf_name, beq_iff_eq]
    exact ⟨fun h hn => h n hn rfl, fun h m hm heq => h (heq ▸ hm)⟩
  have hunbound : ((Text.distinct (declaredNames none t.toList)).filter fun n =>
        !((placeholders t).map (bindingOf t u row)).any (·.name == n)).map
          (fun n => (⟨n, .null, false⟩ : Sql.RawBinding)) =
      ((Text.distinct (declaredNames none t.toList)).filter (· ∉ Template.names t)).map
        (bindingOf t u row) := by
    simp only [hnames]
    apply List.map_congr_left
    intro n hn
    have hn : n ∉ Template.names t := by simpa using (List.mem_filter.mp hn).2
    rw [bindingOf, if_neg hn]
  have hdeclared : ((placeholders t).map (bindingOf t u row)).all (fun b =>
        (Text.distinct (declaredNames none t.toList)).contains b.name) = true ↔
      ∀ n ∈ placeholders t, n ∈ declaredNames none t.toList := by
    simp [List.all_map, bindingOf_name, Text.mem_distinct]
  unfold Template.statement
  rw [contextBindings_eq fun n hn => get?_map_of_mem hn, ok_sequence]
  dsimp only
  rw [← map_bindingOf_placeholders]
  change (if ((placeholders t).map (bindingOf t u row)).all (fun b =>
      (Text.distinct (declaredNames none (asCondition t))).contains b.name) = true then _ else _) = _
  rw [declaredNames_asCondition]
  by_cases h : ∀ n ∈ placeholders t, n ∈ declaredNames none t.toList
  · rw [if_pos (hdeclared.mpr h), if_pos h]
    change Except.ok (Sql.RawText.written ⟨asCondition t, _ ++ List.map _ (List.filter _
      (Text.distinct (declaredNames none (asCondition t))))⟩) = _
    rw [declaredNames_asCondition, hunbound, ← List.map_append]
    rfl
  · rw [if_neg fun hall => h (hdeclared.mp hall), if_neg h]

/-! ## Rules with templates -/

/-- What an engine's answer means for a rule. -/
def decisionOf (holds : Bool) : Decision := if holds then .allow else .pass

/-- A rule with a template where an engine is there. -/
theorem run_template (t : String) (u : User) (row : Option Record) (w : Rehearsal)
    (e : ConditionEngine) :
    let start : Rehearsal := { w with engine := some e }
    start.run ((Rule.template t).decide u row) =
      match (Template.contextNames t).findSome? (lack u) with
      | some f => (.error f, start)
      | none =>
        if ∀ n ∈ placeholders t, n ∈ declaredNames none t.toList then
          (e.reply.map decisionOf, { w with
            engine := some (e.execute (asked t u (row.getD [])).written).2 })
        else (.error .badArgument, start) := by
  intro start
  unfold Rehearsal.run Rule.decide
  dsimp only
  rw [Asking.runIn_bind_lift, contextOf_eq]
  cases hlack : (Template.contextNames t).findSome? (lack u) with
  | some f => rfl
  | none =>
    have hholds : (holds t ((Template.contextNames t).map fun n => (n, given u n))
        (row.getD [])).runIn Rehearsal.answer start = start.holds t
          ((Template.contextNames t).map fun n => (n, given u n)) (row.getD []) := rfl
    change (holds t _ (row.getD []) >>= _).runIn Rehearsal.answer start = _
    rw [Asking.runIn_bind, hholds]
    unfold Rehearsal.holds
    dsimp only [start]
    rw [statement_eq]
    by_cases h : ∀ n ∈ placeholders t, n ∈ declaredNames none t.toList
    · rw [if_pos h, if_pos h]
      change Asking.runThen _ _ (e.reply, _) = _
      cases e.reply with
      | error f => rfl
      | ok b => cases b <;> rfl
    · rw [if_neg h, if_neg h]
      rfl

/-- A name that stands in the text of the statement as a parameter has a value. -/
theorem bound_of_part {t n : String} (h : .name n ∈ Sql.partsFrom none 0 (asCondition t)) :
    n ∈ bound t := by
  have hdeclared := Sql.declared_of_part h
  rw [declaredNames_asCondition] at hdeclared
  unfold bound
  rw [List.mem_append, List.mem_filter, mem_placeholders, Text.mem_distinct]
  by_cases hn : n ∈ Template.names t
  · exact .inl hn
  · exact .inr ⟨hdeclared, by simpa using hn⟩

theorem asked_parameters (t : String) (u : User) (row : Record) :
    (asked t u row).written.parameters =
      ((bound t).filter fun n => (asked t u row).parts.contains (.name n)).map fun n =>
        (n, (bindingOf t u row n).value) := by
  change (((bound t).map (bindingOf t u row)).filter _).map _ = _
  rw [List.filter_map, List.map_map]
  simp only [Function.comp_def, bindingOf_name]

/-- Where the scans agree, they find the same names. -/
theorem declaredNames_of_agrees {t : String} (h : ∀ m ∈ marks t, m.Agrees) :
    declaredNames none t.toList = Template.namesFrom none t.toList := by
  rw [declaredNames_eq, namesFrom_eq]
  exact List.filterMap_congr fun m hm => (Mark.agrees_iff m).mpr (h m hm)

theorem bound_of_agrees {t : String} (h : ∀ m ∈ marks t, m.Agrees) : bound t = placeholders t := by
  unfold bound
  have hnone : (Template.names t).filter (· ∉ Template.names t) = [] := by
    rw [List.filter_eq_nil_iff]
    intro n hn
    simpa using hn
  rw [declaredNames_of_agrees h]
  change placeholders t ++ (Template.names t).filter _ = _
  rw [hnone, List.append_nil]

/-- The parameters that a statement declares and the placeholders of its template are read at the
same marks, and are the same exactly at those that agree. The placeholders are listed once each, in
the order of their first occurrences. A rule with a template fails for the first value that the user
lacks before anything is executed; then it fails if a placeholder is no parameter; and otherwise one
statement is executed, in whose text every parameter has a value: that of the user or of the row, and
null where the template has no such placeholder, which cannot be if all marks agree. -/
theorem template_rules_bound (t : String) :
    (declaredNames none t.toList = (marks t).filterMap Mark.bind? ∧
      Template.namesFrom none t.toList = (marks t).filterMap Mark.placeholder? ∧
      ∀ m : Mark, m.bind? = m.placeholder? ↔ m.Agrees) ∧
    ((Template.contextNames t).Nodup ∧ (Template.rowFields t).Nodup ∧
      InOrderOf (Template.namesFrom none t.toList) (Template.contextNames t) ∧
      InOrderOf (Template.namesFrom none t.toList)
        ((Template.rowFields t).map (Template.rowMark ++ ·)) ∧
      ∀ n, n ∈ placeholders t ↔ n ∈ Template.namesFrom none t.toList) ∧
    ((∀ m ∈ marks t, m.Agrees) →
      (∀ n, n ∈ declaredNames none t.toList ↔ n ∈ placeholders t) ∧ bound t = placeholders t) ∧
    (∀ (u : User) (row : Option Record) (w : Rehearsal) (e : ConditionEngine),
      let start : Rehearsal := { w with engine := some e }
      start.run ((Rule.template t).decide u row) =
        match (Template.contextNames t).findSome? (lack u) with
        | some f => (.error f, start)
        | none =>
          if ∀ n ∈ placeholders t, n ∈ declaredNames none t.toList then
            (e.reply.map decisionOf, { w with
              engine := some (e.execute (asked t u (row.getD [])).written).2 })
          else (.error .badArgument, start)) ∧
    ∀ (u : User) (row : Record),
      (asked t u row).written.parameters =
          ((bound t).filter fun n => (asked t u row).parts.contains (.name n)).map (fun n =>
            (n, (bindingOf t u row n).value)) ∧
        ∀ n, .name n ∈ (asked t u row).parts → n ∈ bound t := by
  have hmem (n : String) : n ∈ placeholders t ↔ n ∈ Template.namesFrom none t.toList :=
    mem_placeholders.trans Text.mem_distinct
  refine ⟨⟨declaredNames_eq _ _, namesFrom_eq _ _, Mark.agrees_iff⟩,
    ⟨nodup_contextNames t, nodup_rowFields t, contextNames_inOrder t, rowFields_inOrder t, hmem⟩,
    fun h => ⟨fun n => ?_, bound_of_agrees h⟩, run_template t,
    fun u row => ⟨asked_parameters t u row, fun n => bound_of_part⟩⟩
  rw [hmem, declaredNames_of_agrees h]

/-- Rows of a user's own, or of one of the user's teams. -/
def ownRows : String := ":row_owner_id = :userId AND :row_team IN :teams AND :userId > 0"

theorem ownRows_bound :
    (∀ m ∈ marks ownRows, m.Agrees) ∧
      Template.contextNames ownRows = ["userId", "teams"] ∧
      Template.rowFields ownRows = ["owner_id", "team"] ∧
      ∀ n, n ∈ declaredNames none ownRows.toList ↔ n ∈ placeholders ownRows := by
  have hall : (marks ownRows).all (fun m => m.bind? == m.placeholder?) = true := by decide
  have hagrees : ∀ m ∈ marks ownRows, m.Agrees := fun m hm =>
    (Mark.agrees_iff m).mp (beq_iff_eq.mp (List.all_eq_true.mp hall m hm))
  exact ⟨hagrees, by decide, by decide,
    ((template_rules_bound ownRows).2.2.1 hagrees).1⟩

/-- A letter beyond the first 128 characters ends a placeholder, but not a parameter; a digit starts
a parameter, but no placeholder; and a name before two colons is a placeholder, but no parameter, so
that a rule with it fails for any user who has its value. -/
theorem marks_read_differently :
    declaredNames none ":größe = :1".toList = ["größe", "1"] ∧
      Template.contextNames ":größe = :1" = ["gr"] ∧
      declaredNames none "n = :a::int".toList = [] ∧ Template.contextNames "n = :a::int" = ["a"] ∧
      ((Rehearsal.start ⟨[]⟩ (some [.holds])).run
        ((Rule.template "n = :a::int").decide ⟨.null, [], [], .null, none, [("a", .text "1")]⟩
          none)).1 = .error .badArgument := by
  refine ⟨by decide, by decide, by decide, by decide, ?_⟩
  rfl

end RowGate.Access
