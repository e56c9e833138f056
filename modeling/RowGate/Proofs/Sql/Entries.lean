import RowGate.Sql.Writer
import RowGate.Proofs.Sequence
/-!
The list of table expressions in front of a statement. Main statement: a statement that is written
lists its table expressions of all depths, each behind those that it declares itself, and no two of
them have the same name.
-/
namespace RowGate.Sql

/-- A table expression in the list. -/
structure Entry where
  table : CommonTable
  /-- The recursive table expressions in whose recursive part it is declared. -/
  within : List Source

mutual

/-- The table expressions of a statement at all depths, in the order of the list. -/
def Select.entries (within : List Source) : Select → List Entry
  | .mk tables _ => entriesOf within tables

/-- A table expression in the list, behind those that it declares. -/
def CommonTable.entries (within : List Source) : CommonTable → List Entry
  | .plain id name query => query.entries within ++ [⟨.plain id name query, within⟩]
  | .recursive id name initial recursive keepRepeats =>
    initial.entries within ++ recursive.entries (.common id name :: within) ++
      [⟨.recursive id name initial recursive keepRepeats, within⟩]

/-- Table expressions in the list. -/
def entriesOf (within : List Source) : List CommonTable → List Entry
  | [] => []
  | t :: ts => t.entries within ++ entriesOf within ts

end

/-- The numbers of listed table expressions. -/
def numbers (es : List Entry) : List Nat := es.map fun e => e.table.id

/-- The names of listed table expressions. -/
def names (es : List Entry) : List String := es.map fun e => e.table.name

theorem numbers_append (es fs : List Entry) : numbers (es ++ fs) = numbers es ++ numbers fs :=
  List.map_append

/-- Whether a table expression is recursive. -/
def CommonTable.isRecursive : CommonTable → Bool
  | .plain .. => false
  | .recursive .. => true

/-- The name behind FROM for a source, with a schema if there is one. -/
def Source.path : Source → Option String × String
  | .table schema n => (schema, n)
  | .common _ n => (none, n)

/-- A source as it stands behind FROM. -/
def Source.text (s : Source) : String := Writing.table s.path.1 s.path.2

/-- A text that selects from a source. -/
inductive SelectText (s : Source) : String → Prop
  | mk (columns rest : String) :
      SelectText s ("SELECT " ++ columns ++ " \nFROM " ++ s.text ++ rest)

/-- A text that gives a table expression its name. -/
inductive EntryText : CommonTable → String → Prop
  | plain {id table query text} : SelectText query.body.source text →
      EntryText (.plain id table query) (name table ++ " AS \n(" ++ text ++ ")")
  | recursive {id table initial recursive keepRepeats first next} (columns : String) :
      SelectText initial.body.source first → SelectText recursive.body.source next →
      EntryText (.recursive id table initial recursive keepRepeats)
        (name table ++ columns ++ " AS \n(" ++
          (Writing.grouped initial.needsParentheses first ++
            (if keepRepeats then " UNION ALL " else " UNION ") ++
            Writing.grouped recursive.needsParentheses next) ++ ")")

/-- The list of table expressions as text. -/
def listText (isRecursive : Bool) (texts : List String) : String :=
  if texts.isEmpty then ""
  else (if isRecursive then "WITH RECURSIVE " else "WITH ") ++
    String.intercalate ", \n" texts ++ "\n "

/-- A text that lists the table expressions of a statement and then selects from its source. -/
inductive StatementText (s : Select) : String → Prop
  | mk {texts text} : List.Forall₂ (fun e => EntryText e.table) (s.entries []) texts →
      SelectText s.body.source text →
      StatementText s
        (listText ((s.entries []).any fun e => e.table.isRecursive) texts ++ text)

/-- Progress in which the same table expressions have been met and listed. -/
structure Progress.SameList (p p' : Progress) : Prop where
  known : p'.known = p.known
  entries : p'.entries = p.entries
  hasRecursion : p'.hasRecursion = p.hasRecursion

theorem Progress.SameList.refl (p : Progress) : p.SameList p := ⟨rfl, rfl, rfl⟩

theorem Progress.SameList.trans {p p' p'' : Progress} (h : p.SameList p') (h' : p'.SameList p'') :
    p.SameList p'' :=
  ⟨h'.known.trans h.known, h'.entries.trans h.entries, h'.hasRecursion.trans h.hasRecursion⟩

namespace Writing

variable {α β : Type} {p p' : Progress}

/-- Writing that leaves the list of table expressions alone. -/
def Aside (x : Writing α) : Prop := ∀ p a p', x.run p = .ok (a, p') → p.SameList p'

theorem aside_pure (a : α) : Aside (pure a) := by
  intro p b p' h
  cases h
  exact .refl p

theorem aside_throw (f : Fault) : Aside (throw f : Writing α) := by
  intro p b p' h
  cases h

theorem aside_bind {x : Writing α} {f : α → Writing β} (hx : Aside x) (hf : ∀ a, Aside (f a)) :
    Aside (x >>= f) := by
  intro p b p' h
  obtain ⟨a, q, hfirst, hrest⟩ := run_sequence_eq_ok.mp h
  exact (hx p a q hfirst).trans (hf a q b p' hrest)

theorem aside_mapM {f : α → Writing β} (hf : ∀ a, Aside (f a)) (as : List α) :
    Aside (as.mapM f) := by
  induction as with
  | nil => exact aside_pure []
  | cons a as ih =>
    rw [List.mapM_cons]
    apply aside_bind (hf a)
    intro b
    exact aside_bind ih fun bs => aside_pure (b :: bs)

theorem aside_get : Aside (get : Writing Progress) := by
  intro p q p' h
  cases h
  exact .refl p

theorem aside_numbered (base : String) : Aside (numbered base) := by
  intro p a p' h
  cases h
  exact ⟨rfl, rfl, rfl⟩

theorem aside_parameterName (column : String) : Aside (parameterName column) := by
  apply aside_bind (aside_numbered _)
  intro name
  split
  · exact aside_pure name
  · apply aside_bind aside_get
    intro q p a p' h
    cases h
    exact ⟨rfl, rfl, rfl⟩

theorem aside_take (name : String) (v : Value) : Aside (take name v) := by
  intro p a p' h
  unfold take at h
  obtain ⟨q, _, hget, h⟩ := run_sequence_eq_ok.mp h
  cases hget
  split at h
  · cases h
  · cases h
    exact ⟨rfl, rfl, rfl⟩

theorem aside_orRefuse (s : Option String) : Aside (orRefuse s) := by
  cases s with
  | none => exact aside_throw _
  | some s => exact aside_pure s

theorem aside_value (form : Form) (base : String) (v : Value) : Aside (value form base v) := by
  cases form with
  | inline => exact aside_orRefuse _
  | bound =>
    apply aside_bind (aside_parameterName base)
    intro name
    exact aside_bind (aside_take name v) fun _ => aside_pure _

theorem aside_lift (y : Except Fault α) : Aside (liftM y : Writing α) := by
  intro p a p' h
  cases y with
  | error f => cases h
  | ok b =>
    cases h
    exact .refl p

theorem aside_values (form : Form) (base : String) (negated : Bool) (vs : List Value) :
    Aside (values form base negated vs) := by
  cases form with
  | inline =>
    unfold values
    dsimp only
    split
    · exact aside_pure _
    · exact aside_lift _
  | bound =>
    apply aside_bind (aside_parameterName base)
    intro name
    exact aside_bind (aside_take name _) fun _ => aside_pure _

theorem aside_rawValue (form : Form) (b : RawBinding) : Aside (rawValue form b) := by
  unfold rawValue
  split
  · exact aside_bind (aside_take _ _) fun _ => aside_pure _
  · exact aside_orRefuse _
  · dsimp only
    split
    · exact aside_pure _
    · exact aside_bind (aside_lift _) fun _ => aside_pure _

theorem aside_raw (form : Form) (r : RawText) : Aside (raw form r) := by
  apply aside_bind
  · apply aside_mapM
    intro part
    cases part with
    | char c => exact aside_pure _
    | name n =>
      dsimp only
      split
      · exact aside_bind (aside_rawValue form _) fun _ => aside_pure _
      · exact aside_pure _
  · exact fun _ => aside_pure _

theorem aside_test (form : Form) (t : Test) : Aside (test form t) := by
  cases t with
  | isNull | isTruth => exact aside_pure _
  | compare | like | likeAnyCase => exact aside_bind (aside_value form _ _) fun _ => aside_pure _
  | between c low high =>
    apply aside_bind (aside_value form _ low)
    intro text
    exact aside_bind (aside_value form _ high) fun _ => aside_pure _
  | isIn c negated vs =>
    cases negated <;> exact aside_bind (aside_values form _ _ vs) fun _ => aside_pure _
  | raw r => exact aside_raw form r

theorem aside_piece (form : Form) (q : Piece Test) : Aside (piece form q) := by
  cases q with
  | one t => exact aside_test form t
  | join c => cases c <;> exact aside_pure _
  | open_ | close => exact aside_pure _

theorem aside_criterion (form : Form) (c : Criterion) : Aside (criterion form c) :=
  aside_bind (aside_mapM (aside_piece form) _) fun _ => aside_pure _

theorem aside_condition (form : Form) (opening : String) (cs : List Criterion) :
    Aside (condition form opening cs) := by
  unfold condition
  split
  · exact aside_bind (aside_criterion form _) fun _ => aside_pure _
  · exact aside_pure _

theorem aside_count (form : Form) (opening : String) (n : Option Int) :
    Aside (count form opening n) := by
  cases n with
  | none => exact aside_pure _
  | some n => exact aside_bind (aside_value form _ _) fun _ => aside_pure _

theorem aside_frameEnd (form : Form) (unbounded : String) (n : Option Int) :
    Aside (frameEnd form unbounded n) := by
  cases n with
  | none => exact aside_pure _
  | some n =>
    unfold frameEnd
    dsimp only
    split
    · exact aside_pure _
    · exact aside_bind (aside_value form _ _) fun _ => aside_pure _

theorem aside_frame (form : Form) (f : FrameEnds) : Aside (frame form f) := by
  apply aside_bind (aside_frameEnd form _ _)
  intro start
  exact aside_bind (aside_frameEnd form _ _) fun _ => aside_pure _

theorem aside_windowColumn (form : Form) (w : Over) : Aside (windowColumn form w) := by
  unfold windowColumn
  dsimp only
  cases w.criterion with
  | none =>
    apply aside_bind (aside_pure "")
    intro filter
    cases w.frame with
    | none => exact aside_bind (aside_pure []) fun _ => aside_pure _
    | some f =>
      apply aside_bind (aside_frame form f)
      intro frame
      exact aside_bind (aside_pure [frame]) fun _ => aside_pure _
  | some c =>
    apply aside_bind (aside_criterion form c)
    intro condition
    apply aside_bind (aside_pure _)
    intro filter
    cases w.frame with
    | none => exact aside_bind (aside_pure []) fun _ => aside_pure _
    | some f =>
      apply aside_bind (aside_frame form f)
      intro frame
      exact aside_bind (aside_pure [frame]) fun _ => aside_pure _

theorem aside_projection (form : Form) (q : Projection) : Aside (projection form q) := by
  cases q with
  | column | aggregate | window => exact aside_pure _
  | framed w label => exact aside_bind (aside_windowColumn form w) fun _ => aside_pure _

theorem aside_labelNames (given labels : List String) : Aside (labelNames given labels) := by
  induction labels generalizing given with
  | nil => exact aside_pure []
  | cons l labels ih =>
    have hrest (n : String) : Aside (do return n :: (← labelNames (l :: given) labels)) :=
      aside_bind (ih (l :: given)) fun _ => aside_pure _
    unfold labelNames
    dsimp only
    split
    · exact aside_bind (aside_numbered _) hrest
    · exact aside_bind (aside_pure l) hrest

theorem aside_columnList (b : Body) : Aside (columnList b) :=
  aside_bind (aside_labelNames _ _) fun _ => aside_pure _

theorem source_ok {s : Source} {text : String} (h : (source s).run p = .ok (text, p')) :
    text = s.text ∧ p' = p := by
  cases s with
  | table schema n =>
    cases h
    exact ⟨rfl, rfl⟩
  | common id n =>
    unfold source at h
    obtain ⟨q, _, hget, h⟩ := run_sequence_eq_ok.mp h
    cases hget
    split at h
    · split at h
      · cases h
        exact ⟨rfl, rfl⟩
      · cases h
    · cases h
      exact ⟨rfl, rfl⟩

/-- The clauses of a statement select from its source. -/
theorem body_ok {form : Form} {b : Body} {text : String}
    (h : (body form b).run p = .ok (text, p')) : SelectText b.source text ∧ p.SameList p' := by
  unfold body at h
  obtain ⟨columns, p₁, hcolumns, h⟩ := run_sequence_eq_ok.mp h
  obtain ⟨from_, p₂, hsource, h⟩ := run_sequence_eq_ok.mp h
  obtain ⟨criteria, p₃, hcriteria, h⟩ := run_sequence_eq_ok.mp h
  obtain ⟨having, p₄, hhaving, h⟩ := run_sequence_eq_ok.mp h
  obtain ⟨limit, p₅, hlimit, h⟩ := run_sequence_eq_ok.mp h
  obtain ⟨offset, p₆, hoffset, h⟩ := run_sequence_eq_ok.mp h
  cases h
  have hstart := aside_mapM (aside_projection form) _ _ _ _ hcolumns
  obtain ⟨rfl, rfl⟩ := source_ok hsource
  have hmiddle := (aside_condition form _ _ _ _ _ hcriteria).trans
    (aside_condition form _ _ _ _ _ hhaving)
  have hend := (aside_count form _ _ _ _ _ hlimit).trans (aside_count form _ _ _ _ _ hoffset)
  constructor
  · have htext := SelectText.mk (s := b.source) (commas columns)
      (criteria ++ (clause " GROUP BY " (b.groupBy.map column) ++ (having ++
        (clause " ORDER BY " (b.orderBy.map sort) ++ (limit ++
          ((if b.limit.isNone && b.offset.isSome then "\n LIMIT -1" else "") ++ offset))))))
    simpa only [String.append_assoc] using htext
  · exact hstart.trans (hmiddle.trans hend)

theorem aside_matching (initial recursive : Body) : Aside (matching initial recursive) := by
  unfold matching
  split
  · exact aside_pure _
  · exact aside_throw _

/-- A table expression whose number has not been met is noted, unless its name is taken. -/
theorem meet_ok {id : Nat} {table : String} {isNew : Bool}
    (h : (meet id table).run p = .ok (isNew, p')) (hid : id ∉ p.known.map Prod.snd) :
    isNew = true ∧ table ∉ p.known.map Prod.fst ∧
      p' = { p with known := (table, id) :: p.known } := by
  unfold meet at h
  obtain ⟨q, _, hget, h⟩ := run_sequence_eq_ok.mp h
  cases hget
  cases hlook : p.known.lookup table with
  | some other =>
    rw [hlook] at h
    obtain ⟨before, after, hknown, -⟩ := List.lookup_eq_some_iff.mp hlook
    have hother : other ∈ p.known.map Prod.snd := by simp [hknown]
    have hne : other ≠ id := fun heq => hid (heq ▸ hother)
    simp only [hne, if_false] at h
    cases h
  | none =>
    rw [hlook] at h
    cases h
    have htable : table ∉ p.known.map Prod.fst := by
      intro hmem
      obtain ⟨entry, hentry, rfl⟩ := List.mem_map.mp hmem
      have hkeys := List.lookup_eq_none_iff.mp hlook entry hentry
      simp at hkeys
    exact ⟨rfl, htable, rfl⟩

end Writing

/-- Progress between which table expressions are met and listed. -/
structure Progress.Lists (es : List Entry) (p p' : Progress) : Prop where
  known : p'.known.Perm (es.map (fun e => (e.table.name, e.table.id)) ++ p.known)
  entries : ∃ texts, List.Forall₂ (fun e => EntryText e.table) es texts ∧
    p'.entries = p.entries ++ texts
  hasRecursion : p'.hasRecursion = (p.hasRecursion || es.any fun e => e.table.isRecursive)
  distinct : (p.known.map Prod.fst).Nodup → (p'.known.map Prod.fst).Nodup

namespace Progress

variable {es fs : List Entry} {p p' p'' : Progress}

/-- The numbers of table expressions that are new together with those that have been met. -/
def numbersWith (es : List Entry) (p : Progress) : List Nat := numbers es ++ p.known.map Prod.snd

theorem Lists.nil (p : Progress) : p.Lists [] p := by
  constructor
  · exact .refl _
  · exact ⟨[], .nil, (List.append_nil _).symm⟩
  · exact (Bool.or_false _).symm
  · exact id

theorem Lists.trans_same (h : p.Lists es p') (h' : p'.SameList p'') : p.Lists es p'' := by
  constructor
  · rw [h'.known]
    exact h.known
  · rw [h'.entries]
    exact h.entries
  · rw [h'.hasRecursion]
    exact h.hasRecursion
  · rw [h'.known]
    exact h.distinct

theorem Lists.same_trans (h : p.SameList p') (h' : p'.Lists es p'') : p.Lists es p'' := by
  constructor
  · rw [← h.known]
    exact h'.known
  · rw [← h.entries]
    exact h'.entries
  · rw [← h.hasRecursion]
    exact h'.hasRecursion
  · rw [← h.known]
    exact h'.distinct

theorem Lists.trans (h : p.Lists es p') (h' : p'.Lists fs p'') : p.Lists (es ++ fs) p'' := by
  obtain ⟨texts, htexts, hentries⟩ := h.entries
  obtain ⟨texts', htexts', hentries'⟩ := h'.entries
  constructor
  · rw [List.map_append]
    have hboth := h'.known.trans (h.known.append_left _)
    rw [← List.append_assoc] at hboth
    exact hboth.trans (List.perm_append_comm.append_right _)
  · refine ⟨texts ++ texts', List.rel_append htexts htexts', ?_⟩
    rw [hentries', hentries, List.append_assoc]
  · rw [h'.hasRecursion, h.hasRecursion, List.any_append, Bool.or_assoc]
  · exact fun hp => h'.distinct (h.distinct hp)

/-- Table expressions that have been listed are met from then on. -/
theorem Lists.numbers (h : p.Lists es p') (fs : List Entry) :
    (numbersWith fs p').Perm (numbersWith (es ++ fs) p) := by
  have hknown := h.known.map Prod.snd
  rw [List.map_append, List.map_map] at hknown
  unfold numbersWith
  rw [numbers_append, List.append_assoc]
  exact (hknown.append_left _).trans (List.perm_append_comm_assoc _ _ _)

/-- Progress in which a table expression has been met. -/
def meeting (p : Progress) (t : CommonTable) : Progress :=
  { p with known := (t.name, t.id) :: p.known, hasRecursion := t.isRecursive || p.hasRecursion }

/-- Progress in which one more text has been listed. -/
def listing (p : Progress) (text : String) : Progress := { p with entries := p.entries ++ [text] }

theorem numbersWith_meeting (es : List Entry) (e : Entry) (p : Progress) :
    numbersWith es (p.meeting e.table) = numbersWith (es ++ [e]) p := by
  simp [numbersWith, meeting, Sql.numbers]

theorem not_met {es : List Entry} {e : Entry} (h : (numbersWith (es ++ [e]) p).Nodup) :
    e.table.id ∉ p.known.map Prod.snd := by
  rw [← numbersWith_meeting] at h
  have hmet : (e.table.id :: p.known.map Prod.snd).Nodup := (List.nodup_append.mp h).2.1
  exact (List.nodup_cons.mp hmet).1

theorem nodup_left {es fs : List Entry} (h : (numbersWith (es ++ fs) p).Nodup) :
    (numbersWith es p).Nodup := by
  unfold numbersWith at h ⊢
  rw [numbers_append, List.append_assoc] at h
  have hright := List.sublist_append_right (numbers fs) (p.known.map Prod.snd)
  exact h.sublist (hright.append_left _)

/-- A table expression is met before those that it declares, and listed behind them. -/
theorem Lists.listing {e : Entry} {text : String} (h : (p.meeting e.table).Lists es p')
    (hname : e.table.name ∉ p.known.map Prod.fst) (htext : EntryText e.table text) :
    p.Lists (es ++ [e]) (p'.listing text) := by
  obtain ⟨texts, htexts, hentries⟩ := h.entries
  constructor
  · change p'.known.Perm _
    simpa [meeting] using h.known
  · refine ⟨texts ++ [text], List.rel_append htexts (.cons htext .nil), ?_⟩
    change p'.entries ++ [text] = _
    rw [hentries, List.append_assoc]
    rfl
  · change p'.hasRecursion = _
    rw [h.hasRecursion]
    simp [meeting, Bool.or_comm, Bool.or_assoc]
  · intro hp
    exact h.distinct (List.nodup_cons.mpr ⟨hname, hp⟩)

end Progress

open Progress

mutual

/-- A statement lists the table expressions that it declares, at all depths. -/
theorem write_lists (form : Form) : (s : Select) → ∀ within p text p',
    (numbersWith (s.entries within) p).Nodup → (s.write form).run p = .ok (text, p') →
    SelectText s.body.source text ∧ p.Lists (s.entries within) p'
  | .mk tables body => by
    intro within p text p' hnew h
    simp only [Select.write] at h
    obtain ⟨_, q, htables, hbody⟩ := run_sequence_eq_ok.mp h
    obtain ⟨htext, hsame⟩ := Writing.body_ok hbody
    exact ⟨htext, (writeTables_lists form tables within p q hnew htables).trans_same hsame⟩

theorem writeTables_lists (form : Form) : (ts : List CommonTable) → ∀ within p p',
    (numbersWith (entriesOf within ts) p).Nodup → (writeTables form ts).run p = .ok ((), p') →
    p.Lists (entriesOf within ts) p'
  | [] => by
    intro within p p' hnew h
    simp only [writeTables] at h
    cases h
    exact .nil p
  | t :: ts => by
    intro within p p' hnew h
    simp only [writeTables] at h
    obtain ⟨_, q, hfirst, hrest⟩ := run_sequence_eq_ok.mp h
    simp only [entriesOf] at hnew ⊢
    have hlists := commonTable_lists form t within p q (nodup_left hnew) hfirst
    exact hlists.trans (writeTables_lists form ts within q p'
      ((hlists.numbers _).nodup_iff.mpr hnew) hrest)

theorem commonTable_lists (form : Form) : (t : CommonTable) → ∀ within p p',
    (numbersWith (t.entries within) p).Nodup → (t.write form).run p = .ok ((), p') →
    p.Lists (t.entries within) p'
  | .plain id table query => by
    intro within p p' hnew h
    simp only [CommonTable.write] at h
    simp only [CommonTable.entries] at hnew ⊢
    obtain ⟨isNew, q, hmeet, h⟩ := run_sequence_eq_ok.mp h
    obtain ⟨rfl, hname, rfl⟩ := Writing.meet_ok hmeet (not_met hnew)
    simp only [if_true] at h
    obtain ⟨text, q, hquery, h⟩ := run_sequence_eq_ok.mp h
    cases h
    rw [← numbersWith_meeting] at hnew
    obtain ⟨htext, hlists⟩ := write_lists form query within _ text q hnew hquery
    exact hlists.listing hname (.plain htext)
  | .recursive id table initial recursive keepRepeats => by
    intro within p p' hnew h
    simp only [CommonTable.write] at h
    simp only [CommonTable.entries] at hnew ⊢
    obtain ⟨isNew, q, hmeet, h⟩ := run_sequence_eq_ok.mp h
    obtain ⟨rfl, hname, rfl⟩ := Writing.meet_ok hmeet (not_met hnew)
    simp only [if_true] at h
    obtain ⟨_, q, hrecursion, h⟩ := run_sequence_eq_ok.mp h
    cases hrecursion
    obtain ⟨columns, q₁, hcolumns, h⟩ := run_sequence_eq_ok.mp h
    obtain ⟨first, q₂, hfirst, h⟩ := run_sequence_eq_ok.mp h
    obtain ⟨_, q₃, hmatching, h⟩ := run_sequence_eq_ok.mp h
    obtain ⟨next, q₄, hnext, h⟩ := run_sequence_eq_ok.mp h
    cases h
    rw [← numbersWith_meeting] at hnew
    have hsame := Writing.aside_columnList _ _ _ _ hcolumns
    have hsame' := Writing.aside_matching _ _ _ _ _ hmatching
    have hnewFirst : (numbersWith
        (initial.entries within ++ recursive.entries (.common id table :: within)) q₁).Nodup := by
      unfold numbersWith
      rw [hsame.known]
      exact hnew
    obtain ⟨hfirstText, hfirstLists⟩ :=
      write_lists form initial within q₁ first q₂ (nodup_left hnewFirst) hfirst
    have hlists := hfirstLists.trans_same hsame'
    obtain ⟨hnextText, hnextLists⟩ := write_lists form recursive (.common id table :: within) q₃
      next q₄ ((hlists.numbers _).nodup_iff.mpr hnewFirst) hnext
    have hboth := Lists.same_trans hsame (hlists.trans hnextLists)
    exact hboth.listing hname (.recursive columns hfirstText hnextText)

end

/-- The names in the list of a written statement differ from each other, and the text is that of the
list and of the statement behind it. -/
theorem written_lists {form : Form} {s : Select} {w : Written}
    (hnew : (numbers (s.entries [])).Nodup) (h : s.written form = .ok w) :
    (names (s.entries [])).Nodup ∧ StatementText s w.sql := by
  unfold Select.written at h
  obtain ⟨⟨text, p⟩, hwrite, hdone⟩ := sequence_eq_ok.mp h
  cases hdone
  have hstart : (numbersWith (s.entries []) Progress.start).Nodup := by
    simpa [numbersWith, Progress.start] using hnew
  obtain ⟨htext, hlists⟩ := write_lists form s [] _ text p hstart hwrite
  obtain ⟨texts, htexts, hentries⟩ := hlists.entries
  constructor
  · have hnames := hlists.known.map Prod.fst
    simp only [Progress.start, List.append_nil, List.map_map] at hnames
    exact hnames.nodup_iff.mp (hlists.distinct .nil)
  · have hlist : p.entries = texts := hentries
    have hrecursion : p.hasRecursion = (s.entries []).any fun e => e.table.isRecursive :=
      hlists.hasRecursion.trans (Bool.false_or _)
    dsimp only
    rw [hlist, hrecursion]
    exact .mk htexts htext

end RowGate.Sql
