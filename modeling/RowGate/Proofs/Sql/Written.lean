import RowGate.Sql.Writer
import RowGate.Proofs.Sql.Values
/-!
Statements that differ in values only, as text. Main statement: their texts are the same, and so are
the names of their parameters; each parameter holds a value of its own statement.
-/
namespace RowGate.Sql

variable {V : Value → Value → Prop}

/-- Values that parameters hold: values that stand for each other, or a count, which is the same. -/
inductive Held (V : Value → Value → Prop) : Value → Value → Prop
  | slot {v w} : V v w → Held V v w
  | count (n : Int) : Held V (.int n) (.int n)

/-- Parameters of the same names that hold values which stand for each other. -/
def ParametersAlike (V : Value → Value → Prop) : Record → Record → Prop :=
  List.Forall₂ fun x y => x.1 = y.1 ∧ Held V x.2 y.2

/-- Progress that differs in the values of parameters only. -/
inductive Progress.Alike (V : Value → Value → Prop) : Progress → Progress → Prop
  | mk (p : Progress) {parameters} : ParametersAlike V p.parameters parameters →
      Alike V p { p with parameters := parameters }

/-- Both writings go on alike. -/
abbrev Writes {α β : Type} (V : Value → Value → Prop) (R : α → β → Prop) (x : Writing α)
    (y : Writing β) : Prop :=
  RunsAlike (Progress.Alike V) R x y

/-- Both writings answer the same. -/
abbrev WritesSame {α : Type} (V : Value → Value → Prop) (x y : Writing α) : Prop := Writes V Eq x y

namespace WritesSame

variable {α β : Type}

theorem bind {γ : Type} {T : β → γ → Prop} {x y : Writing α} {f : α → Writing β}
    {g : α → Writing γ} (hxy : WritesSame V x y) (hfg : ∀ a, Writes V T (f a) (g a)) :
    Writes V T (x >>= f) (y >>= g) :=
  RunsAlike.bind hxy fun a _ hab => hab ▸ hfg a

theorem mapM {γ : Type} {R : α → γ → Prop} {f : α → Writing β} {g : γ → Writing β}
    (hfg : ∀ a b, R a b → WritesSame V (f a) (g b)) {as : List α} {bs : List γ}
    (h : List.Forall₂ R as bs) : WritesSame V (as.mapM f) (bs.mapM g) :=
  (RunsAlike.mapM hfg h).mono fun _ _ hcs => List.forall₂_eq_eq_eq ▸ hcs

end WritesSame

theorem ParametersAlike.keys {r s : Record} (h : ParametersAlike V r s) : r.keys = s.keys := by
  induction h with
  | nil => rfl
  | cons hxy _ ih =>
    obtain ⟨hname, -⟩ := hxy
    simp only [Record.keys, List.map_cons, hname] at ih ⊢
    rw [ih]

section Parameters

open Writing

theorem numbered_alike (base : String) : WritesSame V (numbered base) (numbered base) := by
  unfold numbered
  refine RunsAlike.get.bind fun p p' hp => ?_
  cases hp with
  | mk hparameters => exact (RunsAlike.set (.mk _ hparameters)).bind fun _ _ _ => .pure rfl

theorem parameterName_alike (column : String) :
    WritesSame V (parameterName column) (parameterName column) := by
  unfold parameterName
  refine (numbered_alike _).bind fun name => ?_
  split
  · exact .pure rfl
  · refine RunsAlike.get.bind fun p p' hp => ?_
    cases hp with
    | mk hparameters =>
      refine (RunsAlike.modify fun q q' hq => ?_).bind fun _ _ _ => .pure rfl
      cases hq with
      | mk hparameters => exact .mk _ hparameters

/-- The name of a parameter does not depend on the value that it holds. -/
theorem take_alike (name : String) {v w : Value} (h : Held V v w) :
    WritesSame V (take name v) (take name w) := by
  unfold take
  refine RunsAlike.get.bind fun p p' hp => ?_
  cases hp with
  | @mk parameters hparameters =>
    have hkeys := hparameters.keys
    dsimp only
    split
    · exact .throw _
    · rw [hkeys]
      have htaken : ParametersAlike V
          (p.parameters ++ [(freeName (Record.keys parameters) (bindName name), v)])
          (parameters ++ [(freeName (Record.keys parameters) (bindName name), w)]) :=
        List.rel_append hparameters (.cons ⟨rfl, h⟩ .nil)
      exact (RunsAlike.set (.mk _ htaken)).bind fun _ _ _ => .pure rfl

theorem value_alike (base : String) {v w : Value} (h : Held V v w) :
    WritesSame V (value .bound base v) (value .bound base w) := by
  refine (parameterName_alike base).bind fun name => ?_
  exact (take_alike name h).bind fun name => .pure rfl

theorem values_alike (base : String) (negated : Bool) {vs ws : List Value}
    (h : V (.list vs) (.list ws)) :
    WritesSame V (values .bound base negated vs) (values .bound base negated ws) := by
  refine (parameterName_alike base).bind fun name => ?_
  exact (take_alike name (.slot h)).bind fun name => .pure rfl

theorem rawValue_alike {b c : RawBinding} (h : RawBinding.Alike V b c) :
    WritesSame V (rawValue .bound b) (rawValue .bound c) := by
  obtain ⟨name, v, many⟩ := b
  obtain ⟨name', w, many'⟩ := c
  obtain ⟨rfl, rfl, hvw⟩ := h
  exact (take_alike name (.slot hvw)).bind fun name => .pure rfl

theorem binding?_alike (text : List Char) {bs cs : List RawBinding}
    (h : List.Forall₂ (RawBinding.Alike V) bs cs) (name : String) :
    Option.Rel (RawBinding.Alike V) ((⟨text, bs⟩ : RawText).binding? name)
      ((⟨text, cs⟩ : RawText).binding? name) := by
  unfold RawText.binding?
  induction h with
  | nil => exact .none
  | @cons b c _ _ hbc _ ih =>
    simp only [List.find?_cons, hbc.name]
    split
    · exact .some hbc
    · exact ih

/-- Raw text is written with the same parameters. -/
theorem raw_alike {r s : RawText} (h : RawText.Alike V r s) :
    WritesSame V (raw .bound r) (raw .bound s) := by
  cases h with
  | @mk text bs cs hbindings =>
    refine WritesSame.bind (.mapM (R := Eq) ?_ (List.forall₂_same.mpr fun _ _ => rfl)) fun parts =>
      .pure rfl
    rintro part _ rfl
    cases part with
    | char c => exact .pure rfl
    | name n =>
      have hfound := binding?_alike text hbindings n
      dsimp only
      generalize RawText.binding? ⟨text, bs⟩ n = b at hfound
      generalize RawText.binding? ⟨text, cs⟩ n = c at hfound
      cases hfound with
      | none => exact .pure rfl
      | some hbc => exact (rawValue_alike hbc).bind fun _ => .pure rfl

theorem test_alike {t u : Test} (h : Test.Alike V t u) :
    WritesSame V (test .bound t) (test .bound u) := by
  cases h with
  | isNull c negated => exact .pure rfl
  | isTruth c equal b => exact .pure rfl
  | compare c op hvw => exact (value_alike _ (.slot hvw)).bind fun _ => .pure rfl
  | like c negated hvw => exact (value_alike _ (.slot hvw)).bind fun _ => .pure rfl
  | likeAnyCase c hvw => exact (value_alike _ (.slot hvw)).bind fun _ => .pure rfl
  | between c hlow hhigh =>
    refine (value_alike _ (.slot hlow)).bind fun _ => ?_
    exact (value_alike _ (.slot hhigh)).bind fun _ => .pure rfl
  | isIn c negated hvs =>
    cases negated with
    | false => exact (values_alike _ _ hvs).bind fun _ => .pure rfl
    | true => exact (values_alike _ _ hvs).bind fun _ => .pure rfl
  | raw hrs => exact raw_alike hrs

end Parameters

section Conditions

open Writing

/-- Pieces of the same kind with related predicates. -/
inductive Piece.Alike {α β : Type} (R : α → β → Prop) : Piece α → Piece β → Prop
  | one {a b} : R a b → Alike R (.one a) (.one b)
  | join (c : Connective) : Alike R (.join c) (.join c)
  | open_ : Alike R .open_ .open_
  | close : Alike R .close .close

variable {α β : Type} {R : α → β → Prop}

mutual

/-- Conditions joined in the same way have the same pieces around their predicates. -/
theorem pieces_alike {j : Joined α} {k : Joined β} (h : Joined.Alike R j k) :
    List.Forall₂ (Piece.Alike R) j.pieces k.pieces := by
  match h with
  | .one hab => exact .cons (.one hab) .nil
  | .all hjs => exact conjunctPieces_alike true hjs
  | .any hjs => exact disjunctPieces_alike true hjs

theorem conjunctPieces_alike (first : Bool) {js : List (Joined α)} {ks : List (Joined β)}
    (h : JoinedAlike R js ks) :
    List.Forall₂ (Piece.Alike R) (conjunctPieces first js) (conjunctPieces first ks) := by
  match h with
  | .nil => exact .nil
  | .cons (j := j) (k := k) hjk hjs =>
    have hloose : j.isLoose = k.isLoose := by cases hjk <;> rfl
    have hpieces := pieces_alike hjk
    simp only [conjunctPieces, hloose]
    refine List.rel_append (List.rel_append ?_ ?_) (conjunctPieces_alike false hjs)
    · cases first
      · exact .cons (.join .and) .nil
      · exact .nil
    · split
      · exact List.rel_append (List.rel_append (.cons .open_ .nil) hpieces) (.cons .close .nil)
      · exact hpieces

theorem disjunctPieces_alike (first : Bool) {js : List (Joined α)} {ks : List (Joined β)}
    (h : JoinedAlike R js ks) :
    List.Forall₂ (Piece.Alike R) (disjunctPieces first js) (disjunctPieces first ks) := by
  match h with
  | .nil => exact .nil
  | .cons hjk hjs =>
    simp only [disjunctPieces]
    refine List.rel_append (List.rel_append ?_ (pieces_alike hjk)) (disjunctPieces_alike false hjs)
    cases first
    · exact .cons (.join .or) .nil
    · exact .nil

end

theorem piece_alike {p q : Piece Test} (h : Piece.Alike (Test.Alike V) p q) :
    WritesSame V (piece .bound p) (piece .bound q) := by
  cases h with
  | one ht => exact test_alike ht
  | join c => cases c <;> exact .pure rfl
  | open_ => exact .pure rfl
  | close => exact .pure rfl

theorem criterion_alike {j k : Criterion} (h : Criterion.Alike V j k) :
    WritesSame V (criterion .bound j) (criterion .bound k) :=
  (WritesSame.mapM (fun _ _ hpq => piece_alike hpq) (pieces_alike h)).bind fun _ => .pure rfl

theorem condition_alike (opening : String) {js ks : List Criterion}
    (h : JoinedAlike (Test.Alike V) js ks) :
    WritesSame V (condition .bound opening js) (condition .bound opening ks) := by
  have hconjunction := h.conjunction
  unfold condition
  generalize Joined.conjunction js = j at hconjunction
  generalize Joined.conjunction ks = k at hconjunction
  cases hconjunction with
  | none => exact .pure rfl
  | some hjk => exact (criterion_alike hjk).bind fun _ => .pure rfl

end Conditions

section Statements

open Writing

theorem count_alike (opening : String) (n : Option Int) :
    WritesSame V (count .bound opening n) (count .bound opening n) := by
  cases n with
  | none => exact .pure rfl
  | some n => exact (value_alike _ (.count n)).bind fun _ => .pure rfl

theorem frameEnd_alike (unbounded : String) (n : Option Int) :
    WritesSame V (frameEnd .bound unbounded n) (frameEnd .bound unbounded n) := by
  cases n with
  | none => exact .pure rfl
  | some n =>
    unfold frameEnd
    dsimp only
    split
    · exact .pure rfl
    · exact (value_alike _ (.count _)).bind fun _ => .pure rfl

theorem frame_alike (f : FrameEnds) : WritesSame V (frame .bound f) (frame .bound f) :=
  (frameEnd_alike _ _).bind fun _ => (frameEnd_alike _ _).bind fun _ => .pure rfl

theorem windowColumn_written {w x : Over} (h : Over.Alike V w x) :
    WritesSame V (windowColumn .bound w) (windowColumn .bound x) := by
  cases h with
  | @mk criterion hcriterion =>
    unfold windowColumn
    dsimp only
    generalize w.criterion = j at hcriterion
    cases hcriterion with
    | none =>
      refine WritesSame.bind (.pure rfl) fun filter => ?_
      cases w.frame with
      | none => exact .pure rfl
      | some f => exact (frame_alike f).bind fun _ => .pure rfl
    | some hjk =>
      refine (criterion_alike hjk).bind fun text => WritesSame.bind (.pure rfl) fun filter => ?_
      cases w.frame with
      | none => exact .pure rfl
      | some f => exact (frame_alike f).bind fun _ => .pure rfl

theorem projection_written {p q : Projection} (h : Projection.Alike V p q) :
    WritesSame V (projection .bound p) (projection .bound q) := by
  cases h with
  | column c => exact .pure rfl
  | aggregate f c label => exact .pure rfl
  | window text label => exact .pure rfl
  | framed label hwx => exact (windowColumn_written hwx).bind fun _ => .pure rfl

theorem source_alike (s : Source) : WritesSame V (source s) (source s) := by
  cases s with
  | table schema t => exact .pure rfl
  | common id t =>
    unfold source
    refine RunsAlike.get.bind fun p p' hp => ?_
    cases hp with
    | mk hparameters =>
      dsimp only
      split
      · split
        · exact .pure rfl
        · exact .throw _
      · exact .pure rfl

theorem body_alike {b c : Body} (h : Body.Alike V b c) :
    WritesSame V (body .bound b) (body .bound c) := by
  cases h with
  | mk hprojection hcriteria hhaving =>
    unfold body
    refine (WritesSame.mapM (fun _ _ hpq => projection_written hpq) hprojection).bind fun _ => ?_
    refine (source_alike _).bind fun _ => (condition_alike _ hcriteria).bind fun _ => ?_
    refine (condition_alike _ hhaving).bind fun _ => (count_alike _ _).bind fun _ => ?_
    exact (count_alike _ _).bind fun _ => .pure rfl

theorem labelNames_alike (given labels : List String) :
    WritesSame V (labelNames given labels) (labelNames given labels) := by
  induction labels generalizing given with
  | nil => exact .pure rfl
  | cons l labels ih =>
    unfold labelNames
    dsimp only
    split
    · exact (numbered_alike _).bind fun _ => (ih _).bind fun _ => .pure rfl
    · exact (ih _).bind fun _ => .pure rfl

/-- What does not depend on values is the same of selected columns that differ in values only. -/
theorem filterMap_alike {α : Type} {ps qs : List Projection}
    (h : List.Forall₂ (Projection.Alike V) ps qs) {f : Projection → Option α}
    (hf : ∀ p q, Projection.Alike V p q → f q = f p) : qs.filterMap f = ps.filterMap f := by
  induction h with
  | nil => rfl
  | cons hpq _ ih => rw [List.filterMap_cons, List.filterMap_cons, hf _ _ hpq, ih]

theorem columnList_alike {b c : Body} (h : Body.Alike V b c) :
    WritesSame V (columnList b) (columnList c) := by
  cases h with
  | mk hprojection =>
    unfold columnList
    dsimp only
    rw [filterMap_alike hprojection, filterMap_alike hprojection]
    · exact (labelNames_alike _ _).bind fun labels => .pure rfl
    all_goals
      intro p q hpq
      cases hpq <;> rfl

theorem meet_alike (id : Nat) (table : String) : WritesSame V (meet id table) (meet id table) := by
  unfold meet
  refine RunsAlike.get.bind fun p p' hp => ?_
  cases hp with
  | mk hparameters =>
    dsimp only
    split
    · split
      · exact .pure rfl
      · exact .throw _
    · exact (RunsAlike.set (.mk _ hparameters)).bind fun _ _ _ => .pure rfl

theorem addEntry_alike (opening query : String) :
    Writes V (fun _ _ => True) (addEntry opening query) (addEntry opening query) := by
  refine .modify fun p p' hp => ?_
  cases hp with
  | mk hparameters => exact .mk _ hparameters

theorem matching_alike {b c b' c' : Body} (h : Body.Alike V b c) (h' : Body.Alike V b' c') :
    Writes V (fun _ _ => True) (matching b b') (matching c c') := by
  cases h with
  | mk hprojection =>
    cases h' with
    | mk hprojection' =>
      unfold matching
      rw [← hprojection.length_eq, ← hprojection'.length_eq]
      split
      · exact .pure trivial
      · exact .throw _

theorem body_of_alike {s t : Select} (h : Select.Alike V s t) : Body.Alike V s.body t.body := by
  cases h with
  | mk _ hbc => exact hbc

theorem needsParentheses_alike {s t : Select} (h : Select.Alike V s t) :
    t.needsParentheses = s.needsParentheses := by
  cases h with
  | mk _ hbc =>
    cases hbc
    rfl

mutual

/-- Statements that differ in values only are written alike. -/
theorem write_alike {s t : Select} (h : Select.Alike V s t) :
    WritesSame V (s.write .bound) (t.write .bound) := by
  match h with
  | .mk hts hbc =>
    simp only [Select.write]
    exact (writeTables_alike hts).bind fun _ _ _ => body_alike hbc

theorem writeTables_alike {ts us : List CommonTable} (h : TablesAlike V ts us) :
    Writes V (fun _ _ => True) (writeTables .bound ts) (writeTables .bound us) := by
  match h with
  | .nil =>
    simp only [writeTables]
    exact .pure trivial
  | .cons ht hts =>
    simp only [writeTables]
    exact (commonTable_alike ht).bind fun _ _ _ => writeTables_alike hts

theorem commonTable_alike {t u : CommonTable} (h : CommonTable.Alike V t u) :
    Writes V (fun _ _ => True) (t.write .bound) (u.write .bound) := by
  match h with
  | .plain id table hqr =>
    simp only [CommonTable.write]
    refine (meet_alike id table).bind fun isNew => ?_
    cases isNew with
    | false => exact .pure trivial
    | true => exact (write_alike hqr).bind fun _ => addEntry_alike _ _
  | .recursive id table keepRepeats hqr hqr' =>
    simp only [CommonTable.write]
    refine (meet_alike id table).bind fun isNew => ?_
    cases isNew with
    | false => exact .pure trivial
    | true =>
      refine RunsAlike.bind (RunsAlike.modify fun p p' hp => ?_) fun _ _ _ => ?_
      · cases hp with
        | mk hparameters => exact .mk _ hparameters
      have hbody := body_of_alike hqr
      refine (columnList_alike hbody).bind fun columns => (write_alike hqr).bind fun first => ?_
      refine (matching_alike hbody (body_of_alike hqr')).bind fun _ _ _ => ?_
      refine (write_alike hqr').bind fun next => ?_
      rw [needsParentheses_alike hqr, needsParentheses_alike hqr']
      exact addEntry_alike _ _

end

/-- Texts that are the same, with parameters of the same names. -/
structure Written.Alike (V : Value → Value → Prop) (w x : Written) : Prop where
  sql : w.sql = x.sql
  parameters : ParametersAlike V w.parameters x.parameters

end Statements

end RowGate.Sql
