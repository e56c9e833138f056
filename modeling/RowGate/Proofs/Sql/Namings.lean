import RowGate.Proofs.Sql.Meaning
import RowGate.Proofs.Sql.Taken
/-!
The namings of a statement. Main statement: a statement with values as parameters is written exactly
if its namings can be done, and takes the names that they take.
-/
namespace RowGate.Sql

namespace Writing

variable {α β γ : Type} {ns ms : List Naming}

/-- The table expressions that are met are new, and different from each other. -/
structure AreNew (ns : List Naming) (known : List (String × Nat)) : Prop where
  distinct : ((met ns).map Prod.snd).Nodup
  unmet : ∀ id ∈ (met ns).map Prod.snd, id ∉ known.map Prod.snd

section New

variable {known : List (String × Nat)}

theorem areNew_of_none (h : met ns = []) : AreNew ns known := by
  constructor
  · rw [h]
    exact .nil
  · rw [h]
    exact List.forall_mem_nil _

theorem AreNew.first (h : AreNew (ns ++ ms) known) : AreNew ns known := by
  have hdistinct := h.distinct
  have hunmet := h.unmet
  rw [met_append, List.map_append] at hdistinct hunmet
  exact ⟨(List.nodup_append.mp hdistinct).1, (List.forall_mem_append.mp hunmet).1⟩

/-- Behind those that have been met, the rest is still new. -/
theorem AreNew.rest (h : AreNew (ns ++ ms) known) : AreNew ms ((met ns).reverse ++ known) := by
  have hdistinct := h.distinct
  have hunmet := h.unmet
  rw [met_append, List.map_append] at hdistinct hunmet
  obtain ⟨-, hrest, hapart⟩ := List.nodup_append.mp hdistinct
  constructor
  · exact hrest
  · intro id hid hmem
    rw [List.map_append, List.map_reverse, List.mem_append, List.mem_reverse] at hmem
    rcases hmem with hfirst | hknown
    · exact hapart id hfirst id hid rfl
    · exact (List.forall_mem_append.mp hunmet).2 id hid hknown

/-- A table expression is new, and what is met behind it as well. -/
theorem AreNew.table {id : Nat} {name : String} (h : AreNew (.table id name :: ns) known) :
    id ∉ known.map Prod.snd ∧ AreNew ns ((name, id) :: known) := by
  have hboth : AreNew ([.table id name] ++ ns) known := h
  exact ⟨h.unmet id List.mem_cons_self, hboth.rest⟩

end New

/-- Writing that fails exactly if its namings clash, and else takes the names that they take. -/
structure Follows (ns : List Naming) (p : Progress) (x : Writing α) : Prop where
  ok : ∀ t, p.taken.play ns = some t → ∃ a p', x.run p = .ok (a, p') ∧ p'.taken = t
  error : p.taken.play ns = none → x.run p = .error .unwritable

/-- What is taken behind writing. -/
theorem Follows.grows {p q : Progress} {x : Writing α} {a : α} (h : Follows ns p x)
    (hrun : x.run p = .ok (a, q)) : Taken.Grows ns p.taken q.taken := by
  cases htaken : p.taken.play ns with
  | none =>
    rw [h.error htaken] at hrun
    cases hrun
  | some t =>
    obtain ⟨b, r, hother, rfl⟩ := h.ok t htaken
    rw [hrun] at hother
    cases hother
    exact Taken.grows_play htaken

/-- Writing does some namings, whatever has been written before. -/
def Names (ns : List Naming) (x : Writing α) : Prop :=
  ∀ p, AreNew ns p.known → Follows ns p x

theorem names_pure (a : α) : Names [] (pure a : Writing α) := by
  intro p _
  constructor
  · intro t h
    cases h
    exact ⟨a, p, rfl, rfl⟩
  · nofun

/-- What is met behind writing is still new. -/
theorem Follows.rest {p q : Progress} {x : Writing α} {a : α} (h : Follows ns p x)
    (hnew : AreNew (ns ++ ms) p.known) (hrun : x.run p = .ok (a, q)) : AreNew ms q.known := by
  have hknown : q.known = (met ns).reverse ++ p.known := (h.grows hrun).known
  rw [hknown]
  exact hnew.rest

theorem names_bind {x : Writing α} {f : α → Writing β} (hx : Names ns x)
    (hf : ∀ a, Names ms (f a)) : Names (ns ++ ms) (x >>= f) := by
  intro p hnew
  have hfirst := hx p hnew.first
  have hplay := Taken.play_append p.taken ns ms
  cases htaken : p.taken.play ns with
  | none =>
    rw [htaken] at hplay
    have hfails := hfirst.error htaken
    constructor
    · intro t h
      rw [hplay] at h
      cases h
    · intro _
      rw [StateT.run_bind, hfails]
      rfl
  | some t =>
    rw [htaken] at hplay
    obtain ⟨a, q, hrun, hq⟩ := hfirst.ok t htaken
    have hfollows := hf a q (hfirst.rest hnew hrun)
    rw [← hq] at hplay
    constructor
    · intro u h
      obtain ⟨b, r, hsecond, hr⟩ := hfollows.ok u (hplay.symm.trans h)
      exact ⟨b, r, run_sequence_eq_ok.mpr ⟨a, q, hrun, hsecond⟩, hr⟩
    · intro h
      rw [StateT.run_bind, hrun]
      exact hfollows.error (hplay.symm.trans h)

theorem names_map {x : Writing α} {f : α → Writing β} (hx : Names ns x)
    (hf : ∀ a, Names [] (f a)) : Names ns (x >>= f) := by
  have h := names_bind hx hf
  rwa [List.append_nil] at h

/-- What takes no names may come first. -/
theorem names_behind {x : Writing α} {f : α → Writing β} (hx : Names [] x)
    (hf : ∀ a, Names ns (f a)) : Names ns (x >>= f) := names_bind hx hf

theorem names_mapM {f : α → Writing β} {g : α → List Naming} (hf : ∀ a, Names (g a) (f a))
    (as : List α) : Names (as.flatMap g) (as.mapM f) := by
  induction as with
  | nil => exact names_pure []
  | cons a as ih =>
    rw [List.mapM_cons, List.flatMap_cons]
    apply names_bind (hf a)
    intro b
    exact names_map ih fun bs => names_pure _

/-! ## Single names -/

theorem run_parameterName (p : Progress) (column : String) :
    ∃ p', (parameterName column).run p = .ok (p.taken.counter.columnName column, p') ∧
      p'.taken = { p.taken with counter := p.taken.counter.naming column } := by
  have hbind (f : String → Writing String) : (numbered (bindBase column) >>= f).run p =
      (f (p.taken.counter.fullName column)).run { p with
        counts := (bindBase column, p.taken.counter.number (bindBase column)) :: p.counts } := rfl
  unfold parameterName Counter.columnName Counter.naming
  rw [hbind]
  split
  · exact ⟨_, rfl, rfl⟩
  · exact ⟨_, rfl, rfl⟩

theorem run_get_bind (f : Progress → Writing α) (p : Progress) :
    ((get : Writing Progress) >>= f).run p = (f p).run p := rfl

theorem run_take (p : Progress) (name : String) (v : Value) : (take name v).run p =
    if p.names.contains name then .error .unwritable
    else .ok (freeName p.parameters.keys (bindName name), { p with
      names := name :: p.names
      parameters := p.parameters ++ [(freeName p.parameters.keys (bindName name), v)] }) := by
  unfold take
  rw [run_get_bind]
  dsimp only
  split <;> rfl

/-- Writing that does a single naming, and fails where it clashes. -/
theorem follows_of_run {x : Writing α} {n : Naming} {p q : Progress} {a : α} {clash : Prop}
    [Decidable clash] (hnext : p.taken.next n = if clash then none else some q.taken)
    (hrun : x.run p = if clash then .error .unwritable else .ok (a, q)) : Follows [n] p x := by
  have hplay := Taken.play_single p.taken n
  rw [hnext] at hplay
  by_cases hclash : clash
  · rw [if_pos hclash] at hplay hrun
    constructor
    · intro t h
      rw [hplay] at h
      cases h
    · exact fun _ => hrun
  · rw [if_neg hclash] at hplay hrun
    constructor
    · intro t h
      rw [hplay] at h
      exact ⟨a, q, hrun, Option.some.inj h⟩
    · intro h
      rw [hplay] at h
      cases h

theorem follows_take (p : Progress) (name : String) (v : Value) :
    Follows [.raw name v] p (take name v) :=
  follows_of_run rfl (run_take p name v)

theorem names_take (name : String) (v : Value) : Names [.raw name v] (take name v) :=
  fun p _ => follows_take p name v

/-- A value of a column takes the next name for the column. -/
theorem names_column (column : String) (v : Value) (f : String → String) :
    Names [.column column v] (do return f (← take (← parameterName column) v)) := by
  intro p _
  obtain ⟨q, hrun, hq⟩ := run_parameterName p column
  have hplay : p.taken.play [.column column v] =
      q.taken.play [.raw (p.taken.counter.columnName column) v] := by
    rw [Taken.play_single, Taken.play_single, hq]
    simp only [Taken.next]
  have hfollows := follows_take q (p.taken.counter.columnName column) v
  constructor
  · intro t h
    obtain ⟨name, r, htake, hr⟩ := hfollows.ok t (hplay ▸ h)
    refine ⟨f name, r, ?_, hr⟩
    exact run_sequence_eq_ok.mpr ⟨_, q, hrun, run_sequence_eq_ok.mpr ⟨name, r, htake, rfl⟩⟩
  · intro h
    have hfails := hfollows.error (hplay ▸ h)
    rw [StateT.run_bind, hrun, ok_sequence, StateT.run_bind, hfails, error_sequence]

theorem names_value (column : String) (v : Value) :
    Names [.column column v] (value .bound column v) :=
  names_column column v single

theorem names_values (column : String) (negated : Bool) (vs : List Value) :
    Names [.column column (.list vs)] (values .bound column negated vs) :=
  names_column column (.list vs) several

theorem names_rawValue (b : RawBinding) : Names [.raw b.name b.value] (rawValue .bound b) := by
  unfold rawValue
  exact names_map (names_take b.name b.value) fun _ => names_pure _

end Writing

/-! ## Parts of statements -/

/-- The namings of raw text: each parameter of the text that has a value takes its name. -/
def RawText.namings (r : RawText) : List Naming :=
  r.parts.flatMap fun
    | .char _ => []
    | .name n => ((r.binding? n).map fun b => .raw b.name b.value).toList

/-- The namings of a test. -/
def Test.namings : Test → List Naming
  | .isNull .. | .isTruth .. => []
  | .compare c _ v | .like c _ v | .likeAnyCase c v => [.column c.key v]
  | .between c low high => [.column c.key low, .column c.key high]
  | .isIn c _ vs => [.column c.key (.list vs)]
  | .raw r => r.namings

/-- The namings of a condition, in the order of its text. -/
def conditionNamings (cs : List Criterion) : List Naming :=
  (Joined.leavesOf cs).flatMap Test.namings

/-- The naming of a count that is a parameter. -/
def countNamings (n : Option Int) : List Naming := (n.map fun n => .column "param" (.int n)).toList

/-- The naming of the end of a frame. -/
def frameEndNamings (n : Option Int) : List Naming :=
  ((n.filter (· != 0)).map fun n => .column "param" (.int n.natAbs)).toList

/-- The namings of a window column. -/
def Over.namings (w : Over) : List Naming :=
  (w.criterion.map fun c => c.leaves.flatMap Test.namings).getD [] ++
    (w.frame.map fun f => frameEndNamings f.start ++ frameEndNamings f.stop).getD []

/-- The namings of a selected column. -/
def Projection.namings : Projection → List Naming
  | .framed w _ => w.namings
  | _ => []

/-- The namings of a statement without its table expressions. -/
def Body.namings (b : Body) : List Naming :=
  b.projection.flatMap Projection.namings ++ (.source b.source ::
    (conditionNamings b.criteria ++ (conditionNamings b.having ++
      (countNamings b.limit ++ countNamings b.offset))))

/-- The namings of labels in a column list. -/
def labelNamings (given : List String) : List String → List Naming
  | [] => []
  | l :: rest =>
    (if given.contains l then [.label (String.ofList (closeGaps l.toList))] else []) ++
      labelNamings (l :: given) rest

mutual

/-- The namings of a statement, in the order in which it is written. -/
def Select.namings : Select → List Naming
  | .mk tables body => tableNamings tables ++ body.namings

/-- The namings of table expressions. -/
def tableNamings : List CommonTable → List Naming
  | [] => []
  | t :: ts => t.namings ++ tableNamings ts

/-- The namings of a table expression. -/
def CommonTable.namings : CommonTable → List Naming
  | .plain id name query => .table id name :: query.namings
  | .recursive id name initial recursive _ =>
    .table id name :: (labelNamings [] (initial.body.projection.filterMap (·.label?)) ++
      (initial.namings ++
        (.halves initial.body.projection.length recursive.body.projection.length ::
          recursive.namings)))

end

namespace Writing

theorem names_raw (r : RawText) : Names r.namings (raw .bound r) := by
  apply names_map
  · apply names_mapM
    intro part
    cases part with
    | char c => exact names_pure _
    | name n =>
      dsimp only
      cases r.binding? n with
      | none => exact names_pure _
      | some b => exact names_map (names_rawValue b) fun _ => names_pure _
  · exact fun _ => names_pure _

theorem names_test (t : Test) : Names t.namings (test .bound t) := by
  cases t with
  | isNull | isTruth => exact names_pure _
  | compare c op v => exact names_map (names_value c.key v) fun _ => names_pure _
  | like c negated v => exact names_map (names_value c.key v) fun _ => names_pure _
  | likeAnyCase c v => exact names_map (names_value c.key v) fun _ => names_pure _
  | between c low high =>
    apply names_bind (names_value c.key low)
    intro text
    exact names_map (names_value c.key high) fun _ => names_pure _
  | isIn c negated vs =>
    cases negated <;> exact names_map (names_values c.key _ vs) fun _ => names_pure _
  | raw r => exact names_raw r

/-- The tests of a condition are written one after another. -/
theorem names_pieces (ps : List (Piece Test)) :
    Names ((predicatesOf ps).flatMap Test.namings) (ps.mapM (piece .bound)) := by
  induction ps with
  | nil => exact names_pure []
  | cons p ps ih =>
    rw [List.mapM_cons]
    have hrest (text : String) : Names ((predicatesOf ps).flatMap Test.namings)
        (do return text :: (← ps.mapM (piece .bound))) := names_map ih fun _ => names_pure _
    cases p with
    | one t =>
      rw [predicatesOf, List.flatMap_cons]
      exact names_bind (names_test t) hrest
    | join c => cases c <;> exact names_bind (names_pure _) hrest
    | open_ | close => exact names_bind (names_pure _) hrest

theorem names_criterion (c : Criterion) :
    Names (c.leaves.flatMap Test.namings) (criterion .bound c) := by
  rw [← Joined.predicatesOf_pieces]
  exact names_map (names_pieces _) fun _ => names_pure _

theorem names_condition (opening : String) (cs : List Criterion) :
    Names (conditionNamings cs) (condition .bound opening cs) := by
  have hleaves := @Joined.predicatesOf_conjunctionPieces _ cs
  unfold condition conditionNamings
  unfold Joined.conjunctionPieces at hleaves
  cases hcs : Joined.conjunction cs with
  | none =>
    rw [hcs] at hleaves
    rw [← hleaves]
    exact names_pure _
  | some c =>
    rw [hcs] at hleaves
    have hc : c.leaves = Joined.leavesOf cs := (Joined.predicatesOf_pieces c).symm.trans hleaves
    rw [← hc]
    exact names_map (names_criterion c) fun _ => names_pure _

theorem names_count (opening : String) (n : Option Int) :
    Names (countNamings n) (count .bound opening n) := by
  cases n with
  | none => exact names_pure _
  | some n => exact names_map (names_value _ _) fun _ => names_pure _

theorem names_frameEnd (unbounded : String) (n : Option Int) :
    Names (frameEndNamings n) (frameEnd .bound unbounded n) := by
  cases n with
  | none => exact names_pure _
  | some n =>
    unfold frameEnd frameEndNamings
    dsimp only
    by_cases hzero : n = 0
    · rw [if_pos hzero, hzero]
      exact names_pure _
    · have hsome : (some n).filter (· != 0) = some n := by simp [hzero]
      rw [if_neg hzero, hsome]
      exact names_map (names_value "param" _) fun _ => names_pure _

theorem names_frame (f : FrameEnds) :
    Names (frameEndNamings f.start ++ frameEndNamings f.stop) (frame .bound f) := by
  apply names_bind (names_frameEnd _ _)
  intro start
  exact names_map (names_frameEnd _ _) fun _ => names_pure _

theorem names_windowColumn (w : Over) : Names w.namings (windowColumn .bound w) := by
  obtain ⟨function, argument, c, partition, order, ends⟩ := w
  unfold windowColumn Over.namings
  dsimp only
  cases c with
  | none =>
    apply names_bind (names_pure "")
    intro filter
    cases ends with
    | none => exact names_map (names_pure []) fun _ => names_pure _
    | some f =>
      apply names_map (names_frame f)
      intro frame
      exact names_map (names_pure [frame]) fun _ => names_pure _
  | some c =>
    apply names_bind (names_criterion c)
    intro condition
    apply names_behind (names_pure _)
    intro filter
    cases ends with
    | none => exact names_map (names_pure []) fun _ => names_pure _
    | some f =>
      apply names_map (names_frame f)
      intro frame
      exact names_map (names_pure [frame]) fun _ => names_pure _

theorem names_projection (c : Projection) : Names c.namings (projection .bound c) := by
  cases c with
  | column | aggregate | window => exact names_pure _
  | framed w label => exact names_map (names_windowColumn w) fun _ => names_pure _

theorem names_source (s : Source) : Names [.source s] (source s) := by
  intro p _
  cases s with
  | table schema n =>
    constructor
    · intro t h
      cases h
      exact ⟨_, p, rfl, rfl⟩
    · nofun
  | common id n =>
    have hrun : (source (.common id n)).run p =
        if (p.known.lookup n).any (· != id) then .error .unwritable else .ok (name n, p) := by
      unfold source
      rw [run_get_bind]
      cases p.known.lookup n with
      | none => rfl
      | some other =>
        by_cases hother : other = id
        · simp [hother]
        · simp [hother]
          rfl
    exact follows_of_run rfl hrun

theorem names_body (b : Body) : Names b.namings (body .bound b) := by
  apply names_bind (names_mapM names_projection _)
  intro columns
  apply names_bind (names_source b.source)
  intro source
  apply names_bind (names_condition _ _)
  intro criteria
  apply names_bind (names_condition _ _)
  intro having
  apply names_bind (names_count _ _)
  intro limit
  exact names_map (names_count _ _) fun _ => names_pure _

theorem names_numbered (base : String) : Names [.label base] (numbered base) := by
  intro p _
  constructor
  · intro t h
    cases h
    exact ⟨_, _, rfl, rfl⟩
  · nofun

theorem names_labelNames (given labels : List String) :
    Names (labelNamings given labels) (labelNames given labels) := by
  induction labels generalizing given with
  | nil => exact names_pure []
  | cons l labels ih =>
    have hrest (n : String) : Names (labelNamings (l :: given) labels)
        (do return n :: (← labelNames (l :: given) labels)) :=
      names_map (ih (l :: given)) fun _ => names_pure _
    unfold labelNames labelNamings
    dsimp only
    split
    · exact names_bind (names_numbered _) hrest
    · exact names_bind (names_pure l) hrest

theorem names_columnList (b : Body) :
    Names (labelNamings [] (b.projection.filterMap (·.label?))) (columnList b) :=
  names_map (names_labelNames _ _) fun _ => names_pure _

theorem names_matching (a b : Body) :
    Names [.halves a.projection.length b.projection.length] (matching a b) := by
  intro p _
  have hrun : (matching a b).run p = if a.projection.length ≠ b.projection.length then
      .error .unwritable else .ok ((), p) := by
    unfold matching
    by_cases hsame : a.projection.length = b.projection.length
    · simp [hsame]
    · simp [hsame]
      rfl
  exact follows_of_run rfl hrun

theorem names_modify {g : Progress → Progress} (hg : ∀ p, (g p).taken = p.taken) :
    Names [] (modify g : Writing PUnit) := by
  intro p _
  constructor
  · intro t h
    cases h
    exact ⟨_, g p, rfl, hg p⟩
  · nofun

/-- A table expression that is new is written behind its name. -/
theorem names_meet {id : Nat} {name : String} {ns : List Naming} {x : Writing Unit}
    (hx : Names ns x) :
    Names (.table id name :: ns) (do if ← meet id name then x else pure ()) := by
  intro p hnew
  obtain ⟨hid, hrest⟩ := hnew.table
  have hnext : p.taken.play (.table id name :: ns) =
      (if (p.known.lookup name).isSome then none
        else some ({ p with known := (name, id) :: p.known } : Progress).taken).bind
          (·.play ns) := rfl
  have hmeet : (meet id name).run p = if (p.known.lookup name).isSome then .error .unwritable
      else .ok (true, { p with known := (name, id) :: p.known }) := by
    unfold meet
    rw [run_get_bind]
    cases hlook : p.known.lookup name with
    | none => rfl
    | some other =>
      obtain ⟨before, after, hknown, -⟩ := List.lookup_eq_some_iff.mp hlook
      have hne : other ≠ id := by
        rintro rfl
        apply hid
        simp [hknown]
      simp [hne]
      rfl
  cases hlook : p.known.lookup name with
  | some other =>
    rw [hlook] at hnext hmeet
    constructor
    · intro t h
      rw [hnext] at h
      cases h
    · intro _
      rw [StateT.run_bind, hmeet]
      rfl
  | none =>
    rw [hlook] at hnext hmeet
    have hfollows := hx { p with known := (name, id) :: p.known } hrest
    constructor
    · intro t h
      obtain ⟨a, q, hrun, hq⟩ := hfollows.ok t (hnext.symm.trans h)
      exact ⟨a, q, run_sequence_eq_ok.mpr ⟨true, _, hmeet, hrun⟩, hq⟩
    · intro h
      rw [StateT.run_bind, hmeet]
      exact hfollows.error (hnext.symm.trans h)

end Writing

open Writing

mutual

theorem names_write : (s : Select) → Names s.namings (s.write .bound)
  | .mk tables body => by
    simp only [Select.write, Select.namings]
    exact names_bind (names_writeTables tables) fun _ => names_body body

theorem names_writeTables : (ts : List CommonTable) →
    Names (tableNamings ts) (writeTables .bound ts)
  | [] => by
    simp only [writeTables, tableNamings]
    exact names_pure ()
  | t :: ts => by
    simp only [writeTables, tableNamings]
    exact names_bind (names_commonTable t) fun _ => names_writeTables ts

theorem names_commonTable : (t : CommonTable) → Names t.namings (t.write .bound)
  | .plain id name query => by
    simp only [CommonTable.write, CommonTable.namings]
    apply names_meet
    exact names_map (names_write query) fun _ => names_modify fun _ => rfl
  | .recursive id name initial recursive keepRepeats => by
    simp only [CommonTable.write, CommonTable.namings]
    apply names_meet
    apply names_behind
    · exact names_modify fun _ => rfl
    intro _
    apply names_bind (names_columnList initial.body)
    intro columns
    apply names_bind (names_write initial)
    intro first
    have hrest (_ : Unit) : Names recursive.namings (do
        let next ← recursive.write .bound
        addEntry (Sql.name name ++ columns) (Writing.grouped initial.needsParentheses first ++
          (if keepRepeats then " UNION ALL " else " UNION ") ++
            Writing.grouped recursive.needsParentheses next)) :=
      names_map (names_write recursive) fun _ => names_modify fun _ => rfl
    exact names_bind (names_matching initial.body recursive.body) hrest

end

end RowGate.Sql
