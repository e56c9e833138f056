import RowGate.Proofs.Sql.Applied
import RowGate.Proofs.Sql.Entries
/-!
What names denote. A query is built on lexical scopes: a name stands for the nearest table
expression of that name which is declared before it, on its own level or on one around it. The text
has a single list instead. Main statement: a name in the text denotes what it denotes lexically,
unless it is captured.
-/
namespace RowGate.Sql

/-- Table expressions that names may denote, the nearest first. -/
abbrev Scope := List (String × Source)

/-- A scope behind declared table expressions. -/
def scopeBehind (scope : Scope) (ts : List CommonTable) : Scope :=
  ts.foldl (fun scope t => (t.name, t.source) :: scope) scope

/-- A source is what some name denotes lexically. -/
def Source.Meant (scope : Scope) : Source → Prop
  | .table schema n => ∃ path, scope.lookup path = none ∧ splitPath path = (schema, n)
  | .common id n => scope.lookup n = some (.common id n)

mutual

/-- All sources of a statement are what names denote lexically. -/
def Select.Lexical (scope : Scope) : Select → Prop
  | .mk tables body => LexicalTables scope tables ∧ body.source.Meant (scopeBehind scope tables)

/-- A table expression is in scope only in its own recursive part. -/
def CommonTable.Lexical (scope : Scope) : CommonTable → Prop
  | .plain _ _ query => query.Lexical scope
  | .recursive id name initial recursive _ =>
    initial.Lexical scope ∧ recursive.Lexical ((name, .common id name) :: scope)

/-- Each table expression is in scope in those behind it. -/
def LexicalTables (scope : Scope) : List CommonTable → Prop
  | [] => True
  | t :: ts => t.Lexical scope ∧ LexicalTables ((t.name, t.source) :: scope) ts

end

theorem scopeBehind_append (scope : Scope) (ts us : List CommonTable) :
    scopeBehind scope (ts ++ us) = scopeBehind (scopeBehind scope ts) us :=
  List.foldl_append

theorem lexicalTables_append {scope : Scope} {ts us : List CommonTable}
    (hts : LexicalTables scope ts) (hus : LexicalTables (scopeBehind scope ts) us) :
    LexicalTables scope (ts ++ us) := by
  induction ts generalizing scope with
  | nil => exact hus
  | cons t ts ih => exact ⟨hts.1, ih hts.2 hus⟩

theorem entriesOf_append (within : List Source) (ts us : List CommonTable) :
    entriesOf within (ts ++ us) = entriesOf within ts ++ entriesOf within us := by
  induction ts with
  | nil => rfl
  | cons t ts ih => simp only [List.cons_append, entriesOf, ih, List.append_assoc]

theorem entriesOf_singleton (within : List Source) (t : CommonTable) :
    entriesOf within [t] = t.entries within := by
  simp only [entriesOf, List.append_nil]

/-- Table expressions have different numbers, all of them from a range. -/
structure Numbered (first next : Nat) (es : List Entry) : Prop where
  le : first ≤ next
  nodup : (numbers es).Nodup
  mem : ∀ id ∈ numbers es, first ≤ id ∧ id < next

namespace Numbered

theorem nil (n : Nat) : Numbered n n [] := ⟨Nat.le_refl n, .nil, nofun⟩

theorem single (e : Entry) {id : Nat} (h : e.table.id = id) : Numbered id (id + 1) [e] := by
  have hnumbers : numbers [e] = [id] := congrArg (fun i => [i]) h
  constructor
  · omega
  · rw [hnumbers]
    exact List.pairwise_singleton _ id
  · rw [hnumbers]
    intro i hi
    obtain rfl := List.mem_singleton.mp hi
    omega

theorem append {first middle next : Nat} {es fs : List Entry} (hes : Numbered first middle es)
    (hfs : Numbered middle next fs) : Numbered first next (es ++ fs) := by
  have hfirst := hes.le
  have hnext := hfs.le
  constructor
  · omega
  · rw [numbers_append]
    apply List.nodup_append.mpr
    refine ⟨hes.nodup, hfs.nodup, ?_⟩
    intro id hid other hother
    have hlow := hes.mem id hid
    have hhigh := hfs.mem other hother
    omega
  · intro id hid
    rw [numbers_append] at hid
    rcases List.mem_append.mp hid with hid | hid
    · have hlow := hes.mem id hid
      omega
    · have hhigh := hfs.mem id hid
      omega

theorem perm {first next : Nat} {es fs : List Entry} (h : Numbered first next es)
    (hperm : es.Perm fs) : Numbered first next fs := by
  have hnumbers : (numbers es).Perm (numbers fs) := hperm.map _
  constructor
  · exact h.le
  · exact hnumbers.nodup_iff.mp h.nodup
  · intro id hid
    exact h.mem id (hnumbers.mem_iff.mpr hid)

/-- A recursive table expression has a number between those of its parts. -/
theorem between {first id next : Nat} {es fs : List Entry} {e : Entry}
    (hes : Numbered first id es) (he : e.table.id = id) (hfs : Numbered (id + 1) next fs) :
    Numbered first next (es ++ fs ++ [e]) := by
  have hall := (hes.append (.single e he)).append hfs
  rw [List.append_assoc] at hall ⊢
  exact hall.perm (List.perm_append_comm.append_left es)

end Numbered

/-- Names in scope stand for table expressions of that name. -/
def Named (scope : Scope) : Prop := ∀ x ∈ scope, ∃ id, x.2 = .common id x.1

theorem Named.cons {scope : Scope} (h : Named scope) (id : Nat) (n : String) :
    Named ((n, .common id n) :: scope) :=
  List.forall_mem_cons.mpr ⟨⟨id, rfl⟩, h⟩

theorem Named.behind {scope : Scope} (h : Named scope) (ts : List CommonTable) :
    Named (scopeBehind scope ts) := by
  induction ts generalizing scope with
  | nil => exact h
  | cons t ts ih => exact ih (h.cons t.id t.name)

/-- The table expressions of a draft are built on lexical scopes, and numbered from a number on. -/
structure Draft.Scoped (outer : Scope) (first : Nat) (d : Draft) : Prop where
  scope : d.scope = scopeBehind outer d.tables
  lexical : LexicalTables outer d.tables
  numbered : ∀ within, Numbered first d.nextTable (entriesOf within d.tables)

namespace Draft

variable {outer : Scope} {first : Nat} {d d' : Draft}

/-- A name is resolved lexically. -/
theorem resolve_meant {name : String} {s : Source} (hnamed : Named d.scope)
    (h : d.resolve name = .ok s) : s.Meant d.scope := by
  obtain hlook | ⟨hlook, rfl⟩ := resolve_ok h
  · obtain ⟨before, after, hscope, -⟩ := List.lookup_eq_some_iff.mp hlook
    have hmem : (name, s) ∈ d.scope := by simp [hscope]
    obtain ⟨id, hid⟩ := hnamed (name, s) hmem
    dsimp only at hid
    subst hid
    exact hlook
  · exact ⟨name, hlook, rfl⟩

theorem scoped_child (d : Draft) (table : String) (columns : List String) (own : Scope) :
    (d.child table columns own).Scoped (own ++ d.scope) d.nextTable := by
  constructor
  · rfl
  · trivial
  · exact fun _ => .nil _

theorem scoped_ownChild (d : Draft) (table : String) (columns : List String) (id : Nat)
    (n : String) : (d.child table columns [(n, .common id n)]).Scoped
      ((n, .common id n) :: d.scope) d.nextTable :=
  d.scoped_child table columns [(n, .common id n)]

theorem Scoped.statement (hd : d.Scoped outer first) (houter : Named outer) {s : Select}
    (h : d.statement = .ok s) :
    s.Lexical outer ∧ ∀ within, Numbered first d.nextTable (s.entries within) := by
  obtain ⟨htables, hsource⟩ := statement_ok h
  have hnamed : Named d.scope := by
    rw [hd.scope]
    exact houter.behind d.tables
  have hmeant := resolve_meant hnamed hsource
  rw [hd.scope] at hmeant
  cases s with
  | mk tables body =>
    change tables = d.tables at htables
    subst htables
    simp only [Select.Lexical, Select.entries]
    exact ⟨⟨hd.lexical, hmeant⟩, hd.numbered⟩

theorem Scoped.declaring (hd : d.Scoped outer first) {t : CommonTable}
    (hscope : d'.scope = (t.name, t.source) :: d.scope) (htables : d'.tables = d.tables ++ [t])
    (ht : t.Lexical d.scope)
    (hnumbered : ∀ within, Numbered d.nextTable d'.nextTable (t.entries within)) :
    d'.Scoped outer first := by
  constructor
  · rw [hscope, htables, scopeBehind_append, ← hd.scope]
    rfl
  · rw [htables]
    apply lexicalTables_append hd.lexical
    rw [← hd.scope]
    exact ⟨ht, trivial⟩
  · intro within
    rw [htables, entriesOf_append, entriesOf_singleton]
    exact (hd.numbered within).append (hnumbered within)

end Draft

mutual

/-- An operation keeps a draft on lexical scopes. -/
theorem scoped_applied {o : Operation} {d d' : Draft} {outer : Scope} {first : Nat}
    (h : Applied o d d') (hd : d.Scoped outer first) (houter : Named outer) :
    d'.Scoped outer first := by
  have hnamed : Named d.scope := by
    rw [hd.scope]
    exact houter.behind d.tables
  match h with
  | .table hwork hquery =>
    have hinside := scoped_appliedAll hwork (d.scoped_child _ _ []) hnamed
    obtain ⟨hlexical, hnumbered⟩ := hinside.statement hnamed hquery
    apply hd.declaring rfl rfl
    · exact hlexical
    · intro within
      exact (hnumbered within).append (.single _ rfl)
  | .recursiveTable hfirst hfirstStatement hnext hnextStatement =>
    have hfirstInside := scoped_appliedAll hfirst (d.scoped_child _ _ []) hnamed
    obtain ⟨hfirstLexical, hfirstNumbered⟩ := hfirstInside.statement hnamed hfirstStatement
    have hown := hnamed.cons
    have hnextInside := scoped_appliedAll hnext (Draft.scoped_ownChild _ _ _ _ _) (hown _ _)
    obtain ⟨hnextLexical, hnextNumbered⟩ := hnextInside.statement (hown _ _) hnextStatement
    apply hd.declaring rfl rfl
    · exact ⟨hfirstLexical, hnextLexical⟩
    · intro within
      exact (hfirstNumbered within).between rfl (hnextNumbered _)
  | .clause _ hsame =>
    constructor
    · rw [hsame.scope, hsame.tables]
      exact hd.scope
    · rw [hsame.tables]
      exact hd.lexical
    · rw [hsame.nextTable, hsame.tables]
      exact hd.numbered

theorem scoped_appliedAll {os : List Operation} {d d' : Draft} {outer : Scope} {first : Nat}
    (h : AppliedAll os d d') (hd : d.Scoped outer first) (houter : Named outer) :
    d'.Scoped outer first := by
  match h with
  | .nil => exact hd
  | .cons hfirst hrest => exact scoped_appliedAll hrest (scoped_applied hfirst hd houter) houter

end

/-- A statement is built on lexical scopes, and its table expressions have different numbers. -/
theorem build_scoped {catalog : Catalog} {table : String} {operations : List Operation}
    {s : Select} (h : build catalog table operations = .ok s) :
    s.Lexical [] ∧ (numbers (s.entries [])).Nodup := by
  obtain ⟨d, happlied, hstatement⟩ := build_ok h
  have hstart : (Draft.start catalog table []).Scoped [] 0 := ⟨rfl, trivial, fun _ => .nil 0⟩
  have hd := scoped_appliedAll happlied hstart nofun
  obtain ⟨hlexical, hnumbered⟩ := hd.statement nofun hstatement
  exact ⟨hlexical, (hnumbered []).nodup⟩

/-- A name behind FROM in the text of a statement. -/
structure Reading where
  /-- What the name denotes lexically. -/
  source : Source
  /-- The table expressions that the name can denote in the text. -/
  visible : List Entry
  /-- The recursive table expressions in whose recursive part a table expression with this name
  behind FROM is declared. -/
  within : List Source

/-- The names behind FROM in the text of a table expression. It sees those before it; the recursive
part of a recursive one sees itself, too. -/
def Entry.readings (before : List Entry) (e : Entry) : List Reading :=
  match e.table with
  | .plain _ _ query => [⟨query.body.source, before, e.within⟩]
  | .recursive _ _ initial recursive _ =>
    [⟨initial.body.source, before, e.within⟩, ⟨recursive.body.source, before ++ [e], e.within⟩]

/-- The names behind FROM in a list of table expressions. -/
def readingsOf (before : List Entry) : List Entry → List Reading
  | [] => []
  | e :: es => e.readings before ++ readingsOf (before ++ [e]) es

/-- The names behind FROM in the text of a statement, which sees all its table expressions. -/
def Select.readings (s : Select) : List Reading :=
  readingsOf [] (s.entries []) ++ [⟨s.body.source, s.entries [], []⟩]

/-- A name as the text has it; a line end behind it does not count. -/
def spelling (n : String) : List Char := dropLineEnd (name n).toList

/-- What a name behind FROM denotes in the text: a table expression that is spelled like it, or else
a base table. It denotes nothing where several are spelled like it. -/
def denoted (visible : List Entry) : Option String × String → Option Source
  | (some schema, n) => some (.table (some schema) n)
  | (none, n) =>
    match visible.filter fun e => spelling e.table.name = spelling n with
    | [] => some (.table none n)
    | [e] => some e.table.source
    | _ => none

/-- A name is captured: it stands for a base table, and a visible table expression is spelled like
it; or it stands for a table expression that is listed only later because the name stands inside its
recursive part; or another visible one is spelled like it. -/
def Reading.Captured (r : Reading) : Prop :=
  match r.source with
  | .table (some _) _ => False
  | .table none n => ∃ e ∈ r.visible, spelling e.table.name = spelling n
  | .common id n => .common id n ∈ r.within ∨
      ∃ e ∈ r.visible, e.table.name ≠ n ∧ spelling e.table.name = spelling n

theorem readingsOf_append (before es fs : List Entry) :
    readingsOf before (es ++ fs) = readingsOf before es ++ readingsOf (before ++ es) fs := by
  induction es generalizing before with
  | nil => simp [readingsOf]
  | cons e es ih => simp [readingsOf, ih, List.append_assoc]

theorem visible_prefix {before es : List Entry} {r : Reading} (h : r ∈ readingsOf before es) :
    r.visible <+: before ++ es := by
  induction es generalizing before with
  | nil => cases h
  | cons e es ih =>
    rcases List.mem_append.mp h with h | h
    · have hlonger : before ++ [e] <+: before ++ e :: es := ⟨es, by simp⟩
      unfold Entry.readings at h
      split at h
      · obtain rfl := List.mem_singleton.mp h
        exact List.prefix_append _ _
      · rcases List.mem_cons.mp h with rfl | h
        · exact List.prefix_append _ _
        · obtain rfl := List.mem_singleton.mp h
          exact hlonger
    · have hrest := ih h
      rwa [List.append_assoc] at hrest

/-- A source that is a table expression is visible, unless it is listed only later. -/
def InView (visible : List Entry) (within : List Source) : Source → Prop
  | .table .. => True
  | .common id n => .common id n ∈ within ∨ ∃ e ∈ visible, e.table.source = .common id n

/-- Table expressions other than those of a list. -/
def Clear (within : List Source) (es : List Entry) : Prop := ∀ e ∈ es, e.table.source ∉ within

/-- A name that finds what it denotes lexically exactly if that is listed before it. -/
structure Reading.Placed (r : Reading) : Prop where
  inView : InView r.visible r.within r.source
  clear : Clear r.within r.visible

theorem InView.mono {visible visible' : List Entry} {within within' : List Source} {s : Source}
    (h : InView visible within s) (hvisible : visible ⊆ visible') (hwithin : within ⊆ within') :
    InView visible' within' s := by
  cases s with
  | table => trivial
  | common id n =>
    rcases h with h | ⟨e, he, hsource⟩
    · exact .inl (hwithin h)
    · exact .inr ⟨e, hvisible he, hsource⟩

/-- In its own recursive part a table expression is visible. -/
theorem InView.own {visible : List Entry} {within : List Source} {s : Source} (e : Entry)
    {own : Source} (h : InView visible (own :: within) s) (he : e.table.source = own) :
    InView (visible ++ [e]) within s := by
  cases s with
  | table => trivial
  | common id n =>
    rcases h with h | ⟨x, hx, hsource⟩
    · rcases List.mem_cons.mp h with h | h
      · exact .inr ⟨e, by simp, he.trans h.symm⟩
      · exact .inl h
    · exact .inr ⟨x, List.mem_append_left _ hx, hsource⟩

/-- What a name denotes lexically is in view where all that is in scope is. -/
theorem inView_of_meant {scope : Scope} {visible : List Entry} {within : List Source} {s : Source}
    (hs : s.Meant scope) (hscope : ∀ x ∈ scope, InView visible within x.2) :
    InView visible within s := by
  cases s with
  | table => trivial
  | common id n =>
    obtain ⟨before, after, hmem, -⟩ := List.lookup_eq_some_iff.mp hs
    exact hscope (n, .common id n) (by simp [hmem])

theorem self_mem_entries (within : List Source) (t : CommonTable) :
    ∃ e ∈ t.entries within, e.table = t := by
  have hself : ⟨t, within⟩ ∈ t.entries within := by
    cases t <;> simp [CommonTable.entries]
  exact ⟨⟨t, within⟩, hself, rfl⟩

/-- Table expressions that may be listed behind others: what is in scope is in view, and all numbers
differ. -/
structure Ready (scope : Scope) (before : List Entry) (within : List Source) (es : List Entry) :
    Prop where
  inView : ∀ x ∈ scope, InView before within x.2
  clear : Clear within (before ++ es)
  nodup : (numbers (before ++ es)).Nodup

namespace Ready

variable {scope : Scope} {before es fs : List Entry} {within : List Source}

theorem first (h : Ready scope before within (es ++ fs)) : Ready scope before within es := by
  have hsub : before ++ es <+: before ++ (es ++ fs) := ⟨fs, by simp⟩
  constructor
  · exact h.inView
  · exact fun e he => h.clear e (hsub.subset he)
  · exact h.nodup.sublist (hsub.sublist.map _)

theorem rest (h : Ready scope before within (es ++ fs)) :
    Ready scope (before ++ es) within fs := by
  constructor
  · exact fun x hx => (h.inView x hx).mono (List.subset_append_left _ _) (List.Subset.refl _)
  · rw [List.append_assoc]
    exact h.clear
  · rw [List.append_assoc]
    exact h.nodup

/-- A recursive table expression is listed only behind those that its recursive part declares. -/
theorem own {e : Entry} (h : Ready scope before within (es ++ fs ++ [e])) :
    Ready ((e.table.name, e.table.source) :: scope) (before ++ es)
      (e.table.source :: within) fs := by
  have hrest := h.first.rest
  constructor
  · intro x hx
    rcases List.mem_cons.mp hx with rfl | hx
    · exact .inl List.mem_cons_self
    · exact (hrest.inView x hx).mono (List.Subset.refl _) (List.subset_cons_self _ _)
  · intro x hx hown
    rcases List.mem_cons.mp hown with hown | hown
    · have hnodup := h.nodup
      rw [← List.append_assoc, ← List.append_assoc, numbers_append] at hnodup
      have hnumber : x.table.id = e.table.id := by
        injection hown
      have hmem : x.table.id ∈ numbers (before ++ es ++ fs) := List.mem_map_of_mem hx
      exact (List.nodup_append.mp hnodup).2.2 _ hmem _ (List.mem_singleton.mpr hnumber) rfl
    · exact hrest.clear x hx hown
  · exact hrest.nodup

end Ready

mutual

/-- The names in the text of a statement are placed if all that is in scope is in view. -/
theorem placed_select : (s : Select) → ∀ scope before within, s.Lexical scope →
    Ready scope before within (s.entries within) →
    (∀ r ∈ readingsOf before (s.entries within), r.Placed) ∧
      InView (before ++ s.entries within) within s.body.source
  | .mk tables body => by
    intro scope before within hlexical hready
    simp only [Select.Lexical] at hlexical
    simp only [Select.entries] at hready ⊢
    obtain ⟨hreadings, hscope⟩ := placed_tables tables scope before within hlexical.1 hready
    exact ⟨hreadings, inView_of_meant hlexical.2 hscope⟩

theorem placed_tables : (ts : List CommonTable) → ∀ scope before within,
    LexicalTables scope ts → Ready scope before within (entriesOf within ts) →
    (∀ r ∈ readingsOf before (entriesOf within ts), r.Placed) ∧
      ∀ x ∈ scopeBehind scope ts, InView (before ++ entriesOf within ts) within x.2
  | [] => by
    intro scope before within hlexical hready
    simp only [entriesOf, List.append_nil]
    exact ⟨nofun, hready.inView⟩
  | t :: ts => by
    intro scope before within hlexical hready
    simp only [LexicalTables] at hlexical
    simp only [entriesOf] at hready ⊢
    have hfirst := placed_table t scope before within hlexical.1 hready.first
    have hrest : Ready ((t.name, t.source) :: scope) (before ++ t.entries within) within
        (entriesOf within ts) := by
      constructor
      · intro x hx
        rcases List.mem_cons.mp hx with rfl | hx
        · obtain ⟨e, he, htable⟩ := self_mem_entries within t
          exact .inr ⟨e, List.mem_append_right _ he, congrArg CommonTable.source htable⟩
        · exact hready.rest.inView x hx
      · exact hready.rest.clear
      · exact hready.rest.nodup
    obtain ⟨hreadings, hscope⟩ := placed_tables ts _ _ within hlexical.2 hrest
    rw [readingsOf_append, ← List.append_assoc]
    exact ⟨List.forall_mem_append.mpr ⟨hfirst, hreadings⟩, hscope⟩

theorem placed_table : (t : CommonTable) → ∀ scope before within, t.Lexical scope →
    Ready scope before within (t.entries within) →
    ∀ r ∈ readingsOf before (t.entries within), r.Placed
  | .plain id n query => by
    intro scope before within hlexical hready
    simp only [CommonTable.Lexical] at hlexical
    simp only [CommonTable.entries] at hready ⊢
    obtain ⟨hreadings, hsource⟩ := placed_select query scope before within hlexical hready.first
    rw [readingsOf_append]
    apply List.forall_mem_append.mpr ⟨hreadings, _⟩
    intro r hr
    obtain rfl := List.mem_singleton.mp hr
    exact ⟨hsource, hready.first.clear⟩
  | .recursive id n initial recursive keepRepeats => by
    intro scope before within hlexical hready
    simp only [CommonTable.Lexical] at hlexical
    simp only [CommonTable.entries] at hready ⊢
    obtain ⟨hinitial, hfirst⟩ :=
      placed_select initial scope before within hlexical.1 hready.first.first
    obtain ⟨hrecursive, hnext⟩ := placed_select recursive _ _ _ hlexical.2 hready.own
    rw [readingsOf_append, readingsOf_append]
    apply List.forall_mem_append.mpr ⟨List.forall_mem_append.mpr ⟨hinitial, hrecursive⟩, _⟩
    intro r hr
    rcases List.mem_cons.mp hr with rfl | hr
    · constructor
      · rw [← List.append_assoc]
        exact hfirst.mono (List.subset_append_left _ _) (List.Subset.refl _)
      · exact hready.first.clear
    · obtain rfl := List.mem_singleton.mp hr
      constructor
      · rw [← List.append_assoc]
        exact hnext.own _ rfl
      · dsimp only
        rw [List.append_assoc]
        exact hready.clear

end

/-- The names in the text of a statement on lexical scopes are placed, and what each of them sees is
the beginning of the list. -/
theorem placed_readings {s : Select} (hlexical : s.Lexical [])
    (hnumbers : (numbers (s.entries [])).Nodup) {r : Reading} (hr : r ∈ s.readings) : r.Placed ∧ r.visible <+: s.entries [] := by
  have hready : Ready [] [] [] (s.entries []) := by
    constructor
    · exact nofun
    · exact fun e _ => List.not_mem_nil
    · exact hnumbers
  obtain ⟨hreadings, hsource⟩ := placed_select s [] [] [] hlexical hready
  rcases List.mem_append.mp hr with hr | hr
  · exact ⟨hreadings r hr, visible_prefix hr⟩
  · obtain rfl := List.mem_singleton.mp hr
    exact ⟨⟨hsource, fun e _ => List.not_mem_nil⟩, List.prefix_rfl⟩

theorem filter_eq_singleton {es : List Entry} {p : Entry → Bool} {e : Entry}
    (hnames : (names es).Nodup) (he : e ∈ es) (hp : p e)
    (hall : ∀ x ∈ es, p x → x.table.name = e.table.name) : es.filter p = [e] := by
  have hmem : e ∈ es.filter p := List.mem_filter.mpr ⟨he, hp⟩
  have hnodup : (names (es.filter p)).Nodup := hnames.sublist (List.filter_sublist.map _)
  have hsame (x : Entry) (hx : x ∈ es.filter p) : x.table.name = e.table.name := by
    obtain ⟨hx, hpx⟩ := List.mem_filter.mp hx
    exact hall x hx hpx
  cases hfilter : es.filter p with
  | nil =>
    rw [hfilter] at hmem
    cases hmem
  | cons x rest =>
    rw [hfilter] at hmem hnodup hsame
    cases rest with
    | nil => rw [List.mem_singleton.mp hmem]
    | cons y rest =>
      have hx := hsame x (by simp)
      have hy := hsame y (by simp)
      simp [names, hx, hy] at hnodup

theorem denoted_base {visible : List Entry} {n : String} :
    denoted visible (none, n) = some (.table none n) ↔
      (visible.filter fun e => spelling e.table.name = spelling n) = [] := by
  unfold denoted
  dsimp only
  cases visible.filter fun e => spelling e.table.name = spelling n with
  | nil => simp
  | cons x rest =>
    cases rest with
    | nil => simp [CommonTable.source]
    | cons y rest => simp

theorem denoted_common {visible : List Entry} {id : Nat} {n : String} :
    denoted visible (none, n) = some (.common id n) ↔
      ∃ e, (visible.filter fun e => spelling e.table.name = spelling n) = [e] ∧
        e.table.source = .common id n := by
  unfold denoted
  dsimp only
  cases visible.filter fun e => spelling e.table.name = spelling n with
  | nil => simp
  | cons x rest =>
    cases rest with
    | nil => simp
    | cons y rest => simp

/-- A name in the text denotes what it denotes lexically, unless it is captured. -/
theorem denoted_iff {r : Reading} (hplaced : r.Placed) (hnames : (names r.visible).Nodup) :
    denoted r.visible r.source.path = some r.source ↔ ¬ r.Captured := by
  obtain ⟨source, visible, within⟩ := r
  obtain ⟨hinView, hclear⟩ := hplaced
  dsimp only at hnames hinView hclear
  cases source with
  | table schema n =>
    cases schema with
    | some schema => simp [Reading.Captured, denoted, Source.path]
    | none =>
      simp only [Reading.Captured, Source.path, denoted_base, List.filter_eq_nil_iff]
      simp
  | common id n =>
    simp only [Reading.Captured, Source.path, denoted_common, not_or, not_exists, not_and]
    constructor
    · rintro ⟨e, hfilter, hsource⟩
      have hmem : e ∈ [e] := List.mem_singleton_self e
      rw [← hfilter] at hmem
      have hname : e.table.name = n := by
        injection hsource
      constructor
      · rw [← hsource]
        exact hclear e (List.mem_of_mem_filter hmem)
      · intro x hx hne hspelled
        have hx' : x ∈ [e] := by
          rw [← hfilter]
          exact List.mem_filter.mpr ⟨hx, decide_eq_true hspelled⟩
        rw [List.mem_singleton.mp hx'] at hne
        exact hne hname
    · rintro ⟨hnot, hother⟩
      obtain hwithin | ⟨e, he, hsource⟩ := hinView
      · exact absurd hwithin hnot
      have hname : e.table.name = n := by
        injection hsource
      refine ⟨e, filter_eq_singleton hnames he ?_ ?_, hsource⟩
      · rw [hname]
        exact decide_eq_true rfl
      · intro x hx hspelled
        rw [hname]
        by_contra hne
        exact hother x hx hne (of_decide_eq_true hspelled)

end RowGate.Sql
