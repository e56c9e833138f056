import RowGate.Proofs.Sql.RawText
import RowGate.Sql.Writer
/-!
The names that a statement takes. Namings are what writing does to names, one after another. Main
statements: namings that do not clash can be done, and those that are done have not clashed; the
names of the parameters differ from each other, also as they are written.
-/
namespace RowGate.Sql

/-- What writing a statement does to its names. -/
inductive Naming where
  /-- A label is numbered. -/
  | label (base : String)
  /-- A value gets a parameter that is named after a column. -/
  | column (column : String) (v : Value)
  /-- A value gets the parameter of a raw text. -/
  | raw (name : String) (v : Value)
  /-- A table expression is met. -/
  | table (id : Nat) (name : String)
  /-- The source of a statement is named. -/
  | source (s : Source)
  /-- The columns of two halves are counted. -/
  | halves (initial recursive : Nat)

/-- How far names have been numbered and cut. -/
structure Counter where
  counts : List (String × Nat)
  cuts : Nat

namespace Counter

/-- The next number of a name. -/
def number (c : Counter) (base : String) : Nat := (c.counts.lookup base).getD 0 + 1

/-- A name that has been numbered once more. -/
def numbered (c : Counter) (base : String) : Counter :=
  { c with counts := (base, c.number base) :: c.counts }

/-- The next name for a column, however long it is. -/
def fullName (c : Counter) (column : String) : String :=
  bindBase column ++ "_" ++ toString (c.number (bindBase column))

/-- The next name of a parameter for a column. -/
def columnName (c : Counter) (column : String) : String :=
  if (c.fullName column).length ≤ longestName then c.fullName column
  else cutName (c.fullName column) (c.cuts + 1)

/-- A name for a column that has been given out. -/
def naming (c : Counter) (column : String) : Counter :=
  if (c.fullName column).length ≤ longestName then c.numbered (bindBase column)
  else { c.numbered (bindBase column) with cuts := c.cuts + 1 }

/-- How far names are numbered after a naming. -/
def next (c : Counter) : Naming → Counter
  | .label base => c.numbered base
  | .column column _ => c.naming column
  | _ => c

/-- The name that a naming gives to a parameter, if it is one for a parameter. -/
def given (c : Counter) : Naming → List String
  | .column column _ => [c.columnName column]
  | .raw name _ => [name]
  | _ => []

/-- The names that namings give to parameters. -/
def assigned (c : Counter) : List Naming → List String
  | [] => []
  | n :: ns => c.given n ++ (c.next n).assigned ns

end Counter

/-- The names that are taken at a time. -/
structure Taken where
  counter : Counter
  names : List String
  known : List (String × Nat)
  parameters : Record

/-- The names that are taken when something has been written. -/
def Progress.taken (p : Progress) : Taken := ⟨⟨p.counts, p.cuts⟩, p.names, p.known, p.parameters⟩

namespace Taken

/-- A name that is taken for a parameter, unless it is taken already. -/
def take (t : Taken) (name : String) (v : Value) : Option Taken :=
  if t.names.contains name then none
  else some { t with
    names := name :: t.names
    parameters := t.parameters ++ [(freeName t.parameters.keys (bindName name), v)] }

/-- What is taken next, if names do not clash. -/
def next (t : Taken) : Naming → Option Taken
  | .label base => some { t with counter := t.counter.numbered base }
  | .column column v =>
    { t with counter := t.counter.naming column }.take (t.counter.columnName column) v
  | .raw name v => t.take name v
  | .table id name =>
    if (t.known.lookup name).isSome then none else some { t with known := (name, id) :: t.known }
  | .source (.table ..) => some t
  | .source (.common id name) =>
    if (t.known.lookup name).any (· != id) then none else some t
  | .halves initial recursive => if initial ≠ recursive then none else some t

/-- What is taken after one naming after another, if names do not clash. -/
def play (t : Taken) : List Naming → Option Taken
  | [] => some t
  | n :: ns => (t.next n).bind (play · ns)

theorem play_append (t : Taken) (ns ms : List Naming) :
    t.play (ns ++ ms) = (t.play ns).bind (play · ms) := by
  induction ns generalizing t with
  | nil => rfl
  | cons n ns ih =>
    rw [List.cons_append, play, play]
    cases t.next n with
    | none => rfl
    | some u => exact ih u

theorem play_single (t : Taken) (n : Naming) : t.play [n] = t.next n := by
  rw [play]
  cases t.next n <;> rfl

end Taken

/-- The table expressions that are met. -/
def met (ns : List Naming) : List (String × Nat) :=
  ns.filterMap fun | .table id name => some (name, id) | _ => none

theorem met_append (ns ms : List Naming) : met (ns ++ ms) = met ns ++ met ms :=
  List.filterMap_append

theorem perm_behind {α : Type} (as bs cs : List α) :
    ((as ++ bs) ++ cs).Perm (bs ++ (as.reverse ++ cs)) := by
  rw [List.append_assoc]
  have hreverse := (List.reverse_perm as).symm.append_right cs
  exact (List.perm_append_comm_assoc as bs cs).trans (hreverse.append_left bs)

namespace Taken

/-- A name with a number behind it is free, if the name itself is not. -/
theorem freeName_notMem (given : List String) (base : String) : freeName given base ∉ given := by
  unfold freeName
  split
  · rename_i hbase
    let numbered := (List.range given.length).map fun i => base ++ "__" ++ toString (i + 1)
    change (numbered.find? (!given.contains ·)).getD base ∉ given
    cases hfind : numbered.find? (!given.contains ·) with
    | some name => simpa using List.find?_some hfind
    | none =>
      have hall : ∀ name ∈ numbered, name ∈ given := by simpa using List.find?_eq_none.mp hfind
      have hnodup : numbered.Nodup := by
        apply List.nodup_range.map
        intro i j h
        have hsucc := (numbered_inj (base ++ "__")).mp h
        omega
      have hother : base ∉ numbered := by
        intro hmem
        obtain ⟨i, -, hi⟩ := List.mem_map.mp hmem
        have hlength := congrArg String.length hi
        have hmark : "__".length = 2 := rfl
        simp only [String.length_append] at hlength
        omega
      have hsub : base :: numbered ⊆ given :=
        List.cons_subset.mpr ⟨List.contains_iff_mem.mp hbase, hall⟩
      have hle := (List.Nodup.subperm (List.nodup_cons.mpr ⟨hother, hnodup⟩) hsub).length_le
      simp [numbered] at hle
  · rename_i hfree
    simpa using hfree

/-- What is taken after some namings that do not clash. -/
structure Grows (ns : List Naming) (t u : Taken) : Prop where
  names : u.names = (t.counter.assigned ns).reverse ++ t.names
  known : u.known = (met ns).reverse ++ t.known
  apart : t.names.Nodup → u.names.Nodup
  distinct : (t.known.map Prod.fst).Nodup → (u.known.map Prod.fst).Nodup
  halves : ∀ i r, .halves i r ∈ ns → i = r
  parameters : t.parameters <+: u.parameters
  keys : t.parameters.keys.Nodup → u.parameters.keys.Nodup

theorem take_eq_some {t u : Taken} {name : String} {v : Value} (h : t.take name v = some u) :
    name ∉ t.names ∧ u = { t with
      names := name :: t.names
      parameters := t.parameters ++ [(freeName t.parameters.keys (bindName name), v)] } := by
  unfold take at h
  split at h
  · cases h
  · rename_i hfree
    exact ⟨by simpa using hfree, (Option.some.inj h).symm⟩

theorem Grows.single {t u : Taken} {n : Naming} (hgiven : t.counter.given n = [])
    (hnames : u.names = t.names) (hparameters : u.parameters = t.parameters)
    (hknown : u.known = met [n] ++ t.known)
    (hdistinct : (t.known.map Prod.fst).Nodup → ((met [n] ++ t.known).map Prod.fst).Nodup)
    (hhalves : ∀ i r, n = .halves i r → i = r) : Grows [n] t u := by
  constructor
  · simp [Counter.assigned, hgiven, hnames]
  · rw [hknown]
    cases n <;> rfl
  · rw [hnames]
    exact id
  · rw [hknown]
    exact hdistinct
  · exact fun i r hmem => hhalves i r (List.mem_singleton.mp hmem).symm
  · rw [hparameters]
  · rw [hparameters]
    exact id

theorem grows_take {t u : Taken} {name : String} {v : Value} {n : Naming}
    (hgiven : t.counter.given n = [name]) (hmet : met [n] = []) (hhalves : ∀ i r, n ≠ .halves i r)
    (c : Counter) (h : { t with counter := c }.take name v = some u) :
    u.counter = c ∧ Grows [n] t u := by
  obtain ⟨hfree, rfl⟩ := take_eq_some h
  refine ⟨rfl, ?_⟩
  constructor
  · simp [Counter.assigned, hgiven]
  · rw [hmet]
    rfl
  · exact fun hnodup => List.nodup_cons.mpr ⟨hfree, hnodup⟩
  · exact id
  · intro i r hmem
    exact absurd (List.mem_singleton.mp hmem).symm (hhalves i r)
  · exact List.prefix_append _ _
  · intro hkeys
    have hname := freeName_notMem t.parameters.keys (bindName name)
    simp only [Record.keys, List.map_append, List.map_cons, List.map_nil] at hkeys hname ⊢
    apply List.nodup_append.mpr
    refine ⟨hkeys, List.pairwise_singleton _ _, ?_⟩
    rintro a ha b hb rfl
    rw [List.mem_singleton.mp hb] at ha
    exact hname ha

theorem grows_next {t u : Taken} {n : Naming} (h : t.next n = some u) :
    u.counter = t.counter.next n ∧ Grows [n] t u := by
  cases n with
  | label base =>
    cases h
    exact ⟨rfl, .single rfl rfl rfl rfl (fun h => h) nofun⟩
  | column column v =>
    simp only [next] at h
    exact grows_take rfl rfl (by simp) _ h
  | raw name v =>
    simp only [next] at h
    exact grows_take rfl rfl (by simp) _ h
  | table id name =>
    simp only [next] at h
    split at h
    · cases h
    · rename_i hnew
      cases h
      refine ⟨rfl, .single rfl rfl rfl rfl ?_ nofun⟩
      intro hnodup
      apply List.nodup_cons.mpr ⟨?_, hnodup⟩
      intro hmem
      obtain ⟨x, hx, hname⟩ := List.mem_map.mp hmem
      have hnone : t.known.lookup name = none := Option.not_isSome_iff_eq_none.mp hnew
      have hkeys := List.lookup_eq_none_iff.mp hnone x hx
      simp [hname] at hkeys
  | source s =>
    cases s with
    | table schema name =>
      cases h
      exact ⟨rfl, .single rfl rfl rfl rfl (fun h => h) nofun⟩
    | common id name =>
      simp only [next] at h
      split at h
      · cases h
      · cases h
        exact ⟨rfl, .single rfl rfl rfl rfl (fun h => h) nofun⟩
  | halves i r =>
    simp only [next] at h
    split at h
    · cases h
    · rename_i hsame
      cases h
      refine ⟨rfl, .single rfl rfl rfl rfl id ?_⟩
      rintro i r ⟨⟩
      exact not_not.mp hsame

theorem Grows.nil (t : Taken) : Grows [] t t :=
  ⟨rfl, rfl, id, id, nofun, List.prefix_refl _, id⟩

theorem Grows.trans {ns ms : List Naming} {t u w : Taken} (h : Grows ns t u) (h' : Grows ms u w)
    (hcounter : t.counter.assigned (ns ++ ms) =
      t.counter.assigned ns ++ u.counter.assigned ms) : Grows (ns ++ ms) t w := by
  constructor
  · rw [h'.names, h.names, hcounter, List.reverse_append, List.append_assoc]
  · rw [h'.known, h.known, met_append, List.reverse_append, List.append_assoc]
  · exact fun hnames => h'.apart (h.apart hnames)
  · exact fun hknown => h'.distinct (h.distinct hknown)
  · intro i r hmem
    exact (List.mem_append.mp hmem).elim (h.halves i r) (h'.halves i r)
  · exact h.parameters.trans h'.parameters
  · exact fun hkeys => h'.keys (h.keys hkeys)

/-- Namings that do not clash take their names. -/
theorem grows_play {t u : Taken} {ns : List Naming} (h : t.play ns = some u) : Grows ns t u := by
  induction ns generalizing t with
  | nil =>
    cases h
    exact .nil _
  | cons n ns ih =>
    rw [play] at h
    obtain ⟨w, hw, hrest⟩ := Option.bind_eq_some_iff.mp h
    obtain ⟨hcounter, hgrows⟩ := grows_next hw
    apply hgrows.trans (ih hrest)
    simp [Counter.assigned, hcounter]

/-- Namings that do not clash with each other, nor with what is taken. -/
structure Apart (ns : List Naming) (t : Taken) : Prop where
  names : (t.counter.assigned ns ++ t.names).Nodup
  known : ((met ns ++ t.known).map Prod.fst).Nodup
  halves : ∀ i r, .halves i r ∈ ns → i = r
  sources : ∀ id name, .source (.common id name) ∈ ns → (name, id) ∈ met ns ++ t.known

theorem exists_take {t : Taken} {name : String} (h : name ∉ t.names) (v : Value) :
    ∃ u, t.take name v = some u :=
  ⟨_, if_neg (by simpa using h)⟩

theorem Apart.exists_next {n : Naming} {ns : List Naming} {t : Taken} (h : Apart (n :: ns) t) :
    ∃ u, t.next n = some u := by
  have hgiven : ∀ name ∈ t.counter.given n, name ∉ t.names := by
    intro name hname htaken
    have hnames := h.names
    rw [Counter.assigned, List.append_assoc] at hnames
    have hdisjoint := (List.nodup_append.mp hnames).2.2
    exact hdisjoint name hname name (List.mem_append_right _ htaken) rfl
  cases n with
  | label base => exact ⟨_, rfl⟩
  | column column v =>
    simp only [next]
    exact exists_take (t := { t with counter := t.counter.naming column })
      (hgiven _ (List.mem_singleton_self _)) v
  | raw name v =>
    simp only [next]
    exact exists_take (hgiven _ (List.mem_singleton_self _)) v
  | table id name =>
    simp only [next]
    have hknown : name ∉ (met ns ++ t.known).map Prod.fst := (List.nodup_cons.mp h.known).1
    have hnone : t.known.lookup name = none := by
      apply List.lookup_eq_none_iff.mpr
      intro x hx
      have hne : name ≠ x.1 := by
        rintro rfl
        exact hknown (List.mem_map_of_mem (List.mem_append_right _ hx))
      simpa using hne
    rw [hnone]
    exact ⟨_, rfl⟩
  | source s =>
    cases s with
    | table schema name => exact ⟨_, rfl⟩
    | common id name =>
      simp only [next]
      have hmet := h.sources id name List.mem_cons_self
      cases hlook : t.known.lookup name with
      | none => exact ⟨_, rfl⟩
      | some other =>
        obtain ⟨before, after, hsplit, -⟩ := List.lookup_eq_some_iff.mp hlook
        have hother : (name, other) ∈ met (.source (.common id name) :: ns) ++ t.known := by
          apply List.mem_append_right
          simp [hsplit]
        have heq := List.inj_on_of_nodup_map h.known hother hmet rfl
        cases heq
        simp
  | halves i r =>
    simp only [next]
    have hsame := h.halves i r List.mem_cons_self
    exact ⟨t, if_neg (not_not.mpr hsame)⟩

theorem Apart.next {n : Naming} {ns : List Naming} {t u : Taken} (h : Apart (n :: ns) t)
    (hu : t.next n = some u) : Apart ns u := by
  obtain ⟨hcounter, hgrows⟩ := grows_next hu
  have hmet : met (n :: ns) = met [n] ++ met ns := met_append [n] ns
  have hperm : (met (n :: ns) ++ t.known).Perm (met ns ++ u.known) := by
    rw [hmet, hgrows.known]
    exact perm_behind _ _ _
  constructor
  · have hnames := h.names
    have hsingle : t.counter.assigned [n] = t.counter.given n := List.append_nil _
    rw [hgrows.names, hcounter, hsingle]
    exact (perm_behind _ _ _).nodup_iff.mp hnames
  · exact (hperm.map Prod.fst).nodup_iff.mp h.known
  · exact fun i r hmem => h.halves i r (List.mem_cons_of_mem n hmem)
  · intro id name hmem
    exact hperm.mem_iff.mp (h.sources id name (List.mem_cons_of_mem n hmem))

/-- Namings that do not clash can be done. -/
theorem exists_play {ns : List Naming} {t : Taken} (h : Apart ns t) : ∃ u, t.play ns = some u := by
  induction ns generalizing t with
  | nil => exact ⟨t, rfl⟩
  | cons n ns ih =>
    obtain ⟨w, hw⟩ := h.exists_next
    obtain ⟨u, hu⟩ := ih (h.next hw)
    exact ⟨u, Option.bind_eq_some_iff.mpr ⟨w, hw, hu⟩⟩

end Taken

end RowGate.Sql
