import RowGate.Proofs.Sql.Counts
import RowGate.Proofs.Sql.RawText
/-!
Fragments of raw text as they are written. Main statement: a fragment whose question marks stand
apart is written with a parameter for each of its values, in order, and is the given text with those
parameters in place of the question marks exactly if its colons are kept.
-/
namespace RowGate.Sql

open Writing

/-- The values of a fragment under the names of its parameters. -/
def boundValues (names : List String) (bindings : List Value) : Record :=
  List.zipWith (fun n v => (n, (rawBinding n v).value)) names bindings

/-- The parameters of a fragment as they stand in the text. -/
def parameterTexts (names : List String) (bindings : List Value) : List (List Char) :=
  List.zipWith (fun n v => (rawBinding n v).parameter.toList) names bindings

/-- The text of raw text, and the parameters that are added for it. -/
def RawText.IsWritten (r : RawText) (w : Written) : Prop :=
  ∃ p p', (raw .bound r).run p = .ok (w.sql, p') ∧ p'.parameters = p.parameters ++ w.parameters

/-- The text of a part. -/
def RawText.part (r : RawText) : RawPart → Writing (List Char)
  | .char c => return [c]
  | .name n =>
    match r.binding? n with
    | some b => return (← rawValue .bound b).toList
    | none => return ':' :: n.toList

theorem raw_eq (r : RawText) : raw .bound r = (do
    let parts ← r.parts.mapM r.part
    return String.ofList (unescapeColons parts.flatten)) := by
  have hpart : r.part = fun
      | .char c => return [c]
      | .name n =>
        match r.binding? n with
        | some b => return (← rawValue .bound b).toList
        | none => return ':' :: n.toList := by
    funext part
    cases part <;> rfl
  rw [hpart]
  rfl

section Parts

variable {p p' : Progress}

/-- The text of a value depends on its name only by that name. -/
theorem rawBinding_named (n m : String) (v : Value) :
    { rawBinding n v with name := m } = rawBinding m v := by
  cases v <;> rfl

theorem rawBinding_name (n : String) (v : Value) : (rawBinding n v).name = n := by
  cases v <;> rfl

theorem name_of_take {name n : String} {v : Value} (h : (take name v).run p = .ok (n, p')) :
    n = freeName p.parameters.keys (bindName name) := by
  unfold take at h
  obtain ⟨q, _, hget, h⟩ := run_sequence_eq_ok.mp h
  cases hget
  split at h
  · cases h
  · cases h
    rfl

/-- The parameter of a value. -/
theorem rawValue_eq_ok {name text : String} {v : Value}
    (h : (rawValue .bound (rawBinding name v)).run p = .ok (text, p')) :
    ∃ n, n = freeName p.parameters.keys (bindName name) ∧ text = (rawBinding n v).parameter ∧
      p'.parameters = p.parameters ++ [(n, (rawBinding n v).value)] := by
  unfold rawValue at h
  obtain ⟨n, q, htake, h⟩ := run_sequence_eq_ok.mp h
  have hname := name_of_take htake
  have hparameters := parameters_take htake
  have hvalue : (rawBinding n v).value = (rawBinding name v).value := by
    rw [← rawBinding_named name n v]
  rw [rawBinding_named] at h
  cases h
  refine ⟨n, ?_, rfl, ?_⟩
  · rw [hname, rawBinding_name]
  · rw [hparameters, hvalue]

theorem chars_eq_ok {r : RawText} {cs : List Char} {pieces : List (List Char)}
    (h : ((cs.map RawPart.char).mapM r.part).run p = .ok (pieces, p')) :
    pieces.flatten = cs ∧ p' = p := by
  induction cs generalizing pieces p with
  | nil =>
    cases h
    exact ⟨rfl, rfl⟩
  | cons c cs ih =>
    rw [List.map_cons, List.mapM_cons] at h
    obtain ⟨_, q, hchar, h⟩ := run_sequence_eq_ok.mp h
    cases hchar
    obtain ⟨rest, q', hrest, h⟩ := run_sequence_eq_ok.mp h
    cases h
    obtain ⟨hflatten, rfl⟩ := ih hrest
    exact ⟨congrArg (c :: ·) hflatten, rfl⟩

theorem mapM_append_eq_ok {α β : Type} {f : α → Writing β} {as bs : List α} {cs : List β}
    (h : ((as ++ bs).mapM f).run p = .ok (cs, p')) :
    ∃ ds q es, (as.mapM f).run p = .ok (ds, q) ∧ (bs.mapM f).run q = .ok (es, p') ∧
      cs = ds ++ es := by
  rw [List.mapM_append] at h
  obtain ⟨ds, q, hfirst, h⟩ := run_sequence_eq_ok.mp h
  obtain ⟨es, q', hsecond, h⟩ := run_sequence_eq_ok.mp h
  cases h
  exact ⟨ds, q, es, hfirst, hsecond, rfl⟩

/-! ## Names of parameters -/

theorem plain_bindName {s : String} (h : '\\' ∉ s.toList) : '\\' ∉ (bindName s).toList := by
  rw [bindName, String.toList_ofList]
  intro hmem
  obtain ⟨c, hc, hchar⟩ := List.mem_map.mp hmem
  have hsame : c = '\\' := by
    unfold bindChar at hchar
    split_ifs at hchar <;> first | exact hchar | cases hchar
  exact h (hsame ▸ hc)

theorem plain_freeName {base : String} (h : '\\' ∉ base.toList) (given : List String) :
    '\\' ∉ (freeName given base).toList := by
  have hnumber (k : Nat) : '\\' ∉ (base ++ "__" ++ toString k).toList := by
    rw [String.toList_append, String.toList_append]
    intro hmem
    rcases List.mem_append.mp hmem with hfront | hdigit
    · rcases List.mem_append.mp hfront with hbase | hmark
      · exact h hbase
      · revert hmark
        decide
    · have hisDigit := Number.allDigits_natText k _ hdigit
      revert hisDigit
      decide
  unfold freeName
  split
  · dsimp only
    cases hfind : ((List.range given.length).map fun i => base ++ "__" ++ toString (i + 1)).find?
      (!given.contains ·) with
    | none => exact h
    | some name =>
      obtain ⟨i, -, rfl⟩ := List.mem_map.mp (List.mem_of_find?_eq_some hfind)
      exact hnumber (i + 1)
  · exact h

theorem plain_of_areNames {names : List String} (h : AreNames names) :
    ∀ n ∈ names, '\\' ∉ n.toList := by
  intro n hn hmem
  have hword := (h n hn).2 _ hmem
  rw [isWord_backslash] at hword
  cases hword

theorem plain_parameterTexts {names : List String} (h : ∀ n ∈ names, '\\' ∉ n.toList)
    (bindings : List Value) : ∀ text ∈ parameterTexts names bindings, '\\' ∉ text := by
  induction names generalizing bindings with
  | nil => exact List.forall_mem_nil _
  | cons n names ih =>
    obtain ⟨hn, hnames⟩ := List.forall_mem_cons.mp h
    cases bindings with
    | nil => exact List.forall_mem_nil _
    | cons v bindings =>
      rw [parameterTexts, List.zipWith_cons_cons, ← parameterTexts, List.forall_mem_cons]
      constructor
      · have hname : (rawBinding n v).name = n := rawBinding_name n v
        unfold RawBinding.parameter single several
        rw [hname]
        split <;> simp [hn]
      · exact ih hnames bindings

/-! ## Fragments -/

/-- Text with parameters for its question marks is written with their values. -/
theorem named_eq_ok {r : RawText} {names : List String} {bindings : List Value} {cs : List Char}
    {pieces : List (List Char)}
    (hfound : ∀ x ∈ names.zip bindings, r.binding? x.1 = some (rawBinding x.1 x.2))
    (hplain : ∀ n ∈ names, '\\' ∉ n.toList) (hlength : names.length = bindings.length)
    (hcount : names.length = cs.count '?')
    (h : ((named names cs).mapM r.part).run p = .ok (pieces, p')) :
    ∃ ns : List String, ns.length = bindings.length ∧ (∀ n ∈ ns, '\\' ∉ n.toList) ∧
      pieces.flatten ++ [')'] = filled (parameterTexts ns bindings) cs ∧
      p'.parameters = p.parameters ++ boundValues ns bindings := by
  induction cs generalizing names bindings p pieces with
  | nil =>
    obtain rfl : names = [] := List.eq_nil_of_length_eq_zero hcount
    obtain rfl : bindings = [] := List.eq_nil_of_length_eq_zero hlength.symm
    cases h
    exact ⟨[], rfl, List.forall_mem_nil _, rfl, (List.append_nil _).symm⟩
  | cons c cs ih =>
    by_cases hhole : c = '?'
    · subst hhole
      match names, bindings, hlength with
      | [], _, _ => simp at hcount
      | n :: names, v :: bindings, hlength =>
        rw [List.zip_cons_cons] at hfound
        obtain ⟨hfirst, hfound⟩ := List.forall_mem_cons.mp hfound
        obtain ⟨hn, hplain⟩ := List.forall_mem_cons.mp hplain
        rw [named_hole, List.mapM_cons] at h
        obtain ⟨text, q, htext, h⟩ := run_sequence_eq_ok.mp h
        obtain ⟨rest, q', hrest, h⟩ := run_sequence_eq_ok.mp h
        cases h
        unfold RawText.part at htext
        dsimp only at hfirst htext
        rw [hfirst] at htext
        obtain ⟨written, q', hwritten, htext⟩ := run_sequence_eq_ok.mp htext
        cases htext
        obtain ⟨m, hm, rfl, hparameters⟩ := rawValue_eq_ok hwritten
        obtain ⟨ns, hns, hplains, hflatten, hadded⟩ := ih hfound hplain (Nat.succ.inj hlength)
          (by simpa using hcount) hrest
        refine ⟨m :: ns, congrArg (· + 1) hns, ?_, ?_, ?_⟩
        · rw [hm]
          exact List.forall_mem_cons.mpr ⟨plain_freeName (plain_bindName hn) _, hplains⟩
        · rw [parameterTexts, List.zipWith_cons_cons, filled_hole, ← parameterTexts, ← hflatten,
            List.flatten_cons, List.append_assoc]
        · rw [hadded, hparameters, List.append_assoc]
          rfl
    · rw [named_char names hhole, List.mapM_cons] at h
      obtain ⟨_, q, hchar, h⟩ := run_sequence_eq_ok.mp h
      cases hchar
      obtain ⟨rest, q', hrest, h⟩ := run_sequence_eq_ok.mp h
      cases h
      rw [List.count_cons_of_ne hhole] at hcount
      obtain ⟨ns, hns, hplains, hflatten, hadded⟩ := ih hfound hplain hlength hcount hrest
      refine ⟨ns, hns, hplains, ?_, hadded⟩
      rw [filled_char _ hhole, ← hflatten]
      rfl

/-- The parameters of a fragment are found by their names. -/
theorem binding?_zip {names : List String} (hnames : names.Nodup) {bindings : List Value}
    {text : List Char} : ∀ x ∈ names.zip bindings,
      (⟨text, List.zipWith rawBinding names bindings⟩ : RawText).binding? x.1 =
        some (rawBinding x.1 x.2) := by
  unfold RawText.binding?
  dsimp only
  induction names generalizing bindings with
  | nil => exact List.forall_mem_nil _
  | cons n names ih =>
    obtain ⟨hn, hnames⟩ := List.nodup_cons.mp hnames
    cases bindings with
    | nil => exact List.forall_mem_nil _
    | cons v bindings =>
      rw [List.zip_cons_cons, List.zipWith_cons_cons, List.forall_mem_cons]
      constructor
      · simp [rawBinding_name]
      · intro x hx
        have hother : n ≠ x.1 := by
          rintro rfl
          exact hn (List.of_mem_zip hx).1
        rw [List.find?_cons_of_neg (by simpa [rawBinding_name] using hother)]
        exact ih hnames x hx

/-- A fragment whose question marks stand apart is written with parameters for its values, and is
the given text with those parameters exactly if its colons are kept. -/
theorem fragment_written {opening sql : String} {bindings : List Value} {first : Nat} {r : RawText}
    {w : Written} (hopening : IsOpening opening) (hcount : sql.toList.count '?' = bindings.length)
    (hapart : standsApart none sql.toList = true)
    (hr : RawText.of first opening sql bindings = .ok r) (hw : r.IsWritten w) :
    ∃ names : List String, names.length = bindings.length ∧
      w.parameters = boundValues names bindings ∧
      (w.sql.toList = opening.toList ++ filled (parameterTexts names bindings) sql.toList ↔
        keepsColons none sql.toList = true) := by
  obtain ⟨htext, hbindings⟩ := of_eq_ok hcount hr
  have hparts : r.parts = fragmentParts opening (rawNames first bindings.length) sql.toList := by
    rw [RawText.parts, htext]
    exact (fragment_parts first hopening hcount).mpr hapart
  have hnames : (rawNames first bindings.length).length =
      (escapeColons none sql.toList).count '?' := by
    rw [length_rawNames, count_escapeColons, hcount]
  have hfound : ∀ x ∈ (rawNames first bindings.length).zip bindings,
      r.binding? x.1 = some (rawBinding x.1 x.2) := by
    intro x hx
    have hzip := @binding?_zip _ (nodup_rawNames first bindings.length) bindings r.text x hx
    rwa [← hbindings] at hzip
  obtain ⟨p, p', hrun, hadded⟩ := hw
  rw [raw_eq, hparts, fragmentParts] at hrun
  obtain ⟨pieces, q, hpieces, hdone⟩ := run_sequence_eq_ok.mp hrun
  obtain ⟨front, q₁, closing, hfront, hlast, rfl⟩ := mapM_append_eq_ok hpieces
  obtain ⟨before, q₂, middle, hhead, hmiddle, rfl⟩ := mapM_append_eq_ok hfront
  obtain ⟨hbefore, rfl⟩ := chars_eq_ok hhead
  obtain ⟨hclosing, rfl⟩ : closing.flatten = [')'] ∧ q = q₁ := chars_eq_ok hlast
  obtain ⟨names, hlength, hplain, hflatten, hparameters⟩ := named_eq_ok hfound
    (plain_of_areNames (areNames_rawNames _ _)) (length_rawNames _ _) hnames hmiddle
  obtain ⟨hsql, rfl⟩ := Prod.mk.inj (Except.ok.inj hdone)
  have hlist : w.sql.toList = opening.toList ++
      unescapeColons (filled (parameterTexts names bindings) (escapeColons none sql.toList)) := by
    rw [← hsql, String.toList_ofList, List.flatten_append, List.flatten_append, hbefore, hclosing,
      List.append_assoc, hflatten, unescapeColons_plain hopening.unescaped]
  have htexts : (parameterTexts names bindings).length = sql.toList.count '?' := by
    rw [parameterTexts, List.length_zipWith, hlength, Nat.min_self, hcount]
  refine ⟨names, hlength, ?_, ?_⟩
  · rw [hadded] at hparameters
    exact List.append_cancel_left hparameters
  · rw [hlist, List.append_cancel_left_eq]
    exact unescapeColons_filled (plain_parameterTexts hplain bindings) htexts hapart

end Parts

end RowGate.Sql
