import Mathlib
import RowGate.Text.Case
/-!
Case is settled by one change. Main statements: a text in lower case is its own lower case form, a
text in upper case its own upper case form, and neither change empties a text.
-/
namespace RowGate.Text

/-! ## Images of runs -/

/-- The code points that a run maps to, as a run that moves nothing. -/
def CaseRun.image (r : CaseRun) : CaseRun :=
  ⟨(r.first + r.shift).toNat, (r.last + r.shift).toNat, r.step, 0⟩

/-- No code point is in both of two runs: they lie apart, or alternate. -/
def CaseRun.isApart (i r : CaseRun) : Bool :=
  Nat.blt i.last r.first || (Nat.blt r.last i.first ||
    (Nat.beq r.step 2 && (Nat.beq i.step 2 || Nat.beq i.first i.last) &&
      Nat.beq ((i.first + r.first) % 2) 1))

/-- Code points that belong to a run. -/
def CaseRun.Has (r : CaseRun) (n : Nat) : Prop :=
  r.first ≤ n ∧ n ≤ r.last ∧ (n - r.first) % r.step = 0

instance (r : CaseRun) (n : Nat) : Decidable (r.Has n) :=
  inferInstanceAs (Decidable (_ ∧ _ ∧ _))

theorem CaseRun.has_of_map? {r : CaseRun} {n m : Nat} (h : r.map? n = some m) :
    r.Has n ∧ m = (n + r.shift).toNat := by
  unfold CaseRun.map? at h
  split at h
  · rename_i hn
    exact ⟨hn, (Option.some.inj h).symm⟩
  · cases h

theorem CaseRun.has_image {r : CaseRun} (hshift : 0 ≤ r.first + r.shift) {n m : Nat}
    (h : r.map? n = some m) : r.image.Has m := by
  obtain ⟨⟨hfirst, hlast, hstep⟩, rfl⟩ := has_of_map? h
  have hsame : (n + r.shift).toNat - (r.first + r.shift).toNat = n - r.first := by omega
  refine ⟨?_, ?_, ?_⟩
  · change (r.first + r.shift).toNat ≤ (n + r.shift).toNat
    omega
  · change (n + r.shift).toNat ≤ (r.last + r.shift).toNat
    omega
  · change ((n + r.shift).toNat - (r.first + r.shift).toNat) % r.step = 0
    rw [hsame, hstep]

theorem CaseRun.not_has_of_isApart {i r : CaseRun} (h : i.isApart r = true) {n : Nat} (hi : i.Has n) :
    ¬ r.Has n := by
  rintro ⟨hfirst, hlast, hstep⟩
  obtain ⟨hifirst, hilast, histep⟩ := hi
  simp only [isApart, Bool.or_eq_true, Bool.and_eq_true, Nat.blt_eq, Nat.beq_eq] at h
  rcases h with h | h | ⟨⟨hr, hi⟩, hodd⟩
  · omega
  · omega
  · rw [hr] at hstep
    rcases hi with hi | hi
    · rw [hi] at histep
      omega
    · omega

/-! ## Case forms -/

/-- The case form of a character by tables, where characters of the first 128 have a form of their
own. -/
def caseForm (plain : Char → Char) (runs : List CaseRun) (expansions : List (Nat × List Nat))
    (c : Char) : List Char :=
  if c.toNat < 128 then [plain c] else mapCase runs expansions c

section

variable {plain : Char → Char} {runs : List CaseRun} {expansions : List (Nat × List Nat)}

/-- The characters of a run are their own case forms: they are in no table. -/
def isSettled (plain : Char → Char) (runs : List CaseRun) (expansions : List (Nat × List Nat))
    (i : CaseRun) : Bool :=
  if i.first < 128 then
    i.first == i.last && plain (Char.ofNat i.first) == Char.ofNat i.first
  else
    (decide (i.last < 0xd800) || (decide (0xdfff < i.first) && decide (i.last < 0x110000))) &&
      runs.all i.isApart && expansions.all fun e => Nat.blt e.1 i.first || Nat.blt i.last e.1

theorem caseForm_of_isSettled {i : CaseRun} (h : isSettled plain runs expansions i = true) {n : Nat}
    (hn : i.Has n) : caseForm plain runs expansions (Char.ofNat n) = [Char.ofNat n] := by
  unfold isSettled at h
  split at h
  · rename_i hfirst
    rw [Bool.and_eq_true, beq_iff_eq, beq_iff_eq] at h
    obtain rfl : n = i.first := le_antisymm (h.1 ▸ hn.2.1) hn.1
    have hsmall : (Char.ofNat i.first).toNat < 128 := by
      rw [Char.toNat_ofNat, if_pos (.inl (by omega))]
      exact hfirst
    rw [caseForm, if_pos hsmall, h.2]
  · rename_i hfirst
    simp only [Bool.and_eq_true, Bool.or_eq_true, decide_eq_true_eq, List.all_eq_true,
      Nat.blt_eq] at h
    obtain ⟨⟨hvalid, happart⟩, hexpansions⟩ := h
    obtain ⟨hlow, hhigh, hstep⟩ := hn
    have hcode : (Char.ofNat n).toNat = n := by
      rw [Char.toNat_ofNat, if_pos]
      rcases hvalid with hvalid | hvalid
      · exact .inl (by omega)
      · exact .inr (by omega)
    have hruns : runs.findSome? (·.map? n) = none := by
      rw [List.findSome?_eq_none_iff]
      intro r hr
      exact if_neg (CaseRun.not_has_of_isApart (happart r hr) ⟨hlow, hhigh, hstep⟩)
    have hlookup : expansions.lookup n = none := by
      rw [List.lookup_eq_none_iff]
      intro e he
      have := hexpansions e he
      simp only [bne_iff_ne, ne_eq]
      omega
    rw [caseForm, if_neg (by omega), mapCase, hcode, hruns]
    simp only [hlookup]

/-- Tables lead to settled characters only. -/
structure Settles (plain : Char → Char) (runs : List CaseRun)
    (expansions : List (Nat × List Nat)) : Prop where
  ofPlain : ((List.range 128).all fun n => decide ((plain (Char.ofNat n)).toNat < 128) &&
    plain (plain (Char.ofNat n)) == plain (Char.ofNat n)) = true
  ofRuns : (runs.all fun r => decide (r.last < 128) ||
    (decide (0 ≤ r.first + r.shift) && isSettled plain runs expansions r.image)) = true
  ofExpansions : (expansions.all fun e => !e.2.isEmpty &&
    e.2.all fun n => isSettled plain runs expansions ⟨n, n, 1, 0⟩) = true

theorem Settles.expansion (h : Settles plain runs expansions) {n : Nat} {ns : List Nat}
    (hlookup : expansions.lookup n = some ns) :
    (!ns.isEmpty) = true ∧ (ns.all fun n => isSettled plain runs expansions ⟨n, n, 1, 0⟩) = true := by
  obtain ⟨before, after, hsplit, -⟩ := List.lookup_eq_some_iff.mp hlookup
  have hmem : (n, ns) ∈ expansions := by simp [hsplit]
  exact Bool.and_eq_true_iff.mp (List.all_eq_true.mp h.ofExpansions _ hmem)

theorem Settles.caseForm_eq (h : Settles plain runs expansions) {c d : Char}
    (hd : d ∈ caseForm plain runs expansions c) : caseForm plain runs expansions d = [d] := by
  by_cases hc : c.toNat < 128
  · rw [caseForm, if_pos hc, List.mem_singleton] at hd
    have hplain := List.all_eq_true.mp h.ofPlain c.toNat (List.mem_range.mpr hc)
    rw [Char.ofNat_toNat, Bool.and_eq_true, decide_eq_true_eq, beq_iff_eq, ← hd] at hplain
    rw [caseForm, if_pos hplain.1, hplain.2]
  have hform : caseForm plain runs expansions c = mapCase runs expansions c := if_neg hc
  rw [hform, mapCase] at hd
  cases hrun : runs.findSome? (·.map? c.toNat) with
  | some n =>
    simp only [hrun, List.mem_singleton] at hd
    obtain ⟨r, hr, hmap⟩ := List.exists_of_findSome?_eq_some hrun
    have hsettled := List.all_eq_true.mp h.ofRuns r hr
    have hlast := (CaseRun.has_of_map? hmap).1.2.1
    rw [Bool.or_eq_true, Bool.and_eq_true, decide_eq_true_eq, decide_eq_true_eq] at hsettled
    obtain ⟨hshift, hsettled⟩ := hsettled.resolve_left (by omega)
    rw [hd]
    exact caseForm_of_isSettled hsettled (CaseRun.has_image hshift hmap)
  | none =>
    cases hlookup : expansions.lookup c.toNat with
    | some ns =>
      simp only [hrun, hlookup, List.mem_map] at hd
      obtain ⟨n, hn, rfl⟩ := hd
      have hsettled := List.all_eq_true.mp (h.expansion hlookup).2 n hn
      refine caseForm_of_isSettled hsettled ⟨le_rfl, le_rfl, ?_⟩
      exact Nat.mod_one _
    | none =>
      simp only [hrun, hlookup, List.mem_singleton] at hd
      rw [hd, hform, mapCase, hrun]
      simp only [hlookup]

theorem Settles.caseForm_ne_nil (h : Settles plain runs expansions) (c : Char) :
    caseForm plain runs expansions c ≠ [] := by
  unfold caseForm
  split
  · exact List.cons_ne_nil _ _
  · unfold mapCase
    split
    · exact List.cons_ne_nil _ _
    · split
      · rename_i ns hlookup
        simpa using (h.expansion hlookup).1
      · exact List.cons_ne_nil _ _

end

theorem lower_settles : Settles Char.toLower lowerRuns lowerExpansions where
  ofPlain := by decide +kernel
  ofRuns := by decide +kernel
  ofExpansions := by decide +kernel

theorem upper_settles : Settles Char.toUpper upperRuns upperExpansions where
  ofPlain := by decide +kernel
  ofRuns := by decide +kernel
  ofExpansions := by decide +kernel

/-! ## Texts -/

theorem ofList_eq_empty {cs : List Char} : String.ofList cs = "" ↔ cs = [] := by
  constructor
  · intro h
    simpa using congrArg String.toList h
  · rintro rfl
    rfl

theorem toList_ne_nil {s : String} (h : s ≠ "") : s.toList ≠ [] := by
  intro hnil
  rw [← String.ofList_toList (s := s), hnil] at h
  exact h rfl

theorem upper_upper (s : String) : upper (upper s) = upper s := by
  have hkept (cs : List Char) (h : ∀ c ∈ cs, upperChar c = [c]) : cs.flatMap upperChar = cs := by
    induction cs with
    | nil => rfl
    | cons c cs ih =>
      rw [List.flatMap_cons, h c List.mem_cons_self,
        ih fun d hd => h d (List.mem_cons_of_mem c hd)]
      rfl
  unfold upper
  rw [String.toList_ofList, hkept]
  intro c hc
  obtain ⟨d, -, hd⟩ := List.mem_flatMap.mp hc
  exact upper_settles.caseForm_eq hd

theorem upper_ne_empty {s : String} (h : s ≠ "") : upper s ≠ "" := by
  obtain ⟨c, cs, hs⟩ := List.exists_cons_of_ne_nil (toList_ne_nil h)
  unfold upper
  rw [ne_eq, ofList_eq_empty, hs, List.flatMap_cons, List.append_eq_nil_iff]
  exact fun hnil => upper_settles.caseForm_ne_nil c hnil.1

/-- Lower case keeps a character, whatever stands around it. -/
def IsLower (c : Char) : Prop := lowerChar c = [c] ∧ c ≠ 'Σ'

theorem isLower_of_mem {c d : Char} (h : d ∈ lowerChar c) : IsLower d := by
  have hkept : lowerChar d = [d] := lower_settles.caseForm_eq h
  refine ⟨hkept, ?_⟩
  rintro rfl
  have hsigma : lowerChar 'Σ' = ['σ'] := by decide
  rw [hsigma] at hkept
  exact absurd hkept (by decide)

theorem isLower_lowerFrom (before cs : List Char) : ∀ c ∈ lowerFrom before cs, IsLower c := by
  induction cs generalizing before with
  | nil => simp [lowerFrom]
  | cons c cs ih =>
    intro d hd
    rw [lowerFrom, List.mem_append] at hd
    rcases hd with hd | hd
    · split at hd
      · obtain rfl := List.mem_singleton.mp hd
        refine ⟨?_, by decide⟩
        decide
      · exact isLower_of_mem hd
    · exact ih _ d hd

theorem lowerFrom_eq {cs : List Char} (before : List Char) (h : ∀ c ∈ cs, IsLower c) :
    lowerFrom before cs = cs := by
  induction cs generalizing before with
  | nil => rfl
  | cons c cs ih =>
    obtain ⟨hkept, hsigma⟩ := h c List.mem_cons_self
    rw [lowerFrom, if_neg fun hc => hsigma hc.1, hkept,
      ih _ fun d hd => h d (List.mem_cons_of_mem c hd)]
    rfl

theorem lower_lower (s : String) : lower (lower s) = lower s := by
  unfold lower
  rw [String.toList_ofList, lowerFrom_eq _ (isLower_lowerFrom _ _)]

theorem lower_ne_empty {s : String} (h : s ≠ "") : lower s ≠ "" := by
  obtain ⟨c, cs, hs⟩ := List.exists_cons_of_ne_nil (toList_ne_nil h)
  unfold lower
  rw [ne_eq, ofList_eq_empty, hs, lowerFrom, List.append_eq_nil_iff]
  intro hnil
  have hfirst := hnil.1
  split at hfirst
  · exact List.cons_ne_nil _ _ hfirst
  · exact lower_settles.caseForm_ne_nil c hfirst

end RowGate.Text
