import RowGate.Number.Numeral
import RowGate.Proofs.Number.Shortest
import RowGate.Proofs.Number.Texts
/-!
Digits read and written. Main statement: the digits chosen for a positive decimal start with one
that is not zero and have the value of the decimal.
-/
namespace RowGate.Number

/-- All characters are digits. -/
def AllDigits (cs : List Char) : Prop := ∀ c ∈ cs, c.isDigit = true

theorem allDigits_natText (n : Nat) : AllDigits (toString n).toList := by
  intro c hc
  have htext : (toString n).toList = Nat.toDigits 10 n := Nat.toList_repr
  rw [htext] at hc
  exact Nat.isDigit_of_mem_toDigits (by decide) (by decide) hc

theorem AllDigits.append {cs ds : List Char} (hc : AllDigits cs) (hd : AllDigits ds) :
    AllDigits (cs ++ ds) := List.forall_mem_append.mpr ⟨hc, hd⟩

theorem allDigits_zeros (k : Nat) : AllDigits (List.replicate k '0') := by
  intro c hc
  rw [List.eq_of_mem_replicate hc]
  rfl

/-- The number with the given digits. -/
def numberOf (cs : List Char) : Nat := Nat.ofDigitChars 10 cs 0

theorem ofDigits_map (cs : List Char) : ofDigits (cs.map (·.toNat - 48)) = numberOf cs :=
  List.foldl_map

theorem numberOf_append (cs ds : List Char) :
    numberOf (cs ++ ds) = numberOf cs * 10 ^ ds.length + numberOf ds := by
  rw [numberOf, Nat.ofDigitChars_append, Nat.ofDigitChars_eq_ofDigitChars_zero, Nat.mul_comm]
  rfl

theorem numberOf_zeros (k : Nat) : numberOf (List.replicate k '0') = 0 := by
  simp [numberOf]

theorem numberOf_natText (n : Nat) : numberOf (toString n).toList = n := by
  have htext : (toString n).toList = Nat.toDigits 10 n := Nat.toList_repr
  rw [htext, numberOf, Nat.ofDigitChars_ten_toDigits]

/-- Digits of the first script make a group. -/
theorem digitGroups_eq {cs : List Char} (hne : cs ≠ []) (h : AllDigits cs) :
    digitGroups cs = some (cs.map (·.toNat - 48)) := by
  induction cs with
  | nil => exact absurd rfl hne
  | cons c rest ih =>
    obtain ⟨hc, hrest⟩ := List.forall_mem_cons.mp h
    have hvalue : Text.decimalValue? c = some (c.toNat - 48) := by
      have hsmall : c.toNat < 128 := by
        have hboth := hc
        simp only [Char.isDigit, Bool.and_eq_true, decide_eq_true_eq] at hboth
        have hle : c.toNat ≤ 57 := hboth.2
        omega
      rw [Text.decimalValue?, if_pos hsmall, if_pos hc]
    cases rest with
    | nil => simp [digitGroups, hvalue]
    | cons d more =>
      have hd : d ≠ '_' := by
        rintro rfl
        exact absurd (hrest '_' List.mem_cons_self) (by decide)
      have htail := ih (by simp) hrest
      rw [digitGroups, hvalue, Option.bind_eq_bind, Option.bind_some]
      split
      · contradiction
      · rename_i heq
        exact absurd (List.cons.inj heq).1 hd
      · rw [htail]
        rfl

theorem exponentText_eq (power : Int) :
    ∃ ds, AllDigits ds ∧ ds ≠ [] ∧ numberOf ds = power.natAbs ∧
      (exponentText power).toList = 'e' :: (if power < 0 then '-' else '+') :: ds := by
  have hdigits := allDigits_natText power.natAbs
  have hne : (toString power.natAbs).toList ≠ [] := by
    have htext : (toString power.natAbs).toList = Nat.toDigits 10 power.natAbs := Nat.toList_repr
    rw [htext]
    exact Nat.toDigits_ne_nil
  have hnumber := numberOf_natText power.natAbs
  unfold exponentText
  dsimp only
  generalize toString power.natAbs = s at *
  by_cases hshort : s.length < 2
  · refine ⟨'0' :: s.toList, ?_, by simp, ?_, ?_⟩
    · exact List.forall_mem_cons.mpr ⟨rfl, hdigits⟩
    · rw [← hnumber]
      exact (numberOf_append ['0'] s.toList).trans (by simp [numberOf, Nat.ofDigitChars_cons])
    · rw [if_pos hshort]
      split <;> simp
  · refine ⟨s.toList, hdigits, hne, hnumber, ?_⟩
    rw [if_neg hshort]
    split <;> simp

/-- An exponent is read back. -/
theorem parseExponent?_exponentText (power : Int) :
    ∃ more, (exponentText power).toList = 'e' :: more ∧ '_' ∉ more ∧
      parseExponent? more = some power := by
  obtain ⟨ds, hds, hne, hnumber, htext⟩ := exponentText_eq power
  refine ⟨_, htext, ?_, ?_⟩
  · have hunderscore : '_' ∉ ds := fun hmem => absurd (hds '_' hmem) (by decide)
    split <;> simpa using hunderscore
  · have hread : ofDigits (ds.map (·.toNat - 48)) = power.natAbs := (ofDigits_map ds).trans hnumber
    split
    · simp only [parseExponent?, splitSign, digitGroups_eq hne hds, Option.bind_eq_bind,
        Option.bind_some, hread, if_true, Option.some.injEq]
      omega
    · simp only [parseExponent?, splitSign, digitGroups_eq hne hds, Option.bind_eq_bind,
        Option.bind_some, hread, Bool.false_eq_true, if_false, Option.some.injEq]
      omega

/-- A positive number does not start with a zero. -/
theorem toDigits_head {n : Nat} (h : 0 < n) :
    ∃ c cs, Nat.toDigits 10 n = c :: cs ∧ c ≠ '0' := by
  induction n using Nat.strongRecOn with
  | ind n ih =>
    rw [Nat.toDigits_eq_if (by decide)]
    split
    · rename_i hsmall
      have hdigit : ∀ d < 10, 0 < d → Nat.digitChar d ≠ '0' := by decide
      exact ⟨_, _, rfl, hdigit n hsmall h⟩
    · obtain ⟨c, cs, hcs, hc⟩ := ih (n / 10) (by omega) (by omega)
      exact ⟨c, cs ++ [Nat.digitChar (n % 10)], by rw [hcs]; rfl, hc⟩

/-! Scientific digits -/

/-- The rational that significant digits stand for. -/
def Scientific.value (s : Scientific) : ℚ :=
  numberOf s.digits * (10 : ℚ) ^ (s.power - (s.digits.length - 1 : ℤ))

/-- Digits of which the first is not zero. -/
structure Scientific.Proper (s : Scientific) : Prop where
  digits : AllDigits s.digits
  head : ∃ c cs, s.digits = c :: cs ∧ c ≠ '0'

/-- Zeros at the end are all that is cut off. -/
theorem trimZeros_append {cs : List Char} (h : ∃ c ∈ cs, c ≠ '0') :
    ∃ k, cs = trimZeros cs ++ List.replicate k '0' := by
  have hsplit := List.takeWhile_append_dropWhile (p := (· == '0')) (l := cs.reverse)
  have hzeros : cs.reverse.takeWhile (· == '0') =
      List.replicate (cs.reverse.takeWhile (· == '0')).length '0' :=
    List.eq_replicate_of_mem fun c hc => by simpa using List.mem_takeWhile_imp hc
  have hrest : (cs.reverse.dropWhile (· == '0')).reverse ≠ [] := by
    rw [ne_eq, List.reverse_eq_nil_iff, List.dropWhile_eq_nil_iff]
    intro hall
    obtain ⟨c, hc, hne⟩ := h
    exact hne (by simpa using hall c (List.mem_reverse.mpr hc))
  have htrim : trimZeros cs = (cs.reverse.dropWhile (· == '0')).reverse := by
    unfold trimZeros
    split
    · rename_i hnil
      exact absurd hnil hrest
    · rfl
  refine ⟨(cs.reverse.takeWhile (· == '0')).length, ?_⟩
  rw [htrim, ← List.reverse_replicate, ← hzeros, ← List.reverse_append, hsplit, List.reverse_reverse]

section

variable {n : Nat} (h : 0 < n) (p : Int)

include h

theorem trimZeros_natText :
    ∃ k, (toString n).toList = trimZeros (toString n).toList ++ List.replicate k '0' := by
  obtain ⟨c, cs, hcs, hc⟩ := toDigits_head h
  have htext : (toString n).toList = c :: cs := Nat.toList_repr.trans hcs
  exact trimZeros_append ⟨c, htext ▸ List.mem_cons_self, hc⟩

theorem ofDecimal_proper : (Scientific.ofDecimal n p).Proper := by
  obtain ⟨c, cs, hcs, hc⟩ := toDigits_head h
  have htext : (toString n).toList = c :: cs := Nat.toList_repr.trans hcs
  obtain ⟨k, hk⟩ := trimZeros_natText h
  refine ⟨?_, ?_⟩
  · intro d hd
    rcases trimZeros_subset hd with rfl | hd
    · rfl
    · exact allDigits_natText n d hd
  · change ∃ c cs, trimZeros (toString n).toList = c :: cs ∧ c ≠ '0'
    cases htrim : trimZeros (toString n).toList with
    | nil =>
      rw [htrim, htext] at hk
      exact absurd (List.eq_of_mem_replicate (hk ▸ List.mem_cons_self)) hc
    | cons d ds =>
      rw [htrim, htext] at hk
      exact ⟨d, ds, rfl, (List.cons.inj hk).1 ▸ hc⟩

theorem ofDecimal_value : (Scientific.ofDecimal n p).value = n * (10 : ℚ) ^ p := by
  obtain ⟨k, hk⟩ := trimZeros_natText h
  have hnumber : n = numberOf (trimZeros (toString n).toList) * 10 ^ k := by
    calc
      n = numberOf (toString n).toList := (numberOf_natText n).symm
      _ = numberOf (trimZeros (toString n).toList ++ List.replicate k '0') := congrArg _ hk
      _ = numberOf (trimZeros (toString n).toList) * 10 ^ k := by
        rw [numberOf_append, numberOf_zeros, List.length_replicate, Nat.add_zero]
  have hlength : (toString n).toList.length = (trimZeros (toString n).toList).length + k := by
    rw [hk, List.length_append, List.length_replicate, ← hk]
  have hcast : (n : ℚ) = numberOf (trimZeros (toString n).toList) * (10 : ℚ) ^ (k : ℤ) := by
    rw [zpow_natCast]
    exact_mod_cast hnumber
  rw [hcast, Scientific.value, mul_assoc, ← zpow_add₀ (by norm_num)]
  dsimp only [Scientific.ofDecimal]
  rw [hlength]
  push_cast
  ring_nf

end

end RowGate.Number
