import RowGate.Proofs.Number.Digits
import RowGate.Proofs.Number.Nearest
import RowGate.Json.Basic
/-!
How long the integers are that are read. Main statement: an integer that is read from a float or a
numeral has no more digits than are written.
-/
namespace RowGate.Number

/-- Less than this power of ten has few enough digits. -/
theorem isWritten_of_lt {n : Int} (h : n.natAbs < 10 ^ maxIntegerDigits) :
    Json.isWritten n = true :=
  decide_eq_true (Nat.repr_length n.natAbs maxIntegerDigits (by decide) h)

theorem decimalValue_lt {c : Char} {d : Nat} (h : Text.decimalValue? c = some d) : d < 10 := by
  unfold Text.decimalValue? at h
  split at h
  · split at h
    · rename_i hdigit
      obtain rfl := Option.some.inj h
      have hboth := hdigit
      simp only [Char.isDigit, Bool.and_eq_true, decide_eq_true_eq] at hboth
      have hle : c.toNat ≤ 57 := hboth.2
      omega
    · cases h
  · obtain ⟨z, hz, rfl⟩ := Option.map_eq_some_iff.mp h
    have hboth := List.find?_some hz
    simp only [Bool.and_eq_true, decide_eq_true_eq] at hboth
    omega

theorem digitGroups_lt {cs : List Char} {ds : List Nat} (h : digitGroups cs = some ds) :
    ∀ d ∈ ds, d < 10 := by
  fun_induction digitGroups cs generalizing ds with
  | case1 => cases h
  | case2 c more ih =>
    obtain ⟨d, hd, hds⟩ := Option.bind_eq_some_iff.mp h
    have hlast := decimalValue_lt hd
    split at hds
    · obtain rfl := Option.some.inj hds
      simpa using hlast
    · obtain ⟨rest, hrest, rfl⟩ := Option.map_eq_some_iff.mp hds
      exact List.forall_mem_cons.mpr ⟨hlast, ih hrest⟩
    · rename_i hnil hunderscore
      obtain ⟨rest, hrest, rfl⟩ := Option.map_eq_some_iff.mp hds
      split at ih
      · exact absurd rfl hnil
      · exact absurd rfl (hunderscore _)
      · exact List.forall_mem_cons.mpr ⟨hlast, ih hrest⟩

theorem ofDigits_lt {ds : List Nat} (h : ∀ d ∈ ds, d < 10) : ofDigits ds < 10 ^ ds.length := by
  induction ds using List.reverseRecOn with
  | nil => exact Nat.one_pos
  | append_singleton ds d ih =>
    have hds := ih fun e he => h e (List.mem_append_left _ he)
    have hd := h d (by simp)
    rw [ofDigits, List.foldl_append, List.length_append, List.length_singleton, pow_succ]
    change 10 * ofDigits ds + d < _
    omega

/-- A numeral has no more digits than are read. -/
theorem isWritten_parseInt? {s : String} {n : Int} (h : parseInt? s = some n) :
    Json.isWritten n = true := by
  unfold parseInt? at h
  generalize splitSign (Text.stripChars s.toList) = parts at h
  obtain ⟨negative, body⟩ := parts
  obtain ⟨ds, hds, hn⟩ := Option.bind_eq_some_iff.mp h
  split at hn
  · cases hn
  · rename_i hlength
    refine isWritten_of_lt ?_
    have hnat : n.natAbs = ofDigits ds := by
      rw [← Option.some.inj hn]
      split <;> simp
    rw [hnat]
    exact (ofDigits_lt (digitGroups_lt hds)).trans_le
      (Nat.pow_le_pow_right (by decide) (Nat.le_of_not_lt hlength))

/-- Finite floats are below a power of two. -/
theorem BinaryParts.Canonical.abs_lt {p : BinaryParts} (h : p.Canonical) :
    |p.toRat| < (2 : ℚ) ^ 1024 := by
  have habs : |p.toRat| = p.significand * (2 : ℚ) ^ p.exponent := by
    have hpos : (0 : ℚ) ≤ p.significand * (2 : ℚ) ^ p.exponent :=
      mul_nonneg (Nat.cast_nonneg _) (twoPow_pos _).le
    unfold toRat
    dsimp only
    rw [scaleTwo_eq]
    split
    · rw [abs_neg, abs_of_nonneg hpos]
    · exact abs_of_nonneg hpos
  have hsignificand : (p.significand : ℚ) < (2 : ℚ) ^ 53 := by exact_mod_cast h.fits
  have hexponent : (2 : ℚ) ^ p.exponent ≤ (2 : ℚ) ^ (971 : ℤ) :=
    zpow_le_zpow_right₀ (by norm_num) h.greatest
  calc |p.toRat| = p.significand * (2 : ℚ) ^ p.exponent := habs
    _ < (2 : ℚ) ^ 53 * (2 : ℚ) ^ (971 : ℤ) :=
      mul_lt_mul hsignificand hexponent (twoPow_pos _) (by positivity)
    _ = (2 : ℚ) ^ 1024 := by
      rw [← zpow_natCast, ← zpow_natCast, ← zpow_add₀ two_ne_zero]
      rfl

/-- A whole float has no more digits than are written. -/
theorem isWritten_wholeFloat? {x : Float} {n : Int} (h : wholeFloat? x = some n) :
    Json.isWritten n = true := by
  unfold wholeFloat? at h
  split at h
  · rename_i p hp
    dsimp only at h
    split at h
    · rename_i hden
      obtain rfl := Option.some.inj h
      have hbound := (finite_parts hp).1.abs_lt
      have hwhole : ((p.toRat.num.natAbs : ℕ) : ℚ) = |p.toRat| := by
        rw [Nat.cast_natAbs, Int.cast_abs, Rat.coe_int_num_of_den_eq_one hden]
      rw [← hwhole] at hbound
      have hcast {m k : Nat} (hm : (m : ℚ) < (2 : ℚ) ^ k) : m < 2 ^ k := by exact_mod_cast hm
      have hpowers {k : Nat} (hk : k ≤ maxIntegerDigits) : 2 ^ k ≤ 10 ^ maxIntegerDigits :=
        (Nat.pow_le_pow_left (by decide) k).trans (Nat.pow_le_pow_right (by decide) hk)
      exact isWritten_of_lt (Nat.lt_of_lt_of_le (hcast hbound) (hpowers (by decide)))
    · cases h
  · cases h

end RowGate.Number
