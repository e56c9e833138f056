import RowGate.Proofs.Number.Nearest
/-!
Shortest digits. Main statement: the decimal that is chosen for a float lies in its rounding
interval.
-/
namespace RowGate.Number

theorem tenPow_eq (p : ℤ) : tenPow p = (10 : ℚ) ^ p := by
  unfold tenPow
  split
  · rename_i h
    rw [tenTo_eq, Int.toNat_of_nonneg h]
  · rw [Rat.mkRat_eq_div, tenTo_eq, Int.toNat_of_nonneg (by omega), zpow_neg]
    simp

/-! Leading powers -/

/-- Between the powers of two that floats reach, 0.30103 is close enough to the decimal logarithm of
two. -/
theorem powers_close : ∀ k < 1100, tenTo (k * 30103 / 100000) ≤ 10 * twoTo k ∧
    twoTo k ≤ tenTo (k * 30103 / 100000 + 1) := by
  decide +kernel

theorem estimate_le {b : ℤ} (hlow : -1100 < b) (hhigh : b < 1100) :
    (10 : ℚ) ^ ((b * 30103).fdiv 100000 - 1) ≤ (2 : ℚ) ^ b := by
  rw [Int.fdiv_eq_ediv_of_nonneg _ (by decide)]
  rcases Int.eq_nat_or_neg b with ⟨k, rfl | rfl⟩
  · have hclose := (powers_close k (by omega)).1
    have hcast : (10 : ℚ) ^ ((k * 30103 / 100000 : Nat) : ℤ) ≤ 10 * (2 : ℚ) ^ (k : ℤ) := by
      rw [← tenTo_eq, ← twoTo_eq]
      exact_mod_cast hclose
    have hquotient : (k : ℤ) * 30103 / 100000 = ((k * 30103 / 100000 : Nat) : ℤ) := by omega
    rw [hquotient, zpow_sub₀ (by norm_num), zpow_one, div_le_iff₀ (by norm_num)]
    linarith
  · have hclose := (powers_close k (by omega)).2
    have hcast : (2 : ℚ) ^ (k : ℤ) ≤ (10 : ℚ) ^ ((k * 30103 / 100000 + 1 : Nat) : ℤ) := by
      rw [← tenTo_eq, ← twoTo_eq]
      exact_mod_cast hclose
    have hquotient : -(k : ℤ) * 30103 / 100000 - 1 ≤ -((k * 30103 / 100000 + 1 : Nat) : ℤ) := by
      omega
    calc
      (10 : ℚ) ^ (-(k : ℤ) * 30103 / 100000 - 1)
          ≤ (10 : ℚ) ^ (-((k * 30103 / 100000 + 1 : Nat) : ℤ)) :=
        zpow_le_zpow_right₀ (by norm_num) hquotient
      _ = ((10 : ℚ) ^ ((k * 30103 / 100000 + 1 : Nat) : ℤ))⁻¹ := zpow_neg _ _
      _ ≤ ((2 : ℚ) ^ (k : ℤ))⁻¹ := inv_anti₀ (twoPow_pos _) hcast
      _ = (2 : ℚ) ^ (-(k : ℤ)) := (zpow_neg _ _).symm

/-- The power of the leading digit is never too large. -/
theorem leadingPower_le {v : ℚ} (hpos : 0 < v) (hlow : (2 : ℚ) ^ (-1074 : ℤ) ≤ v)
    (hhigh : v < (2 : ℚ) ^ (1024 : ℤ)) : (10 : ℚ) ^ leadingPower v ≤ v := by
  have hup {p : ℤ} (h : (10 : ℚ) ^ p ≤ v) :
      (10 : ℚ) ^ (if tenPow (p + 1) ≤ v then p + 1 else p) ≤ v := by
    split
    · rename_i hle
      rwa [tenPow_eq] at hle
    · exact h
  have hnum : v.num.natAbs ≠ 0 := by
    rw [Int.natAbs_ne_zero]
    exact (Rat.num_pos.mpr hpos).ne'
  have hquotient : (v.num.natAbs : ℚ) / v.den = v := by
    have habs : ((v.num.natAbs : ℤ) : ℚ) = v.num := by
      rw [Int.natAbs_of_nonneg (Rat.num_pos.mpr hpos).le]
    rw [← Int.cast_natCast, habs, Rat.num_div_den]
  obtain ⟨hbelow, habove⟩ := quotient_bounds hnum v.den_ne_zero
  rw [hquotient] at hbelow habove
  have hleast := (zpow_lt_zpow_iff_right₀ one_lt_two).mp (hlow.trans_lt habove)
  have hgreatest := (zpow_lt_zpow_iff_right₀ one_lt_two).mp (hbelow.trans hhigh)
  have hestimate := estimate_le (b := (Nat.log2 v.num.natAbs : ℤ) - Nat.log2 v.den - 1)
    (by omega) (by omega)
  exact hup (hup (hup (hestimate.trans hbelow.le)))

/-! Neighbours -/

/-- A neighbour lies in the interval. -/
theorem neighbour?_holds {v : ℚ} {i : RoundingInterval} {p : ℤ} {n : Nat}
    (h : neighbour? v i p = some n) : i.holds (n * (10 : ℚ) ^ p) := by
  unfold neighbour? at h
  rw [tenPow_eq] at h
  dsimp only at h
  generalize (v / (10 : ℚ) ^ p).floor.toNat = below at h
  split at h
  · rename_i hlower _
    cases h
    exact hlower
  · rename_i hupper
    cases h
    exact hupper
  · cases h
  · rename_i hlower hupper
    split at h
    · cases h
      exact hlower
    split at h
    · cases h
      exact hupper
    · cases h
      rcases Nat.mod_two_eq_zero_or_one below with heven | hodd
      · rw [heven]
        exact hlower
      · rw [hodd]
        exact hupper

theorem RoundingInterval.holds_of_inside {i : RoundingInterval} {q : ℚ} (hlow : i.low < q)
    (hhigh : q < i.high) : i.holds q := by
  unfold holds
  split
  · simp [hlow.le, hhigh.le]
  · simp [hlow, hhigh]

/-- An interval that is wider than the grid has a neighbour on it. -/
theorem exists_neighbour {v : ℚ} {i : RoundingInterval} {p : ℤ} (hpos : 0 < v) (hlow : i.low < v)
    (hhigh : v < i.high) (hwide : (10 : ℚ) ^ p < i.high - i.low) :
    ∃ n, neighbour? v i p = some n := by
  have hstep : (0 : ℚ) < (10 : ℚ) ^ p := zpow_pos (by norm_num) p
  have hfloor : 0 ≤ (v / (10 : ℚ) ^ p).floor :=
    Rat.le_floor_iff.mpr (by exact_mod_cast (div_pos hpos hstep).le)
  have hbelow : (((v / (10 : ℚ) ^ p).floor.toNat : Nat) : ℚ) = (v / (10 : ℚ) ^ p).floor := by
    exact_mod_cast congrArg (Int.cast : ℤ → ℚ) (Int.toNat_of_nonneg hfloor)
  have hle := (le_div_iff₀ hstep).mp (Rat.floor_le (v / (10 : ℚ) ^ p))
  have hlt := (div_lt_iff₀ hstep).mp (Rat.lt_floor_add_one (v / (10 : ℚ) ^ p))
  rw [← hbelow] at hle
  push_cast at hlt
  rw [← hbelow] at hlt
  unfold neighbour?
  rw [tenPow_eq]
  dsimp only
  generalize (v / (10 : ℚ) ^ p).floor.toNat = below at *
  -- the interval is too wide to end before both neighbours
  have hsome : i.holds (below * (10 : ℚ) ^ p) ∨
      i.holds (((below + 1 : Nat) : ℚ) * (10 : ℚ) ^ p) := by
    by_cases hinside : i.low < below * (10 : ℚ) ^ p
    · exact .inl (RoundingInterval.holds_of_inside hinside (hle.trans_lt hhigh))
    · refine .inr (RoundingInterval.holds_of_inside ?_ ?_)
      · push_cast
        linarith
      · push_cast
        linarith
  split
  · exact ⟨_, rfl⟩
  · exact ⟨_, rfl⟩
  · rename_i hlower hupper
    rw [hlower, hupper] at hsome
    rcases hsome with h | h <;> cases h
  · split
    · exact ⟨_, rfl⟩
    · split <;> exact ⟨_, rfl⟩

/-- The search ends at a neighbour, if there is one on any of the grids. -/
theorem shortestFrom_neighbour {v : ℚ} {i : RoundingInterval} {fuel : Nat} {p : ℤ} {k : Nat}
    (hk : k < fuel) (h : ∃ n, neighbour? v i (p - k) = some n) :
    neighbour? v i (shortestFrom v i fuel p).2 = some (shortestFrom v i fuel p).1 := by
  induction fuel generalizing p k with
  | zero => omega
  | succ fuel ih =>
    unfold shortestFrom
    split
    · assumption
    · rename_i hnone
      cases k with
      | zero =>
        obtain ⟨n, hn⟩ := h
        rw [Nat.cast_zero, sub_zero, hnone] at hn
        cases hn
      | succ k =>
        refine ih (k := k) (by omega) ?_
        obtain ⟨n, hn⟩ := h
        refine ⟨n, ?_⟩
        rw [← hn]
        push_cast
        ring_nf

/-! Digits of floats -/

/-- A positive float lies inside its interval, which is wider than its last decimal place of
seventeen. -/
theorem BinaryParts.Canonical.interval_wide {p : BinaryParts} (hp : p.Canonical)
    (hpos : 0 < p.significand) :
    p.interval.low < p.significand * (2 : ℚ) ^ p.exponent ∧
      p.significand * (2 : ℚ) ^ p.exponent < p.interval.high ∧
      p.significand * (2 : ℚ) ^ p.exponent < 10 ^ 16 * (p.interval.high - p.interval.low) := by
  have hu := twoPow_pos p.exponent
  have hfits : (p.significand : ℚ) < 2 ^ 53 := by exact_mod_cast hp.fits
  rw [interval_low hpos, interval_high, ← sub_mul, ← mul_assoc]
  refine ⟨mul_lt_mul_of_pos_right ?_ hu, mul_lt_mul_of_pos_right ?_ hu,
    mul_lt_mul_of_pos_right ?_ hu⟩
  · split <;> linarith
  · linarith
  · split
    · rename_i hedge
      have hm : (p.significand : ℚ) = 2 ^ 52 := by
        rw [hedge.1]
        norm_num [twoTo]
      linarith
    · linarith

theorem BinaryParts.Canonical.bounds {p : BinaryParts} (hp : p.Canonical)
    (hpos : 0 < p.significand) :
    (2 : ℚ) ^ (-1074 : ℤ) ≤ p.significand * (2 : ℚ) ^ p.exponent ∧
      (p.significand + 1 / 2) * (2 : ℚ) ^ p.exponent < (2 : ℚ) ^ (1024 : ℤ) := by
  have hone : (1 : ℚ) ≤ p.significand := by exact_mod_cast hpos
  have hfits : (p.significand : ℚ) + 1 ≤ 2 ^ 53 := by exact_mod_cast hp.fits
  constructor
  · calc
      (2 : ℚ) ^ (-1074 : ℤ) ≤ (2 : ℚ) ^ p.exponent := zpow_le_zpow_right₀ one_le_two hp.least
      _ ≤ p.significand * (2 : ℚ) ^ p.exponent := le_mul_of_one_le_left (twoPow_pos _).le hone
  · calc
      (p.significand + 1 / 2) * (2 : ℚ) ^ p.exponent < 2 ^ 53 * (2 : ℚ) ^ p.exponent :=
        mul_lt_mul_of_pos_right (by linarith) (twoPow_pos _)
      _ ≤ 2 ^ 53 * (2 : ℚ) ^ (971 : ℤ) :=
        mul_le_mul_of_nonneg_left (zpow_le_zpow_right₀ one_le_two hp.greatest) (by norm_num)
      _ = (2 : ℚ) ^ (1024 : ℤ) := by
        rw [← zpow_natCast, ← zpow_add₀ two_ne_zero]
        norm_num

/-- The chosen decimal lies in the rounding interval. -/
theorem BinaryParts.Canonical.shortest_holds {p : BinaryParts} (hp : p.Canonical)
    (hpos : 0 < p.significand) {n : Nat} {e : ℤ}
    (h : shortestFrom (scaleTwo p.significand p.exponent) p.interval 17
      (leadingPower (scaleTwo p.significand p.exponent)) = (n, e)) :
    p.interval.holds (n * (10 : ℚ) ^ e) := by
  rw [scaleTwo_eq] at h
  obtain ⟨hlow, hhigh, hwide⟩ := hp.interval_wide hpos
  obtain ⟨hleast, hgreatest⟩ := hp.bounds hpos
  rw [← interval_high] at hgreatest
  have hv : (0 : ℚ) < p.significand * (2 : ℚ) ^ p.exponent := (twoPow_pos _).trans_le hleast
  have hleading := leadingPower_le hv hleast (hhigh.trans hgreatest)
  have hstep : (10 : ℚ) ^ (leadingPower (p.significand * (2 : ℚ) ^ p.exponent) - (16 : Nat)) <
      p.interval.high - p.interval.low := by
    rw [zpow_sub₀ (by norm_num), zpow_natCast, div_lt_iff₀' (by positivity)]
    exact hleading.trans_lt hwide
  have hfound := shortestFrom_neighbour (by decide : 16 < 17)
    (exists_neighbour hv hlow hhigh hstep)
  rw [h] at hfound
  exact neighbour?_holds hfound

theorem BinaryParts.Canonical.least_le_low {p : BinaryParts} (hp : p.Canonical)
    (hpos : 0 < p.significand) : (2 : ℚ) ^ (-1075 : ℤ) ≤ p.interval.low := by
  have hone : (1 : ℚ) ≤ p.significand := by exact_mod_cast hpos
  calc
    (2 : ℚ) ^ (-1075 : ℤ) = 1 / 2 * (2 : ℚ) ^ (-1074 : ℤ) := by
      rw [show (-1075 : ℤ) = -1 + -1074 by norm_num, zpow_add₀ two_ne_zero, zpow_neg_one, one_div]
    _ ≤ 1 / 2 * (2 : ℚ) ^ p.exponent :=
      mul_le_mul_of_nonneg_left (zpow_le_zpow_right₀ one_le_two hp.least) (by norm_num)
    _ ≤ p.interval.low := by
      rw [BinaryParts.interval_low hpos]
      refine mul_le_mul_of_nonneg_right ?_ (twoPow_pos _).le
      split <;> linarith

/-- No decimal in the interval of a positive float is zero. -/
theorem BinaryParts.Canonical.pos_of_holds {p : BinaryParts} (hp : p.Canonical)
    (hpos : 0 < p.significand) {c : Nat} {e : ℤ} (h : p.interval.holds (c * (10 : ℚ) ^ e)) :
    0 < c := by
  have hleast := (hp.least_le_low hpos).trans (RoundingInterval.bounds h).1
  refine Nat.pos_of_ne_zero ?_
  rintro rfl
  rw [Nat.cast_zero, zero_mul] at hleast
  exact absurd hleast (not_le.mpr (twoPow_pos _))

/-- A decimal in the interval of a float reads as that float. -/
theorem ofDecimalParts_eq {p : BinaryParts} (hp : p.Canonical) (hpos : 0 < p.significand) {c : Nat}
    {e : ℤ} (h : p.interval.holds (c * (10 : ℚ) ^ e)) :
    ofDecimalParts p.negative c e = p.toFloat := by
  obtain ⟨hlow, hhigh, -⟩ := RoundingInterval.bounds h
  have hgreatest : (c : ℚ) * (10 : ℚ) ^ e < (2 : ℚ) ^ (1024 : ℤ) := by
    rw [BinaryParts.interval_high] at hhigh
    exact hhigh.trans_lt (hp.bounds hpos).2
  have hleast := (hp.least_le_low hpos).trans hlow
  have hc : c ≠ 0 := (hp.pos_of_holds hpos h).ne'
  have hcq : (1 : ℚ) ≤ c := by exact_mod_cast Nat.one_le_iff_ne_zero.mpr hc
  have hreach : ¬400 < e := by
    intro hlarge
    have hpower : (2 : ℚ) ^ (1024 : ℤ) ≤ (10 : ℚ) ^ (400 : ℤ) := by
      calc
        (2 : ℚ) ^ (1024 : ℤ) ≤ (2 : ℚ) ^ (3 * 400 : ℤ) :=
          zpow_le_zpow_right₀ one_le_two (by norm_num)
        _ = ((2 : ℚ) ^ (3 : ℤ)) ^ (400 : ℤ) := zpow_mul _ _ _
        _ ≤ (10 : ℚ) ^ (400 : ℤ) := zpow_le_zpow_left₀ (by norm_num) (by norm_num) (by norm_num)
    have hmono : (10 : ℚ) ^ (400 : ℤ) ≤ (10 : ℚ) ^ e :=
      zpow_le_zpow_right₀ (by norm_num) hlarge.le
    have hle : (10 : ℚ) ^ e ≤ c * (10 : ℚ) ^ e :=
      le_mul_of_one_le_left (zpow_pos (by norm_num) _).le hcq
    exact absurd (hpower.trans (hmono.trans hle)) (not_le.mpr hgreatest)
  have hvanish : ¬e + (Nat.log2 c : ℤ) < -1200 := by
    intro hsmall
    have hbase : (10 : ℚ) ^ e ≤ (2 : ℚ) ^ e := by
      have hnat : e = -(((-e).toNat : Nat) : ℤ) := by omega
      rw [hnat, zpow_neg, zpow_neg, zpow_natCast, zpow_natCast]
      exact inv_anti₀ (by positivity) (pow_le_pow_left₀ (by norm_num) (by norm_num) _)
    have hlt : (c : ℚ) * (10 : ℚ) ^ e < (2 : ℚ) ^ (-1075 : ℤ) := by
      calc
        (c : ℚ) * (10 : ℚ) ^ e ≤ c * (2 : ℚ) ^ e := mul_le_mul_of_nonneg_left hbase (by linarith)
        _ < (2 : ℚ) ^ ((Nat.log2 c : ℤ) + 1) * (2 : ℚ) ^ e :=
          mul_lt_mul_of_pos_right (log2_bounds hc).2 (twoPow_pos _)
        _ = (2 : ℚ) ^ ((Nat.log2 c : ℤ) + 1 + e) := (zpow_add₀ two_ne_zero _ _).symm
        _ ≤ (2 : ℚ) ^ (-1075 : ℤ) := zpow_le_zpow_right₀ one_le_two (by omega)
    exact absurd hleast (not_le.mpr hlt)
  unfold ofDecimalParts
  rw [if_neg hc, if_neg hreach, if_neg hvanish]
  split
  · rename_i hsign
    refine ofQuotient_eq hp hpos ?_ one_ne_zero ?_
    · exact Nat.mul_ne_zero hc (tenTo_pos _).ne'
    · rwa [Nat.cast_one, div_one, Nat.cast_mul, tenTo_eq, Int.toNat_of_nonneg hsign]
  · rename_i hsign
    refine ofQuotient_eq hp hpos hc (tenTo_pos _).ne' ?_
    rwa [tenTo_eq, Int.toNat_of_nonneg (by omega), zpow_neg, div_inv_eq_mul]

end RowGate.Number
