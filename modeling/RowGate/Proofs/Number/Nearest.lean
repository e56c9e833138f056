import Mathlib
import RowGate.Number.Shortest
/-!
Quotients rounded to floats. Main statement: every quotient in the rounding interval of a float is
rounded to that float.
-/
namespace RowGate.Number

theorem twoTo_eq (k : Nat) : (twoTo k : ℚ) = (2 : ℚ) ^ (k : ℤ) := by
  simp [twoTo]

theorem tenTo_eq (k : Nat) : (tenTo k : ℚ) = (10 : ℚ) ^ (k : ℤ) := by
  simp [tenTo]

theorem twoPow_pos (e : ℤ) : (0 : ℚ) < (2 : ℚ) ^ e := zpow_pos (by norm_num) e

theorem scaleTwo_eq (m : Nat) (e : ℤ) : scaleTwo m e = m * (2 : ℚ) ^ e := by
  unfold scaleTwo
  split
  · rename_i h
    rw [Nat.cast_mul, twoTo_eq, Int.toNat_of_nonneg h]
  · rename_i h
    have hneg : (((-e).toNat : Nat) : ℤ) = -e := Int.toNat_of_nonneg (by omega)
    rw [Rat.mkRat_eq_div, Int.cast_natCast, twoTo_eq, hneg, zpow_neg, div_inv_eq_mul]

/-! Integers -/

/-- A rational is nearest to an integer; halfway only if the integer is even. -/
def RoundsTo (x : ℚ) (k : Nat) : Prop :=
  (k : ℚ) - 1 / 2 < x ∧ x < k + 1 / 2 ∨ k % 2 = 0 ∧ (k : ℚ) - 1 / 2 ≤ x ∧ x ≤ k + 1 / 2

theorem RoundsTo.lower {x : ℚ} {k : Nat} (h : RoundsTo x k) : (k : ℚ) - 1 / 2 ≤ x := by
  rcases h with ⟨h, -⟩ | ⟨-, h, -⟩
  · exact h.le
  · exact h

theorem RoundsTo.upper {x : ℚ} {k : Nat} (h : RoundsTo x k) : x ≤ k + 1 / 2 := by
  rcases h with ⟨-, h⟩ | ⟨-, -, h⟩
  · exact h.le
  · exact h

theorem roundDiv_eq {n d k : Nat} (hd : 0 < d) (h : RoundsTo ((n : ℚ) / d) k) :
    roundDiv n d = k := by
  have hdq : (0 : ℚ) < d := by exact_mod_cast hd
  have hn : d * (n / d) + n % d = n := Nat.div_add_mod n d
  have hr : n % d < d := Nat.mod_lt n hd
  have hlower : 2 * (d * k) ≤ 2 * n + d := by
    have hle := (le_div_iff₀ hdq).mp h.lower
    have hcast : (2 * (d * k) : ℚ) ≤ 2 * n + d := by linarith
    exact_mod_cast hcast
  have hupper : 2 * n ≤ 2 * (d * k) + d := by
    have hle := (div_le_iff₀ hdq).mp h.upper
    have hcast : (2 * n : ℚ) ≤ 2 * (d * k) + d := by linarith
    exact_mod_cast hcast
  have htie : k % 2 = 0 ∨ 2 * (d * k) < 2 * n + d ∧ 2 * n < 2 * (d * k) + d := by
    rcases h with ⟨hl, hu⟩ | ⟨heven, -, -⟩
    · have hl := (lt_div_iff₀ hdq).mp hl
      have hu := (div_lt_iff₀ hdq).mp hu
      have hlcast : (2 * (d * k) : ℚ) < 2 * n + d := by linarith
      have hucast : (2 * n : ℚ) < 2 * (d * k) + d := by linarith
      exact .inr ⟨by exact_mod_cast hlcast, by exact_mod_cast hucast⟩
    · exact .inl heven
  -- the quotient is `k`, or one less with a remainder of a half or more
  have hquotient : k = n / d ∨ k = n / d + 1 := by
    have hlow : n / d ≤ k := by
      by_contra hlt
      have hmul : d * (k + 1) ≤ d * (n / d) := Nat.mul_le_mul_left d (by omega)
      rw [Nat.mul_succ] at hmul
      omega
    have hhigh : k ≤ n / d + 1 := by
      by_contra hlt
      have hmul : d * (n / d + 2) ≤ d * k := Nat.mul_le_mul_left d (by omega)
      rw [Nat.mul_add] at hmul
      omega
    omega
  unfold roundDiv
  dsimp only
  generalize n / d = q at *
  generalize n % d = r at *
  rcases hquotient with rfl | rfl
  · have hhalf : 2 * r ≤ d := by linarith
    split
    · rfl
    split
    · omega
    · rcases htie with heven | ⟨-, hlt⟩
      · omega
      · have hstrict : 2 * r < d := by linarith
        omega
  · have hhalf : d ≤ 2 * r := by linarith
    split
    · omega
    split
    · rfl
    · rcases htie with heven | ⟨hlt, -⟩
      · omega
      · have hstrict : d < 2 * r := by linarith
        omega

theorem roundScaled_eq {n d k : Nat} {e : ℤ} (hd : 0 < d)
    (h : RoundsTo ((n : ℚ) / d / (2 : ℚ) ^ e) k) : roundScaled n d e = k := by
  unfold roundScaled
  split
  · rename_i he
    refine roundDiv_eq (Nat.mul_pos hd (twoTo_pos _)) ?_
    rwa [Nat.cast_mul, twoTo_eq, Int.toNat_of_nonneg he, ← div_div]
  · rename_i he
    refine roundDiv_eq hd ?_
    have hneg : (((-e).toNat : Nat) : ℤ) = -e := Int.toNat_of_nonneg (by omega)
    rwa [Nat.cast_mul, twoTo_eq, hneg, zpow_neg, mul_div_right_comm, ← div_eq_mul_inv]

/-! Floats -/

/-- Finite floats have at most 53 binary digits, and fewer only at the least exponent. -/
structure BinaryParts.Canonical (p : BinaryParts) : Prop where
  fits : p.significand < 2 ^ 53
  least : -1074 ≤ p.exponent
  greatest : p.exponent ≤ 971
  full : 2 ^ 52 ≤ p.significand ∨ p.exponent = -1074

/-- The bits of a finite float without its sign. -/
def BinaryParts.magnitude (p : BinaryParts) : Nat :=
  (p.exponent + 1074).toNat * 2 ^ 52 + p.significand

/-- The float of the parts. -/
def BinaryParts.toFloat (p : BinaryParts) : Float := signed p.negative p.magnitude

/-- The bits of a float are those of its sign, its exponent and its fraction. -/
theorem bits_fields {b : Nat} (h : b < 2 ^ 64) :
    (if b / twoTo 63 == 1 then twoTo 63 else 0) + (b / twoTo 52 % twoTo 11 * 2 ^ 52 + b % twoTo 52) =
      b := by
  have h63 : twoTo 63 = 2 ^ 63 := rfl
  have h52 : twoTo 52 = 2 ^ 52 := rfl
  have h11 : twoTo 11 = 2 ^ 11 := rfl
  by_cases hsign : b / twoTo 63 = 1
  · rw [if_pos (by simpa using hsign)]
    rw [h63, h52, h11] at *
    omega
  · rw [if_neg (by simpa using hsign)]
    rw [h63] at hsign
    rw [h52, h11]
    omega

/-- A float is determined by its bits. -/
theorem eq_signed {x : Float} {negative : Bool} {m : Nat}
    (h : (if negative then twoTo 63 else 0) + m = x.toBits.toNat) : x = signed negative m := by
  rw [signed, h, UInt64.ofNat_toNat, Float.ofBits_toBits]

/-- A finite float is determined by its parts. -/
theorem finite_parts {x : Float} {p : BinaryParts} (h : classify x = .finite p) :
    p.Canonical ∧ x = p.toFloat := by
  have hbits := bits_fields x.toBits.toNat_lt
  have hexponent : x.toBits.toNat / twoTo 52 % twoTo 11 < 2 ^ 11 := Nat.mod_lt _ (by decide)
  have hfraction : x.toBits.toNat % twoTo 52 < 2 ^ 52 := Nat.mod_lt _ (by decide)
  unfold classify at h
  dsimp only at h
  generalize x.toBits.toNat / twoTo 52 % twoTo 11 = biased at *
  generalize x.toBits.toNat % twoTo 52 = fraction at *
  split at h
  · split at h <;> cases h
  split at h
  · rename_i hzero
    cases h
    rw [hzero] at hbits
    exact ⟨⟨by dsimp only; omega, le_rfl, by norm_num, .inr rfl⟩, eq_signed hbits⟩
  · rename_i hinfinite hzero
    cases h
    have htwo : twoTo 52 = 2 ^ 52 := rfl
    rw [htwo]
    refine ⟨⟨?_, ?_, ?_, .inl ?_⟩, eq_signed (.trans ?_ hbits)⟩
    · dsimp only
      omega
    · dsimp only
      omega
    · dsimp only
      omega
    · dsimp only
      omega
    · rw [Nat.add_left_cancel_iff]
      dsimp only [BinaryParts.magnitude]
      omega

/-- There is one infinite float of each sign. -/
theorem infinite_eq {x : Float} {negative : Bool} (h : classify x = .infinite negative) :
    x = infinity negative := by
  have hbits := bits_fields x.toBits.toNat_lt
  unfold classify at h
  dsimp only at h
  split at h
  · rename_i hbiased
    split at h
    · rename_i hfraction
      cases h
      rw [hbiased, hfraction] at hbits
      exact eq_signed hbits
    · cases h
  · split at h <;> cases h

section Bits

open Float.Model Float.Model.UnpackedFloat

theorem exponent_ones {x : Float} :
    @unpackExponent .binary64 x.toBits.toBitVec = -BitVec.ofNat Format.binary64.exponentBits 1 ↔
      x.toBits.toNat / twoTo 52 % twoTo 11 = 2047 := by
  have h52 : twoTo 52 = 2 ^ 52 := rfl
  have h11 : twoTo 11 = 2 ^ 11 := rfl
  rw [h52, h11, ← BitVec.toNat_inj]
  simp [unpackExponent, Nat.shiftRight_eq_div_pow]

theorem mantissa_zero {x : Float} :
    @unpackMantissa .binary64 x.toBits.toBitVec =
        BitVec.ofNat Format.binary64.mantissaBitsWithoutImplicit 0 ↔
      x.toBits.toNat % twoTo 52 = 0 := by
  have h52 : twoTo 52 = 2 ^ 52 := rfl
  rw [h52, ← BitVec.toNat_inj]
  simp [unpackMantissa]

theorem classify_notANumber {x : Float} :
    classify x = .notANumber ↔ x.toBits.toNat / twoTo 52 % twoTo 11 = 2047 ∧
      x.toBits.toNat % twoTo 52 ≠ 0 := by
  unfold classify
  dsimp only
  split
  · split <;> simp_all
  · split <;> simp_all

/-- There is one float that is no number. -/
theorem notANumber_eq {x : Float} (h : classify x = .notANumber) : x = notANumber := by
  obtain ⟨hexponent, hfraction⟩ := classify_notANumber.mp h
  have hpacked := x.toModel.valid.eq_packedNaN (exponent_ones.mpr hexponent)
    fun hzero => hfraction (mantissa_zero.mp hzero)
  have hbits : x.toBits.toNat = 2047 * twoTo 52 + twoTo 51 := congrArg BitVec.toNat hpacked
  exact eq_signed (by simpa using hbits.symm)

end Bits

/-! Binades -/

theorem scaled_lt {n d k : Nat} (hd : 0 < d) (e : ℤ) :
    (if 0 ≤ e then n / (d * twoTo e.toNat) else n * twoTo (-e).toNat / d) < k ↔
      (n : ℚ) / d < k * (2 : ℚ) ^ e := by
  have hdq : (0 : ℚ) < d := by exact_mod_cast hd
  split
  · rename_i he
    rw [Nat.div_lt_iff_lt_mul (Nat.mul_pos hd (twoTo_pos _)), div_lt_iff₀ hdq]
    have hpower : (twoTo e.toNat : ℚ) = (2 : ℚ) ^ e := by rw [twoTo_eq, Int.toNat_of_nonneg he]
    have hcast : (k * (2 : ℚ) ^ e) * d = ((k * (d * twoTo e.toNat) : Nat) : ℚ) := by
      push_cast
      rw [hpower]
      ring
    rw [hcast, Nat.cast_lt]
  · rename_i he
    rw [Nat.div_lt_iff_lt_mul hd, div_lt_iff₀ hdq]
    have hpower : (twoTo (-e).toNat : ℚ) = ((2 : ℚ) ^ e)⁻¹ := by
      rw [twoTo_eq, Int.toNat_of_nonneg (by omega), zpow_neg]
    have hone : ((2 : ℚ) ^ e)⁻¹ * (2 : ℚ) ^ e = 1 := inv_mul_cancel₀ (twoPow_pos e).ne'
    have hcast : ((n * twoTo (-e).toNat : Nat) : ℚ) < ((k * d : Nat) : ℚ) ↔
        (n : ℚ) < (k * (2 : ℚ) ^ e) * d := by
      push_cast
      rw [hpower, ← mul_lt_mul_iff_left₀ (twoPow_pos e), mul_assoc, hone, mul_one]
      ring_nf
    rw [← hcast, Nat.cast_lt]

theorem log2_bounds {n : Nat} (hn : n ≠ 0) :
    (2 : ℚ) ^ (Nat.log2 n : ℤ) ≤ n ∧ (n : ℚ) < (2 : ℚ) ^ ((Nat.log2 n : ℤ) + 1) := by
  constructor
  · have h := Nat.log2_self_le hn
    rw [zpow_natCast]
    exact_mod_cast h
  · have h := Nat.lt_log2_self (n := n)
    rw [show (Nat.log2 n : ℤ) + 1 = ((Nat.log2 n + 1 : Nat) : ℤ) by push_cast; rfl, zpow_natCast]
    exact_mod_cast h

/-- Binary logarithms of the parts bound a quotient. -/
theorem quotient_bounds {n d : Nat} (hn : n ≠ 0) (hd : d ≠ 0) :
    (2 : ℚ) ^ ((Nat.log2 n : ℤ) - Nat.log2 d - 1) < (n : ℚ) / d ∧
      (n : ℚ) / d < (2 : ℚ) ^ ((Nat.log2 n : ℤ) - Nat.log2 d + 1) := by
  have hdq : (0 : ℚ) < d := by exact_mod_cast Nat.pos_of_ne_zero hd
  obtain ⟨hnlow, hnhigh⟩ := log2_bounds hn
  obtain ⟨hdlow, hdhigh⟩ := log2_bounds hd
  constructor
  · rw [lt_div_iff₀ hdq]
    calc
      (2 : ℚ) ^ ((Nat.log2 n : ℤ) - Nat.log2 d - 1) * d
          < (2 : ℚ) ^ ((Nat.log2 n : ℤ) - Nat.log2 d - 1) * (2 : ℚ) ^ ((Nat.log2 d : ℤ) + 1) :=
        mul_lt_mul_of_pos_left hdhigh (twoPow_pos _)
      _ = (2 : ℚ) ^ (Nat.log2 n : ℤ) := by
        rw [← zpow_add₀ two_ne_zero]
        ring_nf
      _ ≤ n := hnlow
  · rw [div_lt_iff₀ hdq]
    calc
      (n : ℚ) < (2 : ℚ) ^ ((Nat.log2 n : ℤ) + 1) := hnhigh
      _ = (2 : ℚ) ^ ((Nat.log2 n : ℤ) - Nat.log2 d + 1) * (2 : ℚ) ^ (Nat.log2 d : ℤ) := by
        rw [← zpow_add₀ two_ne_zero]
        ring_nf
      _ ≤ (2 : ℚ) ^ ((Nat.log2 n : ℤ) - Nat.log2 d + 1) * d :=
        mul_le_mul_of_nonneg_left hdlow (twoPow_pos _).le

/-- A positive quotient lies between a power of two and its double; 53 binary digits of it end where
the exponent says. -/
theorem exists_binade {n d : Nat} (hn : n ≠ 0) (hd : d ≠ 0) :
    ∃ e : ℤ, (2 : ℚ) ^ (e + 52) ≤ (n : ℚ) / d ∧ (n : ℚ) / d < (2 : ℚ) ^ (e + 53) ∧
      quotientExponent n d = max (-1074) e := by
  obtain ⟨hlow, hhigh⟩ := quotient_bounds hn hd
  have hfits := scaled_lt (n := n) (k := twoTo 53) (Nat.pos_of_ne_zero hd)
    ((Nat.log2 n : ℤ) - Nat.log2 d - 53)
  rw [twoTo_eq, ← zpow_add₀ two_ne_zero] at hfits
  unfold quotientExponent
  dsimp only
  by_cases h : (n : ℚ) / d < (2 : ℚ) ^ ((53 : Nat) + ((Nat.log2 n : ℤ) - Nat.log2 d - 53))
  · rw [if_pos (hfits.mpr h)]
    refine ⟨_, ?_, ?_, rfl⟩
    · exact (congrArg ((2 : ℚ) ^ ·) (by ring)).trans_le hlow.le
    · exact h.trans_eq (congrArg ((2 : ℚ) ^ ·) (by push_cast; ring))
  · rw [if_neg (mt hfits.mp h)]
    refine ⟨_, ?_, ?_, rfl⟩
    · exact (congrArg ((2 : ℚ) ^ ·) (by push_cast; ring)).trans_le (not_lt.mp h)
    · exact hhigh.trans_eq (congrArg ((2 : ℚ) ^ ·) (by ring))

/-! Intervals -/

theorem BinaryParts.interval_low {p : BinaryParts} (hpos : 0 < p.significand) :
    p.interval.low = (p.significand -
      if p.significand = twoTo 52 ∧ -1074 < p.exponent then 1 / 4 else 1 / 2) *
        (2 : ℚ) ^ p.exponent := by
  dsimp only [interval]
  split
  · rw [scaleTwo_eq, Nat.cast_sub (by omega), zpow_sub₀ two_ne_zero]
    push_cast
    ring
  · rw [scaleTwo_eq, Nat.cast_sub (by omega), zpow_sub₀ two_ne_zero]
    push_cast
    ring

theorem BinaryParts.interval_high (p : BinaryParts) :
    p.interval.high = (p.significand + 1 / 2) * (2 : ℚ) ^ p.exponent := by
  dsimp only [interval]
  rw [scaleTwo_eq, zpow_sub₀ two_ne_zero]
  push_cast
  ring

theorem RoundingInterval.bounds {i : RoundingInterval} {q : ℚ} (h : i.holds q) :
    i.low ≤ q ∧ q ≤ i.high ∧ (i.closed = false → i.low < q ∧ q < i.high) := by
  unfold holds at h
  split at h
  · rename_i hclosed
    have hboth : i.low ≤ q ∧ q ≤ i.high := by simpa using h
    exact ⟨hboth.1, hboth.2, by simp [hclosed]⟩
  · have hboth : i.low < q ∧ q < i.high := by simpa using h
    exact ⟨hboth.1.le, hboth.2.le, fun _ => hboth⟩

/-- A rational in the interval of a float is rounded to its significand in units of its exponent;
below the least float of a binade the units are halves. -/
theorem RoundingInterval.rounds {p : BinaryParts} (hpos : 0 < p.significand) {q : ℚ}
    (h : p.interval.holds q) :
    RoundsTo (q / (2 : ℚ) ^ p.exponent) p.significand ∧
        (p.significand = 2 ^ 52 → -1074 < p.exponent → (2 : ℚ) ^ (p.exponent + 52) ≤ q) ∨
      p.significand = 2 ^ 52 ∧ -1074 < p.exponent ∧ q < (2 : ℚ) ^ (p.exponent + 52) ∧
        RoundsTo (q / (2 : ℚ) ^ (p.exponent - 1)) (2 ^ 53) := by
  have hu := twoPow_pos p.exponent
  have hhalf : (2 : ℚ) ^ (p.exponent - 1) = (2 : ℚ) ^ p.exponent / 2 := by
    rw [zpow_sub₀ two_ne_zero, zpow_one]
  have hbinade : (2 : ℚ) ^ (p.exponent + 52) = 2 ^ 52 * (2 : ℚ) ^ p.exponent := by
    rw [zpow_add₀ two_ne_zero]
    norm_num [mul_comm]
  obtain ⟨hlow, hhigh, hopen⟩ := RoundingInterval.bounds h
  rw [BinaryParts.interval_low hpos] at hlow hopen
  rw [BinaryParts.interval_high] at hhigh hopen
  by_cases hleast : p.significand = twoTo 52 ∧ -1074 < p.exponent
  · have hm : p.significand = 2 ^ 52 := hleast.1
    have hmq : (p.significand : ℚ) = 2 ^ 52 := by
      rw [hm]
      norm_num
    rw [if_pos hleast, hmq] at hlow
    rw [hmq] at hhigh
    by_cases hbelow : q < (2 : ℚ) ^ (p.exponent + 52)
    · refine .inr ⟨hm, hleast.2, hbelow, .inr ⟨by norm_num, ?_, ?_⟩⟩
      · rw [hhalf, le_div_iff₀ (by positivity)]
        push_cast
        linarith
      · rw [hbinade] at hbelow
        rw [hhalf, div_le_iff₀ (by positivity)]
        push_cast
        linarith
    · have habove := not_lt.mp hbelow
      refine .inl ⟨.inr ⟨by omega, ?_, ?_⟩, fun _ _ => habove⟩
      · rw [hbinade] at habove
        rw [le_div_iff₀ hu, hmq]
        linarith
      · rwa [div_le_iff₀ hu, hmq]
  · refine .inl ⟨?_, fun hm he => absurd ⟨hm, he⟩ hleast⟩
    rw [if_neg hleast] at hlow hopen
    by_cases heven : p.significand % 2 = 0
    · exact .inr ⟨heven, (le_div_iff₀ hu).mpr hlow, (div_le_iff₀ hu).mpr hhigh⟩
    · obtain ⟨hlow, hhigh⟩ := hopen (decide_eq_false heven)
      exact .inl ⟨(lt_div_iff₀ hu).mpr hlow, (div_lt_iff₀ hu).mpr hhigh⟩

/-- The exponent of a quotient that is rounded to a float's significand is that of the float. -/
theorem BinaryParts.Canonical.exponent_eq {p : BinaryParts} (hp : p.Canonical) {q : ℚ} {e : ℤ}
    (hlow : (2 : ℚ) ^ (e + 52) ≤ q) (hhigh : q < (2 : ℚ) ^ (e + 53))
    (hrounds : RoundsTo (q / (2 : ℚ) ^ p.exponent) p.significand)
    (hedge : p.significand = 2 ^ 52 → -1074 < p.exponent → (2 : ℚ) ^ (p.exponent + 52) ≤ q) :
    max (-1074) e = p.exponent := by
  have hu := twoPow_pos p.exponent
  have hpower (k : ℤ) : (2 : ℚ) ^ (p.exponent + k) = (2 : ℚ) ^ p.exponent * (2 : ℚ) ^ k :=
    zpow_add₀ two_ne_zero _ _
  have hle : e ≤ p.exponent := by
    have hbelow : q < (2 : ℚ) ^ (p.exponent + 53) := by
      have hfits : (p.significand : ℚ) + 1 ≤ 2 ^ 53 := by exact_mod_cast hp.fits
      have hupper := (div_le_iff₀ hu).mp hrounds.upper
      calc
        q ≤ (p.significand + 1 / 2) * (2 : ℚ) ^ p.exponent := hupper
        _ < 2 ^ 53 * (2 : ℚ) ^ p.exponent := mul_lt_mul_of_pos_right (by linarith) hu
        _ = (2 : ℚ) ^ (p.exponent + 53) := by
          rw [hpower, mul_comm]
          norm_num
    have hlt := (zpow_lt_zpow_iff_right₀ one_lt_two).mp (hlow.trans_lt hbelow)
    omega
  rcases hp.full with hfull | hleast
  · by_cases hleast : p.exponent = -1074
    · omega
    have habove : (2 : ℚ) ^ (p.exponent + 52) ≤ q := by
      by_cases hm : p.significand = 2 ^ 52
      · exact hedge hm (lt_of_le_of_ne hp.least (Ne.symm hleast))
      have hmore : (2 : ℚ) ^ 52 + 1 ≤ p.significand := by
        have hlt : 2 ^ 52 + 1 ≤ p.significand := by omega
        exact_mod_cast hlt
      have hlower := (le_div_iff₀ hu).mp hrounds.lower
      calc
        (2 : ℚ) ^ (p.exponent + 52) = 2 ^ 52 * (2 : ℚ) ^ p.exponent := by
          rw [hpower, mul_comm]
          norm_num
        _ ≤ (p.significand - 1 / 2) * (2 : ℚ) ^ p.exponent :=
          mul_le_mul_of_nonneg_right (by linarith) hu.le
        _ ≤ q := hlower
    have hlt := (zpow_lt_zpow_iff_right₀ one_lt_two).mp (habove.trans_lt hhigh)
    have hleast := hp.least
    omega
  · omega

/-- A quotient in the interval of a float is rounded to that float. -/
theorem ofQuotient_eq {p : BinaryParts} (hp : p.Canonical) (hpos : 0 < p.significand) {n d : Nat}
    (hn : n ≠ 0) (hd : d ≠ 0) (h : p.interval.holds ((n : ℚ) / d)) :
    ofQuotient p.negative n d = p.toFloat := by
  obtain ⟨e, hlow, hhigh, hexponent⟩ := exists_binade hn hd
  have hmagnitude {E : ℤ} {m : Nat} (hE : quotientExponent n d = E)
      (hm : RoundsTo ((n : ℚ) / d / (2 : ℚ) ^ E) m) (hfull : 2 ^ 52 ≤ m ∨ E = -1074)
      (hsame : (E + 1074).toNat * 2 ^ 52 + m = p.magnitude) :
      ofQuotient p.negative n d = p.toFloat := by
    have hbits : (if m < twoTo 52 then m else ((E + 1075).toNat - 1) * twoTo 52 + m) =
        p.magnitude := by
      have h52 : twoTo 52 = 2 ^ 52 := rfl
      have hleast : -1074 ≤ E := by omega
      have hunits : (E + 1075).toNat - 1 = (E + 1074).toNat := by omega
      rw [h52, hunits]
      split <;> omega
    have hfinite : ¬ 2047 * twoTo 52 ≤ p.magnitude := by
      have h52 : twoTo 52 = 2 ^ 52 := rfl
      have hfits := hp.fits
      have hgreatest := hp.greatest
      rw [h52, BinaryParts.magnitude]
      omega
    unfold ofQuotient
    dsimp only
    rw [if_neg hn, hE, roundScaled_eq (Nat.pos_of_ne_zero hd) hm, hbits, if_neg hfinite]
    rfl
  rcases RoundingInterval.rounds hpos h with
    ⟨hrounds, hedge⟩ | ⟨hedge, hleast, hbelow, hrounds⟩
  · refine hmagnitude (hexponent.trans ?_) hrounds hp.full rfl
    exact hp.exponent_eq hlow hhigh hrounds hedge
  · -- just below the binade of the float, where the last digit counts half
    have heq : e = p.exponent - 1 := by
      have hle := (zpow_lt_zpow_iff_right₀ one_lt_two).mp (hlow.trans_lt hbelow)
      have hlower := (le_div_iff₀ (twoPow_pos _)).mp hrounds.lower
      have habove : (2 : ℚ) ^ (p.exponent + 51) ≤ (n : ℚ) / d := by
        refine le_trans ?_ hlower
        rw [show p.exponent + 51 = (p.exponent - 1) + 52 by ring, zpow_add₀ two_ne_zero, mul_comm]
        refine mul_le_mul_of_nonneg_right ?_ (twoPow_pos _).le
        norm_num
      have hge := (zpow_lt_zpow_iff_right₀ one_lt_two).mp (habove.trans_lt hhigh)
      omega
    have hE : quotientExponent n d = p.exponent - 1 := by
      rw [hexponent, heq]
      omega
    refine hmagnitude hE hrounds (.inl (by norm_num)) ?_
    rw [BinaryParts.magnitude, hedge]
    omega

end RowGate.Number
