import RowGate.Number.Basic
import RowGate.Proofs.Number.Nearest
import RowGate.Proofs.Sequence
/-!
Places of sums. Main statement: a number with a place and a finite number have a sum with a place,
if they have a sum.
-/
namespace RowGate.Number

/-- A number that is no infinity and has a place. -/
def IsFinite (a : Number) : Prop := ∃ q, a.place? = some (.at q)

section Floats

open Float.Model Float.Model.UnpackedFloat

theorem unpack_notANumber {x : Float} (h : x.toModel.unpack = .notANumber) :
    classify x = .notANumber := by
  change UnpackedFloat.unpack .binary64 x.toBits.toBitVec = _ at h
  unfold UnpackedFloat.unpack at h
  dsimp only at h
  split at h
  · rename_i hexponent
    split at h
    · cases h
    · rename_i hmantissa
      exact classify_notANumber.mpr
        ⟨exponent_ones.mp hexponent, fun hzero => hmantissa (mantissa_zero.mpr hzero)⟩
  · split at h
    · split at h <;> cases h
    · cases h

theorem unpack_infinity {x : Float} {s : Sign} (h : x.toModel.unpack = .infinity s) :
    ∃ negative, classify x = .infinite negative := by
  change UnpackedFloat.unpack .binary64 x.toBits.toBitVec = _ at h
  unfold UnpackedFloat.unpack at h
  dsimp only at h
  split at h
  · rename_i hexponent
    split at h
    · rename_i hmantissa
      unfold classify
      dsimp only
      rw [if_pos (exponent_ones.mp hexponent), if_pos (mantissa_zero.mp hmantissa)]
      exact ⟨_, rfl⟩
    · cases h
  · split at h
    · split at h <;> cases h
    · cases h

theorem round_ne {spec : Format} {s : Sign} {m : Nat} {e : Int} :
    UnpackedFloat.round spec s m e ≠ .notANumber := by
  unfold UnpackedFloat.round roundWithAccuracy
  dsimp only
  split <;> nofun

theorem normalize_ne {spec : Format} {m e : Int} {s : Sign} :
    UnpackedFloat.normalize spec m e s ≠ .notANumber := by
  unfold UnpackedFloat.normalize
  split
  · exact round_ne
  · nofun
  · exact round_ne

/-- A sum is no number only if one of its terms is none, or both are infinite. -/
theorem add_ne {spec : Format} {a b : UnpackedFloat} (ha : a ≠ .notANumber) (hb : b ≠ .notANumber)
    (hinfinity : (∀ s, a ≠ .infinity s) ∨ ∀ s, b ≠ .infinity s) :
    UnpackedFloat.add spec a b ≠ .notANumber := by
  unfold UnpackedFloat.add
  split
  · exact absurd rfl ha
  · exact absurd rfl hb
  · rcases hinfinity with h | h
    · exact absurd rfl (h _)
    · exact absurd rfl (h _)
  · nofun
  · nofun
  · split <;> nofun
  · exact hb
  · exact ha
  · exact normalize_ne

/-- What is packed is no number only if it was none. -/
theorem pack_ne (spec : Format) {a : UnpackedFloat} (ha : a ≠ .notANumber) :
    unpackExponent (UnpackedFloat.pack spec a) = -BitVec.ofNat spec.exponentBits 1 →
      unpackMantissa (UnpackedFloat.pack spec a) =
        BitVec.ofNat spec.mantissaBitsWithoutImplicit 0 := by
  have hpower : 2 ≤ 2 ^ spec.exponentBits := Nat.le_self_pow (Nat.pos_iff_ne_zero.mp spec.he) 2
  intro hones
  have hones := congrArg BitVec.toNat hones
  rw [BitVec.neg_one_eq_allOnes, BitVec.toNat_allOnes] at hones
  cases a with
  | notANumber => exact absurd rfl ha
  | infinity s => exact unpackMantissa_packComponents
  | zero s => exact unpackMantissa_packComponents
  | finite s m e hm =>
    unfold UnpackedFloat.pack at hones ⊢
    dsimp only at hones ⊢
    split at hones
    · rename_i hlarge
      rw [if_pos hlarge]
      exact unpackMantissa_packComponents
    · rename_i hsmall
      split at hones
      · rw [unpackExponent_packComponents, BitVec.toNat_ofNat, Nat.mod_eq_of_lt (by omega)] at hones
        omega
      · rw [unpackExponent_packComponents, BitVec.toNat_ofNat, Nat.zero_mod] at hones
        omega

/-- A float that is a number and a finite one have a sum that is a number. -/
theorem classify_add_ne {x y : Float} (hx : classify x ≠ .notANumber)
    (hy : classify y ≠ .notANumber)
    (hfinite : (∃ parts, classify x = .finite parts) ∨ ∃ parts, classify y = .finite parts) :
    classify (x + y) ≠ .notANumber := by
  have hunpacked {z : Float} {parts : BinaryParts} (hz : classify z = .finite parts) (s : Sign) :
      z.toModel.unpack ≠ .infinity s := by
    intro hinfinity
    obtain ⟨negative, hclass⟩ := unpack_infinity hinfinity
    rw [hz] at hclass
    cases hclass
  have hsum : UnpackedFloat.add .binary64 x.toModel.unpack y.toModel.unpack ≠ .notANumber := by
    apply add_ne
    · exact fun h => hx (unpack_notANumber h)
    · exact fun h => hy (unpack_notANumber h)
    · exact hfinite.imp (fun ⟨_, h⟩ => hunpacked h) (fun ⟨_, h⟩ => hunpacked h)
  have hbits : (x + y).toBits.toBitVec = UnpackedFloat.pack .binary64
      (UnpackedFloat.add .binary64 x.toModel.unpack y.toModel.unpack) := rfl
  have hpack := pack_ne .binary64 hsum
  rw [← hbits] at hpack
  intro hclass
  obtain ⟨hexponent, hfraction⟩ := classify_notANumber.mp hclass
  exact hfraction (mantissa_zero.mp (hpack (exponent_ones.mpr hexponent)))

end Floats

theorem place_float {x : Float} : (Number.float x).place?.isSome ↔ classify x ≠ .notANumber := by
  change (floatPlace? x).isSome ↔ _
  unfold floatPlace?
  cases classify x <;> simp

theorem finite_float {x : Float} (h : IsFinite (.float x)) :
    ∃ parts, classify x = .finite parts := by
  obtain ⟨q, hq⟩ := h
  change floatPlace? x = _ at hq
  unfold floatPlace? at hq
  cases hclass : classify x with
  | finite parts => exact ⟨parts, rfl⟩
  | infinite negative =>
    rw [hclass] at hq
    cases negative <;> cases hq
  | notANumber =>
    rw [hclass] at hq
    cases hq

theorem floatOfInt_finite {n : Int} {x : Float} (h : floatOfInt n = .ok x) :
    ∃ parts, classify x = .finite parts := by
  unfold floatOfInt at h
  dsimp only at h
  split at h
  · rename_i parts hparts
    cases h
    exact ⟨parts, hparts⟩
  · cases h

theorem place_decimal {d : Decimal} : (Number.decimal d).place?.isSome ↔ d ≠ .notANumber := by
  cases d with
  | finite negative c e => simp [place?, Decimal.toRat?]
  | infinite negative => simp [place?]
  | notANumber => simp [place?, Decimal.toRat?]

theorem IsFinite.place {a : Number} (h : a.IsFinite) : a.place?.isSome := by
  obtain ⟨q, hq⟩ := h
  rw [hq]
  rfl

theorem round_finite (negative : Bool) (c : Nat) (e : Int) :
    Decimal.round negative c e ≠ .notANumber := by
  unfold Decimal.round
  dsimp only
  split
  · nofun
  · split <;> nofun

theorem addDecimals_place {c d : Decimal} {sum : Number} (hc : c ≠ .notANumber)
    (hd : d ≠ .notANumber) (h : addDecimals c d = .ok sum) : sum.place?.isSome := by
  unfold addDecimals at h
  split at h
  · rename_i s hs
    cases h
    apply place_decimal.mpr
    unfold Decimal.add? at hs
    split at hs
    · cases hs
      exact round_finite _ _ _
    · exact absurd rfl hc
    · exact absurd rfl hd
    · split at hs
      · cases hs
        nofun
      · cases hs
    · cases hs
      nofun
    · cases hs
      nofun
  · cases h

/-- Numbers with places, one of them finite, have a sum with a place. -/
theorem place_sum {a b sum : Number} (ha : a.place?.isSome) (hb : b.place?.isSome)
    (hfinite : a.IsFinite ∨ b.IsFinite) (h : a.add b = .ok sum) : sum.place?.isSome := by
  have hint (n : Int) : Decimal.ofInt n ≠ .notANumber := nofun
  have hne {x : Float} {parts : BinaryParts} (hx : classify x = .finite parts) :
      classify x ≠ .notANumber := by
    rw [hx]
    nofun
  cases a with
  | int m =>
    cases b with
    | int n =>
      cases h
      rfl
    | float y =>
      obtain ⟨x, hx, hsum⟩ := sequence_eq_ok.mp h
      cases hsum
      obtain ⟨parts, hparts⟩ := floatOfInt_finite hx
      exact place_float.mpr (classify_add_ne (hne hparts) (place_float.mp hb) (.inl ⟨parts, hparts⟩))
    | decimal d =>
      exact addDecimals_place (hint m) (place_decimal.mp hb) h
  | float x =>
    have hx := place_float.mp ha
    cases b with
    | int n =>
      obtain ⟨y, hy, hsum⟩ := sequence_eq_ok.mp h
      cases hsum
      obtain ⟨parts, hparts⟩ := floatOfInt_finite hy
      exact place_float.mpr (classify_add_ne hx (hne hparts) (.inr ⟨parts, hparts⟩))
    | float y =>
      cases h
      exact place_float.mpr (classify_add_ne hx (place_float.mp hb)
        (hfinite.imp finite_float finite_float))
    | decimal d => cases h
  | decimal c =>
    have hc := place_decimal.mp ha
    cases b with
    | int n => exact addDecimals_place hc (hint n) h
    | float y => cases h
    | decimal d => exact addDecimals_place hc (place_decimal.mp hb) h

/-- A number with a place and a finite one have a sum with a place. -/
theorem place_add {a b sum : Number} (ha : a.place?.isSome) (hb : b.IsFinite)
    (h : a.add b = .ok sum) : sum.place?.isSome := place_sum ha hb.place (.inr hb) h

/-- Integers and floats add up to integers and floats. -/
theorem isDecimal_add {a b sum : Number} (ha : a.isDecimal = false) (hb : b.isDecimal = false)
    (h : a.add b = .ok sum) : sum.isDecimal = false := by
  cases a with
  | decimal d => cases ha
  | int m =>
    cases b with
    | decimal d => cases hb
    | int n =>
      cases h
      rfl
    | float y =>
      obtain ⟨x, -, h⟩ := sequence_eq_ok.mp h
      cases h
      rfl
  | float x =>
    cases b with
    | decimal d => cases hb
    | int n =>
      obtain ⟨y, -, h⟩ := sequence_eq_ok.mp h
      cases h
      rfl
    | float y =>
      cases h
      rfl

end RowGate.Number
