import Mathlib

/-!
# Floats of whole numbers are finite

A whole number of 64 bits is far from the largest float, so the float that it is converted to is
finite.  The conversion rounds, and a rounding makes the exponent larger by no more than the bits of
the mantissa.

* `Within k b`, floats with a mantissa of at most `k` bits and an exponent of at most `b`;
* `within_round`, `Within.mul`, `Within.unpack_pack`: how the bounds grow;
* `isFinite_ofInt`.
-/

namespace CodeCoach

open Float.Model Float.Model.UnpackedFloat

/-- A zero, or a float whose mantissa has at most `k` bits and whose exponent is at most `b`. -/
inductive Within (k : Nat) (b : Int) : UnpackedFloat → Prop
  | zero (s : Sign) : Within k b (zero s)
  | finite {s m e h} (hm : m < 2 ^ k) (he : e ≤ b) : Within k b (finite s m e h)

variable {k l : Nat} {b c : Int} {f g : UnpackedFloat}

theorem Within.mono (h : Within k b f) (hk : k ≤ l) (hb : b ≤ c) : Within l c f := by
  cases h with
  | zero s => exact .zero s
  | finite hm he =>
    exact .finite (Nat.lt_of_lt_of_le hm (Nat.pow_le_pow_right (by decide) hk))
      (Int.le_trans he hb)

theorem Within.isFinite (h : Within k b f) : f.isFinite := by
  cases h <;> rfl

theorem Within.neg (h : Within k b f) : Within k b (UnpackedFloat.neg f) := by
  cases h with
  | zero s => exact .zero _
  | finite hm he => exact .finite hm he

/-! ### Rounding -/

theorem mantissa_shift_le (em : ExtendedMantissa) (n : Nat) : (em >>> n).mantissa ≤ em.mantissa := by
  induction n with
  | zero => exact Nat.le_refl _
  | succ n ih =>
    show (em >>> n).mantissa / 2 ≤ em.mantissa
    omega

theorem mantissa_ofMantissaAndAccuracy (m : Nat) (acc : Accuracy) :
    (ExtendedMantissa.ofMantissaAndAccuracy m acc).mantissa = m := by
  cases acc with
  | exact => rfl
  | inexact o => cases o <;> rfl

theorem roundedMantissa_le (em : ExtendedMantissa) : em.roundedMantissa ≤ em.mantissa + 1 := by
  obtain ⟨m, r, s⟩ := em
  cases r <;> cases s <;>
    simp [ExtendedMantissa.roundedMantissa, ExtendedMantissa.accuracy,
      Accuracy.roundToNearestEven]
  omega

theorem log2_lt_of_lt {m : Nat} (hm : m < 2 ^ k) (hk : 0 < k) : m.log2 < k := by
  by_cases h : m = 0
  · simpa [h] using hk
  · exact (Nat.log2_lt h).2 hm

/-- A shift to the exponent at which a mantissa is kept makes the exponent larger by at most the
bits of the mantissa. -/
theorem shiftToTargetExponent_le {m : Nat} {e : Int} (hk : 0 < k) (hm : m < 2 ^ k) (he : e ≤ b)
    (hb : 0 ≤ b) (acc : Accuracy) :
    (shiftToTargetExponent Format.binary64 m e acc).1.mantissa ≤ m ∧
      (shiftToTargetExponent Format.binary64 m e acc).2 ≤ b + k := by
  have hlog := log2_lt_of_lt hm hk
  constructor
  · have hshift := mantissa_shift_le (ExtendedMantissa.ofMantissaAndAccuracy m acc)
      ((Format.binary64.targetExponent (totalExponent m e) - e).toNat)
    rw [mantissa_ofMantissaAndAccuracy] at hshift
    exact hshift
  · have htarget : Format.binary64.targetExponent (totalExponent m e) =
        max ((m.log2 : Int) + 1 + e - 53) (-1074) := rfl
    simp only [shiftToTargetExponent, shiftToExponent, htarget]
    omega

theorem within_round {m : Nat} {e : Int} (hk : 0 < k) (hm : m < 2 ^ k) (he : e ≤ b) (hb : 0 ≤ b)
    (s : Sign) (acc : Accuracy) :
    Within (k + 1) (b + 2 * k + 1) (roundWithAccuracy Format.binary64 s m e acc) := by
  obtain ⟨hm₁, he₁⟩ := shiftToTargetExponent_le hk hm he hb acc
  have hrounded := roundedMantissa_le (shiftToTargetExponent Format.binary64 m e acc).1
  have hpow : 2 ^ k < 2 ^ (k + 1) := Nat.pow_lt_pow_right (by decide) (Nat.lt_succ_self k)
  obtain ⟨hm₂, he₂⟩ := shiftToTargetExponent_le (Nat.succ_pos k)
    (m := (shiftToTargetExponent Format.binary64 m e acc).1.roundedMantissa) (by omega) he₁
    (by omega) Accuracy.exact
  unfold roundWithAccuracy
  simp only
  split
  · exact .zero _
  · refine .finite (by omega) (Int.le_trans he₂ ?_)
    omega

/-- The product of two floats. -/
theorem Within.mul (hf : Within k b f) (hg : Within l c g) (hk : 0 < k) (hb : 0 ≤ b) (hc : 0 ≤ c) :
    Within (k + l + 1) (b + c + 2 * (k + l : Nat) + 1) (UnpackedFloat.mul Format.binary64 f g) := by
  cases hf with
  | zero s => cases hg <;> exact .zero _
  | @finite s m e h hm he =>
    cases hg with
    | zero t => exact .zero _
    | @finite t n e' h' hn he' =>
      have hproduct : m * n < 2 ^ (k + l) := by
        rw [Nat.pow_add]
        exact Nat.mul_lt_mul'' hm hn
      exact within_round (by omega) hproduct (Int.add_le_add he he') (by omega) _ _

/-! ### Packing -/

/-- A float is read from its bits with their exponent, where that is not the one of the infinities. -/
theorem within_unpack {spec : Format} {bits : BitVec spec.numBits}
    (hfinite : unpackExponent bits ≠ -1#(spec.exponentBits))
    (hleast : 1 ≤ b + (spec.exponentBias + spec.mantissaBitsWithoutImplicit))
    (hb : ((unpackExponent bits).toNat : Int) ≤
      b + (spec.exponentBias + spec.mantissaBitsWithoutImplicit)) :
    Within (1 + spec.mantissaBitsWithoutImplicit) b (UnpackedFloat.unpack spec bits) := by
  have hmantissa := (unpackMantissa bits).isLt
  have hpow : 2 ^ spec.mantissaBitsWithoutImplicit ≤ 2 ^ (1 + spec.mantissaBitsWithoutImplicit) :=
    Nat.pow_le_pow_right (by decide) (by omega)
  unfold UnpackedFloat.unpack
  simp only [hfinite, if_false]
  split
  · rename_i hzero
    have hzero : (unpackExponent bits).toNat = 0 := by
      rw [hzero]
      rfl
    split
    · exact .zero _
    · exact .finite (by omega) (by omega)
  · exact .finite (BitVec.isLt _) (by omega)

theorem within_unpack_packComponents (s : Sign) {exponent : BitVec Format.binary64.exponentBits}
    (mantissa : BitVec Format.binary64.mantissaBitsWithoutImplicit) {n : Nat}
    (hexponent : exponent.toNat = n) (hfinite : n < 2047) (hb : 0 ≤ b) (hn : (n : Int) ≤ b + 1075) :
    Within 53 b
      (UnpackedFloat.unpack Format.binary64 (packComponents Format.binary64 s exponent mantissa)) := by
  subst hexponent
  have hbias : (Format.binary64.exponentBias : Int) + Format.binary64.mantissaBitsWithoutImplicit =
      1075 := rfl
  refine @within_unpack _ Format.binary64 _ ?_ ?_ ?_
  · rw [unpackExponent_packComponents]
    rintro rfl
    exact absurd hfinite (by decide)
  · omega
  · rw [unpackExponent_packComponents, hbias]
    exact hn

/-- A float of a moderate exponent keeps it when it is packed into its bits. -/
theorem Within.unpack_pack (h : Within k b f) (hb : 0 ≤ b) (hlimit : b ≤ 900) :
    Within 53 b (Float.Model.pack f).unpack := by
  show Within 53 b (UnpackedFloat.unpack Format.binary64 (UnpackedFloat.pack Format.binary64 f))
  cases h with
  | zero s =>
    rw [UnpackedFloat.pack]
    exact within_unpack_packComponents (n := 0) s _ rfl (by decide) hb (by omega)
  | @finite s m e hpos _ he =>
    -- The exponent is stored as a number of eleven bits, which it fits.
    have hstored : (e + Format.binary64.exponentBias +
        Format.binary64.mantissaBitsWithoutImplicit).toNat = (e + 1075).toNat := by
      show (e + (1023 : Nat) + (52 : Nat)).toNat = _
      omega
    have hsmall : ¬ 2 ^ Format.binary64.exponentBits ≤ (e + 1075).toNat + 1 := by
      show ¬ 2 ^ 11 ≤ (e + 1075).toNat + 1
      omega
    have hbits : (BitVec.ofNat Format.binary64.exponentBits (e + 1075).toNat).toNat =
        (e + 1075).toNat := by
      show (e + 1075).toNat % 2 ^ 11 = _
      omega
    rw [UnpackedFloat.pack, hstored]
    simp only [hsmall, if_false]
    split
    · exact within_unpack_packComponents (n := (e + 1075).toNat) s _ hbits (by omega) hb (by omega)
    · exact within_unpack_packComponents (n := 0) s _ rfl (by decide) hb (by omega)

/-! ### Whole numbers -/

theorem within_ofNat_unpacked {n : Nat} (hn : n < 2 ^ 53) :
    Within 106 211 (UnpackedFloat.ofNat Format.binary64 n) := by
  show Within 106 211 (UnpackedFloat.normalize Format.binary64 n 0 Sign.positive)
  unfold UnpackedFloat.normalize
  split
  · rename_i hneg
    rw [compare_lt_iff_lt] at hneg
    omega
  · exact .zero _
  · have htarget : Format.binary64.targetExponent (totalExponent n 0) =
        max ((n.log2 : Int) + 1 + 0 - 53) (-1074) := rfl
    simp only [Int.toNat_natCast, UnpackedFloat.round, decreaseExponent, htarget]
    generalize hshift : (0 - max ((n.log2 : Int) + 1 + 0 - 53) (-1074)).toNat = shift
    have hfar : n <<< shift < 2 ^ 105 := by
      rw [Nat.shiftLeft_eq]
      calc n * 2 ^ shift ≤ n * 2 ^ 52 :=
            Nat.mul_le_mul_left n (Nat.pow_le_pow_right (by decide) (by omega))
        _ < 2 ^ 53 * 2 ^ 52 := Nat.mul_lt_mul_of_pos_right hn (by decide)
        _ = 2 ^ 105 := by decide
    exact within_round (b := 0) (by decide) hfar (by omega) (by decide) _ _

/-- Small numbers are exact, and multiplied by one. -/
theorem within_ofNat_small {n : Nat} (hn : n < 2 ^ 53) :
    Within 53 424 (n.toUInt64.toFloat * Float.exactlyRepresentablePowersOfTen[0]).toModel.unpack := by
  have hword : n.toUInt64.toNat = n := by
    show n % 2 ^ 64 = n
    omega
  have hunpacked : Within 106 211 (UnpackedFloat.ofUInt64 Format.binary64 n.toUInt64) := by
    rw [UnpackedFloat.ofUInt64, hword]
    exact within_ofNat_unpacked hn
  have hnumber : Within 53 211 n.toUInt64.toFloat.toModel.unpack :=
    hunpacked.unpack_pack (by decide) (by decide)
  have hone : Within 53 0 Float.exactlyRepresentablePowersOfTen[0].toModel.unpack :=
    .finite (by decide) (by decide)
  exact (hnumber.mul hone (by decide) (by decide) (by decide)).unpack_pack (by decide) (by decide)

/-- The others are scaled by a power of ten with the exponent zero. -/
theorem within_ofNat_large {n : Nat} (hn : n < 2 ^ 64) :
    Within 53 424 (Float.Model.ofScientific n 0).unpack := by
  have hunpacked : Within 119 424 (UnpackedFloat.ofScientific Format.binary64 n 0) := by
    unfold UnpackedFloat.ofScientific
    split
    · exact .zero _
    · rename_i hpos
      have hbits : ¬ (0 : Int) > 2 ^ Format.binary64.exponentBits := by decide
      have hlog : ¬ (0 : Int) < -(2 ^ Format.binary64.exponentBits + n.log2) := by
        show ¬ (0 : Int) < -(2 ^ 11 + n.log2)
        omega
      have hshifted : n <<< Format.binary64.mantissaBits < 2 ^ 117 := by
        show n <<< 53 < 2 ^ 117
        rw [Nat.shiftLeft_eq]
        omega
      rw [if_neg hbits, if_neg hlog, if_pos (Int.le_refl 0)]
      have hdown : -(Format.binary64.mantissaBits : Int) ≤ 0 := by decide
      have hone : 10 ^ (0 : Int).toNat < 2 ^ 1 := by decide
      refine Within.mono (Within.mul (k := 117) (l := 1) (b := 0) (c := 0) (.finite hshifted hdown)
        (.finite hone (Int.le_refl 0)) ?_ ?_ ?_) ?_ ?_ <;> decide
  exact hunpacked.unpack_pack (by decide) (by decide)

/-- The float of a whole number of 64 bits. -/
theorem within_ofNat {n : Nat} (hn : n < 2 ^ 64) :
    Within 53 424 (Float.ofNat n).toModel.unpack := by
  show Within 53 424 (Float.ofScientific n false 0).toModel.unpack
  unfold Float.ofScientific
  split
  · rename_i hsmall
    exact within_ofNat_small hsmall.1
  · exact within_ofNat_large hn

/-- A whole number of 64 bits becomes a finite float. -/
theorem isFinite_ofInt {n : Int} (hlow : -2 ^ 63 ≤ n) (hhigh : n < 2 ^ 64) :
    (Float.ofInt n).isFinite := by
  cases n with
  | ofNat n =>
    have hn : n < 2 ^ 64 := Int.ofNat_lt.1 hhigh
    exact (within_ofNat hn).isFinite
  | negSucc n =>
    have hn : Within 53 424 (Float.ofNat n.succ).toModel.unpack := within_ofNat (by omega)
    exact (hn.neg.unpack_pack (by decide) (by decide)).isFinite

end CodeCoach
