import CodeCoach.Decimal.Whole
import Mathlib

/-!
# Floats that are numbers

A float is a number, which may be infinite, or it is none.  Numbers are in order, and arithmetic
with a fixed finite number gives numbers.

* `isNaN_unpack_pack`: a number stays one when it is packed into its bits;
* `isNaN_sub`, `isNaN_add`, `isNaN_mul`, `isNaN_div`, `isNaN_roundHalfAway`: what is done with
  numbers gives numbers;
* `le_of_not_lt`: of two numbers, one is at most the other.
-/

namespace CodeCoach

open Float.Model Float.Model.UnpackedFloat

/-! ### Rounding and packing -/

@[simp] theorem isNaN_roundWithAccuracy (spec : Format) (s : Sign) (m : Nat) (e : Int)
    (acc : Accuracy) : (roundWithAccuracy spec s m e acc).isNaN = false := by
  unfold roundWithAccuracy
  dsimp only
  split <;> rfl

@[simp] theorem isNaN_normalize (spec : Format) (m e : Int) (s : Sign) :
    (UnpackedFloat.normalize spec m e s).isNaN = false := by
  unfold UnpackedFloat.normalize
  split
  · exact isNaN_roundWithAccuracy _ _ _ _ _
  · rfl
  · exact isNaN_roundWithAccuracy _ _ _ _ _

theorem isNaN_mul_finite (spec : Format) {s t : Sign} {m n : Nat} {e f : Int} (hm : 0 < m)
    (hn : 0 < n) :
    (UnpackedFloat.mul spec (.finite s m e hm) (.finite t n f hn)).isNaN = false :=
  isNaN_roundWithAccuracy _ _ _ _ _

/-- Only a mantissa beside the exponent of the infinities makes bits that are no number. -/
theorem isNaN_unpack_packComponents {spec : Format} (s : Sign)
    {exponent : BitVec spec.exponentBits} {mantissa : BitVec spec.mantissaBitsWithoutImplicit}
    (h : exponent = -1#_ → mantissa = 0#_) :
    (UnpackedFloat.unpack spec (packComponents spec s exponent mantissa)).isNaN = false := by
  unfold UnpackedFloat.unpack
  simp only [unpackExponent_packComponents, unpackMantissa_packComponents]
  split
  · next he => rw [if_pos (h he)]; rfl
  · split
    · split <;> rfl
    · rfl

theorem isNaN_unpack_pack {f : UnpackedFloat} (h : f.isNaN = false) :
    (Float.Model.pack f).unpack.isNaN = false := by
  show (UnpackedFloat.unpack Format.binary64 (UnpackedFloat.pack Format.binary64 f)).isNaN = false
  cases f with
  | notANumber => cases h
  | infinity s => exact isNaN_unpack_packComponents s fun _ => rfl
  | zero s => exact isNaN_unpack_packComponents s fun _ => rfl
  | finite s m e hm =>
    simp only [UnpackedFloat.pack]
    split
    · exact isNaN_unpack_packComponents s fun _ => rfl
    · split
      · refine isNaN_unpack_packComponents s fun he => ?_
        have he := congrArg BitVec.toNat he
        simp at he
        omega
      · refine isNaN_unpack_packComponents s fun he => ?_
        cases he

/-! ### Arithmetic -/

theorem isNaN_of_isFinite {x : Float} (h : x.isFinite) : x.isNaN = false := by
  have h : x.toModel.unpack.isFinite = true := h
  show x.toModel.unpack.isNaN = false
  cases hu : x.toModel.unpack <;> simp_all [UnpackedFloat.isFinite, UnpackedFloat.isNaN]

/-- Whether a float is finite and not zero. -/
def isOrdinary (x : Float) : Bool :=
  match x.toModel.unpack with
  | .finite .. => true
  | _ => false

section Arithmetic

variable {x y : Float}

theorem exists_of_isOrdinary (h : isOrdinary y) :
    ∃ s m e hm, y.toModel.unpack = .finite s m e hm := by
  unfold isOrdinary at h
  split at h
  · next s m e hm hy => exact ⟨s, m, e, hm, hy⟩
  · cases h

/-- An operation with an ordinary float gives numbers where it does so for each sort of number. -/
theorem isNaN_pack_of {op : UnpackedFloat → UnpackedFloat → UnpackedFloat} (hx : x.isNaN = false)
    (hy : isOrdinary y)
    (hinfinity : ∀ t s m e hm, (op (.infinity t) (.finite s m e hm)).isNaN = false)
    (hzero : ∀ t s m e hm, (op (.zero t) (.finite s m e hm)).isNaN = false)
    (hfinite : ∀ t n f hn s m e hm, (op (.finite t n f hn) (.finite s m e hm)).isNaN = false) :
    (Float.Model.pack (op x.toModel.unpack y.toModel.unpack)).unpack.isNaN = false := by
  obtain ⟨s, m, e, hm, hy⟩ := exists_of_isOrdinary hy
  refine isNaN_unpack_pack ?_
  have hx : x.toModel.unpack.isNaN = false := hx
  rw [hy]
  cases hu : x.toModel.unpack with
  | notANumber => simp [hu, UnpackedFloat.isNaN] at hx
  | infinity t => exact hinfinity t s m e hm
  | zero t => exact hzero t s m e hm
  | finite t n f hn => exact hfinite t n f hn s m e hm

theorem isNaN_add (hx : x.isNaN = false) (hy : isOrdinary y) : (x + y).isNaN = false :=
  isNaN_pack_of hx hy (fun _ _ _ _ _ => rfl) (fun _ _ _ _ _ => rfl)
    fun _ _ _ _ _ _ _ _ => isNaN_normalize _ _ _ _

theorem isNaN_sub (hx : x.isNaN = false) (hy : isOrdinary y) : (x - y).isNaN = false :=
  isNaN_pack_of hx hy (fun _ _ _ _ _ => rfl) (fun _ _ _ _ _ => rfl)
    fun _ _ _ _ _ _ _ _ => isNaN_normalize _ _ _ _

theorem isNaN_mul (hx : x.isNaN = false) (hy : isOrdinary y) : (x * y).isNaN = false :=
  isNaN_pack_of hx hy (fun _ _ _ _ _ => rfl) (fun _ _ _ _ _ => rfl)
    fun _ _ _ hn _ _ _ hm => isNaN_mul_finite _ hn hm

theorem isNaN_div (hx : x.isNaN = false) (hy : isOrdinary y) : (x / y).isNaN = false :=
  isNaN_pack_of hx hy (fun _ _ _ _ _ => rfl) (fun _ _ _ _ _ => rfl)
    fun _ _ _ _ _ _ _ _ => isNaN_roundWithAccuracy _ _ _ _ _

theorem isNaN_neg (hx : x.isNaN = false) : (-x).isNaN = false := by
  refine isNaN_unpack_pack (f := UnpackedFloat.neg _) ?_
  have hx : x.toModel.unpack.isNaN = false := hx
  cases hu : x.toModel.unpack with
  | notANumber => simp [hu, UnpackedFloat.isNaN] at hx
  | infinity t => rfl
  | zero t => rfl
  | finite t n f hn => rfl

end Arithmetic

/-! ### Whole numbers -/

theorem isNaN_ofNat (n : Nat) : (Float.ofNat n).isNaN = false := by
  show (Float.ofScientific n false 0).isNaN = false
  have hone : isOrdinary Float.exactlyRepresentablePowersOfTen[0] := by decide +kernel
  unfold Float.ofScientific
  split
  · exact isNaN_mul (isNaN_unpack_pack (isNaN_normalize _ _ _ _)) hone
  · refine isNaN_unpack_pack (f := UnpackedFloat.ofScientific Format.binary64 n 0) ?_
    unfold UnpackedFloat.ofScientific
    split
    · rfl
    · split
      · rfl
      · split
        · rfl
        · rw [if_pos (Int.le_refl 0)]
          exact isNaN_mul_finite _ _ _

theorem isNaN_ofInt (n : Int) : (Float.ofInt n).isNaN = false := by
  cases n with
  | ofNat n => exact isNaN_ofNat n
  | negSucc n => exact isNaN_neg (isNaN_ofNat _)

theorem isNaN_roundHalfAway {x : Float} (hx : x.isNaN = false) :
    (Decimal.roundHalfAway x).isNaN = false := by
  unfold Decimal.roundHalfAway
  split
  · exact isNaN_ofInt _
  · exact hx

/-! ### Order -/

/-- Two numbers can be compared, and the other way round as well. -/
theorem compare_swap {f g : UnpackedFloat} (hf : f.isNaN = false) (hg : g.isNaN = false) :
    ∃ o, f.compare g = some o ∧ g.compare f = some o.swap := by
  cases f with
  | notANumber => cases hf
  | infinity s =>
    cases g with
    | notANumber => cases hg
    | infinity t => cases s <;> cases t <;> exact ⟨_, rfl, rfl⟩
    | zero t => cases s <;> exact ⟨_, rfl, rfl⟩
    | finite t n f hn => cases s <;> cases t <;> exact ⟨_, rfl, rfl⟩
  | zero s =>
    cases g with
    | notANumber => cases hg
    | infinity t => cases t <;> exact ⟨_, rfl, rfl⟩
    | zero t => exact ⟨_, rfl, rfl⟩
    | finite t n f hn => cases t <;> exact ⟨_, rfl, rfl⟩
  | finite s m e hm =>
    cases g with
    | notANumber => cases hg
    | infinity t => cases s <;> cases t <;> exact ⟨_, rfl, rfl⟩
    | zero t => cases s <;> exact ⟨_, rfl, rfl⟩
    | finite t n f hn =>
      have hswap : ((compare e f).then (compare m n)).swap = (compare f e).then (compare n m) := by
        rw [Ordering.swap_then, ← Std.OrientedOrd.eq_swap, ← Std.OrientedOrd.eq_swap]
      cases s <;> cases t
      · exact ⟨_, rfl, by rw [hswap]; rfl⟩
      · exact ⟨_, rfl, rfl⟩
      · exact ⟨_, rfl, rfl⟩
      · exact ⟨_, rfl, by rw [hswap]; rfl⟩

theorem lt_iff_compare {x y : Float} :
    x < y ↔ x.toModel.unpack.compare y.toModel.unpack = some .lt := by
  show decide ((x.toModel.unpack.compare y.toModel.unpack == some .lt) = true) = true ↔ _
  rw [decide_eq_true_iff, beq_iff_eq]

theorem le_iff_compare {x y : Float} :
    x ≤ y ↔ ∃ o, x.toModel.unpack.compare y.toModel.unpack = some o ∧ o.isLE := by
  show decide ((x.toModel.unpack.compare y.toModel.unpack).any (·.isLE) = true) = true ↔ _
  rw [decide_eq_true_iff, Option.any_eq_true]

/-- What is compared with success is a number. -/
theorem isNaN_of_le {x y : Float} (h : x ≤ y) : y.isNaN = false := by
  obtain ⟨o, h, -⟩ := le_iff_compare.1 h
  show y.toModel.unpack.isNaN = false
  cases hu : y.toModel.unpack with
  | notANumber =>
    rw [hu] at h
    cases hv : x.toModel.unpack <;> simp [hv, UnpackedFloat.compare] at h
  | _ => rfl

/-- Of two numbers, one is at most the other. -/
theorem le_of_not_lt {x y : Float} (hx : x.isNaN = false) (hy : y.isNaN = false) (h : ¬ x < y) :
    y ≤ x := by
  obtain ⟨o, hxy, hyx⟩ := compare_swap (f := x.toModel.unpack) (g := y.toModel.unpack) hx hy
  rw [lt_iff_compare, hxy] at h
  refine le_iff_compare.2 ⟨o.swap, hyx, ?_⟩
  cases o with
  | lt => exact absurd rfl h
  | eq => rfl
  | gt => rfl

end CodeCoach
