import Mathlib
import Backtest.Scalar.Binary64

/-!
# Rounding

A number is stored with 53 binary places and an exponent that is at least -1074. Rounding shifts a
mantissa until it has no more places and the exponent is not too small, and may carry into one more
place. The lemmas say that a mantissa with enough places to begin with never gets lost in this, and
that what has been rounded is read back from its bits as it was.
-/

namespace Backtest.Binary64

open Float.Model (Format totalExponent UnpackedFloat)
open Float.Model.UnpackedFloat

/-! ### Places -/

/-- The exponent that a number is rounded to. -/
theorem targetExponent_eq (mantissa : Nat) (exponent : Int) :
    Format.binary64.targetExponent (totalExponent mantissa exponent) =
      max (mantissa.log2 + exponent - 52) (-1074) := by
  have hbits : Format.binary64.mantissaBits = 53 := rfl
  have hleast : Format.binary64.minExponent = -1074 := rfl
  rw [Format.targetExponent, totalExponent, hbits, hleast]
  omega

theorem mantissa_shiftRight (extended : ExtendedMantissa) (count : Nat) :
    (extended >>> count).mantissa = extended.mantissa / 2 ^ count := by
  induction count with
  | zero => simp [HShiftRight.hShiftRight, Nat.repeat]
  | succ count ih =>
      have hstep : (extended >>> (count + 1)).mantissa = (extended >>> count).mantissa / 2 := rfl
      rw [hstep, ih, Nat.div_div_eq_div_mul, Nat.pow_succ]

theorem mantissa_ofMantissaAndAccuracy (mantissa : Nat) (accuracy : Accuracy) :
    (ExtendedMantissa.ofMantissaAndAccuracy mantissa accuracy).mantissa = mantissa := by
  cases accuracy with
  | exact => rfl
  | inexact half => cases half <;> rfl

theorem roundedMantissa_bounds (extended : ExtendedMantissa) :
    extended.mantissa ≤ extended.roundedMantissa ∧
      extended.roundedMantissa ≤ extended.mantissa + 1 := by
  obtain ⟨mantissa, roundBit, stickyBit⟩ := extended
  cases roundBit <;> cases stickyBit <;>
    simp only [ExtendedMantissa.roundedMantissa, ExtendedMantissa.accuracy,
      Accuracy.roundToNearestEven] <;>
    omega

/-- A mantissa and an exponent as a number has them: all places are used, except for the smallest
numbers. -/
structure Fits (mantissa : Nat) (exponent : Int) : Prop where
  lt : mantissa < 2 ^ 53
  least_le : -1074 ≤ exponent
  full : 2 ^ 52 ≤ mantissa ∨ exponent = -1074

theorem log2_le_of_lt {mantissa : Nat} (hlt : mantissa < 2 ^ 53) : mantissa.log2 ≤ 52 := by
  rcases Nat.eq_zero_or_pos mantissa with rfl | hpos
  · simp
  · have hlog := (Nat.log2_lt hpos.ne').mpr hlt
    omega

theorem log2_shiftLeft {mantissa : Nat} (hpos : 0 < mantissa) (count : Nat) :
    (mantissa <<< count).log2 = mantissa.log2 + count := by
  induction count with
  | zero => rfl
  | succ count ih =>
      have hne : mantissa <<< count ≠ 0 := by
        rw [Nat.shiftLeft_eq]
        exact (Nat.mul_pos hpos (Nat.two_pow_pos count)).ne'
      rw [Nat.shiftLeft_succ, Nat.log2_two_mul hne, ih, Nat.add_assoc]

/-- Shifting to the target exponent leaves what fits as it is. -/
theorem shiftToTargetExponent_of_lt {mantissa : Nat} {exponent : Int} (hlt : mantissa < 2 ^ 53)
    (hleast : -1074 ≤ exponent) (accuracy : Accuracy) :
    shiftToTargetExponent Format.binary64 mantissa exponent accuracy =
      (ExtendedMantissa.ofMantissaAndAccuracy mantissa accuracy, exponent) := by
  have hlog := log2_le_of_lt hlt
  have hshift : (max ((mantissa.log2 : Int) + exponent - 52) (-1074) - exponent).toNat = 0 := by omega
  simp only [shiftToTargetExponent, shiftToExponent, targetExponent_eq, hshift]
  simp [HShiftRight.hShiftRight, Nat.repeat]

theorem shiftToTargetExponent_carry {exponent : Int} (hleast : -1074 ≤ exponent) :
    shiftToTargetExponent Format.binary64 (2 ^ 53) exponent .exact =
      (⟨2 ^ 52, false, false⟩, exponent + 1) := by
  have hshift : (max (((2 ^ 53 : Nat).log2 : Int) + exponent - 52) (-1074) - exponent).toNat = 1 := by
    rw [Nat.log2_two_pow]
    omega
  simp only [shiftToTargetExponent, shiftToExponent, targetExponent_eq, hshift]
  rfl

/-! ### Rounding -/

section Rounding

variable {sign : Sign} {mantissa : Nat} {exponent reached : Int} {accuracy : Accuracy}
  {first : ExtendedMantissa}

/-- The datum of a rounded mantissa, which may have become zero. -/
def ofRounded (sign : Sign) (mantissa : Nat) (exponent : Int) : UnpackedFloat :=
  if hzero : mantissa = 0 then .zero sign
  else .finite sign mantissa exponent (Nat.pos_of_ne_zero hzero)

theorem roundWithAccuracy_of_lt
    (hfirst : shiftToTargetExponent Format.binary64 mantissa exponent accuracy = (first, reached))
    (hlt : first.roundedMantissa < 2 ^ 53) (hleast : -1074 ≤ reached) :
    roundWithAccuracy Format.binary64 sign mantissa exponent accuracy =
      ofRounded sign first.roundedMantissa reached := by
  rw [roundWithAccuracy, hfirst]
  simp only [shiftToTargetExponent_of_lt hlt hleast, mantissa_ofMantissaAndAccuracy]
  rfl

theorem roundWithAccuracy_carry
    (hfirst : shiftToTargetExponent Format.binary64 mantissa exponent accuracy = (first, reached))
    (heq : first.roundedMantissa = 2 ^ 53) (hleast : -1074 ≤ reached) :
    roundWithAccuracy Format.binary64 sign mantissa exponent accuracy =
      ofRounded sign (2 ^ 52) (reached + 1) := by
  rw [roundWithAccuracy, hfirst]
  simp only [heq, shiftToTargetExponent_carry hleast]
  rfl

/-- The places that a mantissa keeps when it is shifted to its target exponent: all that there are, if
it has too many, and otherwise its own. -/
theorem kept_places {count : Nat} (hpos : 0 < mantissa) (hleast : -1074 ≤ exponent)
    (hcount : exponent + count = max (mantissa.log2 + exponent - 52) (-1074)) :
    0 < mantissa / 2 ^ count ∧ mantissa / 2 ^ count < 2 ^ 53 ∧
      (2 ^ 52 ≤ mantissa / 2 ^ count ∨ exponent + count = -1074) := by
  rcases le_total (-1074) ((mantissa.log2 : Int) + exponent - 52) with hfull | hleft
  · have hlog : mantissa.log2 = 52 + count := by omega
    have hlow : 2 ^ 52 ≤ mantissa / 2 ^ count := by
      rw [Nat.le_div_iff_mul_le (Nat.two_pow_pos count), ← Nat.pow_add, ← hlog]
      exact Nat.log2_self_le hpos.ne'
    have hhigh : mantissa / 2 ^ count < 2 ^ 53 := by
      rw [Nat.div_lt_iff_lt_mul (Nat.two_pow_pos count), ← Nat.pow_add,
        ← Nat.log2_lt hpos.ne', hlog]
      omega
    exact ⟨(Nat.two_pow_pos 52).trans_le hlow, hhigh, Or.inl hlow⟩
  · have hnone : count = 0 := by omega
    have hhigh : mantissa < 2 ^ 53 := (Nat.log2_lt hpos.ne').mp (by omega)
    subst hnone
    rw [Nat.pow_zero, Nat.div_one]
    exact ⟨hpos, hhigh, Or.inr (by omega)⟩

/-- Rounding a mantissa that has all places never loses all of it. -/
theorem exists_roundWithAccuracy (sign : Sign) (accuracy : Accuracy) (hpos : 0 < mantissa)
    (hleast : -1074 ≤ exponent) (hle : exponent ≤ max (mantissa.log2 + exponent - 52) (-1074)) :
    ∃ rounded place hrounded, roundWithAccuracy Format.binary64 sign mantissa exponent accuracy =
      .finite sign rounded place hrounded ∧ Fits rounded place := by
  obtain ⟨count, hcount⟩ : ∃ count : Nat, (count : Int) =
      max (mantissa.log2 + exponent - 52) (-1074) - exponent :=
    ⟨_, Int.toNat_of_nonneg (by omega)⟩
  have hreached : exponent + count = max (mantissa.log2 + exponent - 52) (-1074) := by omega
  obtain ⟨hkept, hlt, hfull⟩ := kept_places hpos hleast hreached
  generalize hextended : ExtendedMantissa.ofMantissaAndAccuracy mantissa accuracy >>> count = first
  have hfirst : shiftToTargetExponent Format.binary64 mantissa exponent accuracy =
      (first, exponent + count) := by
    simp only [shiftToTargetExponent, shiftToExponent, targetExponent_eq, ← hcount, Int.toNat_natCast,
      hextended]
  obtain ⟨hfloor, hceil⟩ := roundedMantissa_bounds first
  rw [← hextended, mantissa_shiftRight, mantissa_ofMantissaAndAccuracy, hextended] at hfloor hceil
  have hrounded : 0 < first.roundedMantissa := hkept.trans_le hfloor
  rcases lt_or_eq_of_le (hceil.trans hlt) with hplaces | hcarry
  · refine ⟨first.roundedMantissa, exponent + count, hrounded, ?_, hplaces, by omega, ?_⟩
    · rw [roundWithAccuracy_of_lt hfirst hplaces (by omega), ofRounded, dif_neg hrounded.ne']
    · exact hfull.imp_left hfloor.trans'
  · refine ⟨2 ^ 52, exponent + count + 1, Nat.two_pow_pos 52, ?_, by norm_num, by omega, Or.inl le_rfl⟩
    rw [roundWithAccuracy_carry hfirst hcarry (by omega), ofRounded, dif_neg (Nat.two_pow_pos 52).ne']

/-- Rounding a mantissa that is not zero gives one that is not zero, if the exponent is in range. -/
theorem exists_round (sign : Sign) (hpos : 0 < mantissa) (hleast : -1074 ≤ exponent) :
    ∃ rounded place hrounded, UnpackedFloat.round Format.binary64 sign mantissa exponent =
      .finite sign rounded place hrounded ∧ Fits rounded place := by
  rw [Float.Model.UnpackedFloat.round, targetExponent_eq]
  generalize htarget : max ((mantissa.log2 : Int) + exponent - 52) (-1074) = target
  obtain ⟨count, hcount⟩ : ∃ count : Nat, (exponent - target).toNat = count := ⟨_, rfl⟩
  simp only [decreaseExponent, hcount]
  have hlog : (mantissa <<< count).log2 = mantissa.log2 + count := log2_shiftLeft hpos count
  have hshifted : 0 < mantissa <<< count := by
    rw [Nat.shiftLeft_eq]
    exact Nat.mul_pos hpos (Nat.two_pow_pos count)
  exact exists_roundWithAccuracy sign .exact hshifted (by omega) (by rw [hlog]; omega)

end Rounding

/-! ### Data -/

/-- The datum of a number fits into its bits. -/
def Canonical : UnpackedFloat → Prop
  | .finite _ mantissa exponent _ => Fits mantissa exponent
  | _ => True

theorem toNat_append_one (mantissa : BitVec 52) : (1#1 ++ mantissa).toNat = 2 ^ 52 + mantissa.toNat := by
  rw [BitVec.toNat_append, ← Nat.shiftLeft_add_eq_or_of_lt mantissa.isLt]
  rfl

theorem unpack_canonical (model : Float.Model) : Canonical model.unpack := by
  unfold Float.Model.unpack
  fun_cases UnpackedFloat.unpack with
  | case1 => trivial
  | case2 => trivial
  | case3 => trivial
  | case4 mantissa field exponent _ _ _ hfield _ =>
      have hlt : mantissa.toNat < 2 ^ 52 := mantissa.isLt
      have hexponent : exponent + 1 = -1074 := by
        simp only [exponent, hfield]
        rfl
      exact ⟨by omega, by omega, Or.inr hexponent⟩
  | case5 mantissa field exponent _ _ _ hfield =>
      have hlt : mantissa.toNat < 2 ^ 52 := mantissa.isLt
      have hpos : 0 < field.toNat := BitVec.toNat_pos_of_ne_zero hfield
      have hexponent : exponent = field.toNat - 1075 := rfl
      have happend : (1#1 ++ mantissa).toNat = 2 ^ 52 + mantissa.toNat := toNat_append_one mantissa
      exact ⟨by omega, by omega, Or.inl (by omega)⟩

theorem unpack_normal (sign : Sign) {field mantissa : Nat} (hfirst : 0 < field) (hlast : field < 2047)
    (hlow : 2 ^ 52 ≤ mantissa) (hlt : mantissa < 2 ^ 53) :
    unpack Format.binary64
        (packComponents Format.binary64 sign (BitVec.ofNat 11 field) (BitVec.ofNat 52 mantissa)) =
      .finite sign mantissa (field - 1075) ((Nat.two_pow_pos 52).trans_le hlow) := by
  have hfield : (BitVec.ofNat 11 field).toNat = field := by
    rw [BitVec.toNat_ofNat]
    omega
  have hmantissa : (1#1 ++ BitVec.ofNat 52 mantissa).toNat = mantissa := by
    rw [toNat_append_one, BitVec.toNat_ofNat]
    omega
  have hnotFirst : BitVec.ofNat 11 field ≠ 0#11 := by
    intro heq
    rw [heq, BitVec.toNat_zero] at hfield
    omega
  have hnotLast : BitVec.ofNat 11 field ≠ -1#11 := by
    intro heq
    rw [heq] at hfield
    exact hlast.ne hfield.symm
  simp only [unpack, unpackExponent_packComponents, unpackMantissa_packComponents,
    unpackSign_packComponents, Sign.ofBitVec_toBitVec, if_neg hnotLast, if_neg hnotFirst, hfield,
    hmantissa]
  rfl

theorem unpack_subnormal (sign : Sign) {mantissa : Nat} (hpos : 0 < mantissa)
    (hlt : mantissa < 2 ^ 52) :
    unpack Format.binary64 (packComponents Format.binary64 sign 0#11 (BitVec.ofNat 52 mantissa)) =
      .finite sign mantissa (-1074) hpos := by
  have hmantissa : (BitVec.ofNat 52 mantissa).toNat = mantissa := by
    rw [BitVec.toNat_ofNat, Nat.mod_eq_of_lt hlt]
  have hne : BitVec.ofNat 52 mantissa ≠ 0#52 := by
    intro heq
    rw [heq, BitVec.toNat_zero] at hmantissa
    exact hpos.ne hmantissa
  simp only [unpack, unpackExponent_packComponents, unpackMantissa_packComponents,
    unpackSign_packComponents, Sign.ofBitVec_toBitVec, hmantissa]
  rw [if_neg (by decide), if_true, dif_neg hne]
  rfl

theorem unpack_pack_finite (sign : Sign) {mantissa : Nat} {exponent : Int} (hpos : 0 < mantissa)
    (hfits : Fits mantissa exponent) :
    (Float.Model.pack (.finite sign mantissa exponent hpos)).unpack =
      if exponent ≤ 971 then .finite sign mantissa exponent hpos else .infinity sign := by
  obtain ⟨hlt, hleast, hfull⟩ := hfits
  obtain ⟨field, hfield⟩ : ∃ field : Nat, (field : Int) = exponent + 1075 :=
    ⟨_, Int.toNat_of_nonneg (by omega)⟩
  have hexponent : exponent = field - 1075 := by omega
  have hbiased : (exponent + Format.binary64.exponentBias +
      Format.binary64.mantissaBitsWithoutImplicit).toNat = field := by
    have hbias : (Format.binary64.exponentBias : Int) = 1023 := rfl
    have hwidth : (Format.binary64.mantissaBitsWithoutImplicit : Int) = 52 := rfl
    rw [hbias, hwidth]
    omega
  have hpacked : (Float.Model.pack (.finite sign mantissa exponent hpos)).unpack =
      unpack Format.binary64
        (UnpackedFloat.pack Format.binary64 (.finite sign mantissa exponent hpos)) := rfl
  have hfields : 2 ^ Format.binary64.exponentBits = 2048 := rfl
  have hbits : Format.binary64.mantissaBits = 53 := rfl
  rw [hpacked, UnpackedFloat.pack]
  simp only [hbiased, hfields, hbits]
  split_ifs with hroom hhigh hhigh hnormal hhigh
  · omega
  · cases sign <;> rfl
  · have hlow : 2 ^ 52 ≤ mantissa := (Nat.le_log2 hpos.ne').mp (by omega)
    subst hexponent
    exact unpack_normal sign (by omega) (by omega) hlow hlt
  · omega
  · have hsmall : mantissa < 2 ^ 52 := by
      have hlog := log2_le_of_lt hlt
      exact (Nat.log2_lt hpos.ne').mp (by omega)
    obtain rfl : exponent = -1074 := hfull.resolve_left hsmall.not_ge
    exact unpack_subnormal sign hpos hsmall
  · omega

theorem unpack_pack_zero (sign : Sign) : (Float.Model.pack (.zero sign)).unpack = .zero sign := by
  cases sign <;> rfl

theorem unpack_pack_infinity (sign : Sign) :
    (Float.Model.pack (.infinity sign)).unpack = .infinity sign := by
  cases sign <;> rfl

end Backtest.Binary64
