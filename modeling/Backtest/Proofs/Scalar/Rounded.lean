import Backtest.Proofs.Scalar.Lawful
import Backtest.Proofs.Scalar.Rounding

/-!
# Rounded scalars

Binary scalars have the laws that two readers of one configuration rely on. A sum of numbers that are zero
or positive never loses what a positive one adds to it: the sum has at least the exponent of its smaller
term, and rounding takes nothing away there. A half is exact, except for the smallest numbers, and it is
never greater than the number. A quotient of positive numbers has no minus sign, so turning its sign and
dropping it changes no bit.
-/

namespace Backtest

namespace Binary64

open Float.Model (Format totalExponent UnpackedFloat)
open Float.Model.UnpackedFloat

/-! ### Signs -/

/-- A positive datum, finite or not. -/
inductive Positive : UnpackedFloat → Prop
  | infinity : Positive (.infinity .positive)
  | finite (mantissa exponent hpos) : Positive (.finite .positive mantissa exponent hpos)

/-- A zero of either sign. -/
def Vanishes (datum : UnpackedFloat) : Prop := ∃ sign, datum = .zero sign

theorem Positive.unpack_pack {datum : UnpackedFloat} (hpositive : Positive datum)
    (hcanonical : Canonical datum) : Positive (Float.Model.pack datum).unpack := by
  cases hpositive with
  | infinity =>
      rw [unpack_pack_infinity]
      exact .infinity
  | finite mantissa exponent hpos =>
      rw [unpack_pack_finite .positive hpos hcanonical]
      split_ifs
      · exact .finite ..
      · exact .infinity

theorem positive_round {mantissa : Nat} {exponent : Int} (hpos : 0 < mantissa)
    (hleast : -1074 ≤ exponent) :
    Positive (UnpackedFloat.round Format.binary64 .positive mantissa exponent) ∧
      Canonical (UnpackedFloat.round Format.binary64 .positive mantissa exponent) := by
  obtain ⟨rounded, place, hrounded, hround, hfits⟩ := exists_round .positive hpos hleast
  rw [hround]
  exact ⟨.finite .., hfits⟩

theorem normalize_of_pos {mantissa : Int} (hpos : 0 < mantissa) (exponent : Int) (sign : Sign) :
    UnpackedFloat.normalize Format.binary64 mantissa exponent sign =
      UnpackedFloat.round Format.binary64 .positive mantissa.toNat exponent := by
  have hcompare : compare mantissa 0 = .gt := compare_gt_iff_gt.mpr hpos
  simp only [UnpackedFloat.normalize, hcompare]

theorem Positive.add_positive {left right : UnpackedFloat} (hleft : Positive left)
    (hright : Positive right) (hleftCanonical : Canonical left) (hrightCanonical : Canonical right) :
    Positive (UnpackedFloat.add Format.binary64 left right) ∧
      Canonical (UnpackedFloat.add Format.binary64 left right) := by
  cases hleft with
  | infinity => cases hright <;> exact ⟨.infinity, trivial⟩
  | finite mantissa exponent hpos =>
      cases hright with
      | infinity => exact ⟨.infinity, trivial⟩
      | finite mantissa' exponent' hpos' =>
          have hleast : -1074 ≤ min exponent exponent' :=
            le_min hleftCanonical.least_le hrightCanonical.least_le
          have hsum : ∀ place place' : Nat, 0 < mantissa <<< place + mantissa' <<< place' := by
            intro place place'
            rw [Nat.shiftLeft_eq]
            exact Nat.add_pos_left (Nat.mul_pos hpos (Nat.two_pow_pos _)) _
          simp only [UnpackedFloat.add, decreaseExponent, Sign.apply]
          rw [← Int.natCast_add, normalize_of_pos (Int.natCast_pos.mpr (hsum _ _)), Int.toNat_natCast]
          exact positive_round (hsum _ _) hleast

theorem Positive.add {left right : UnpackedFloat} (hleft : Positive left)
    (hright : Vanishes right ∨ Positive right) (hleftCanonical : Canonical left)
    (hrightCanonical : Canonical right) :
    Positive (UnpackedFloat.add Format.binary64 left right) ∧
      Canonical (UnpackedFloat.add Format.binary64 left right) := by
  rcases hright with hright | hright
  · obtain ⟨sign, rfl⟩ := hright
    have hadd : UnpackedFloat.add Format.binary64 left (.zero sign) = left := by
      cases hleft <;> rfl
    rw [hadd]
    exact ⟨hleft, hleftCanonical⟩
  · exact hleft.add_positive hright hleftCanonical hrightCanonical

theorem Vanishes.add_eq {left right : UnpackedFloat} (hleft : Vanishes left) (hright : Positive right) :
    UnpackedFloat.add Format.binary64 left right = right := by
  obtain ⟨sign, rfl⟩ := hleft
  cases hright <;> rfl

theorem Vanishes.add {left right : UnpackedFloat} (hleft : Vanishes left) (hright : Vanishes right) :
    Vanishes (UnpackedFloat.add Format.binary64 left right) := by
  obtain ⟨sign, rfl⟩ := hleft
  obtain ⟨sign', rfl⟩ := hright
  cases sign <;> cases sign' <;> exact ⟨_, rfl⟩

/-! ### Halves -/

section Half

/-- The number two. -/
abbrev two : UnpackedFloat := .finite .positive (2 ^ 52) (-51) (Nat.two_pow_pos 52)

variable {mantissa : Nat} {exponent : Int}

/-- The quotient by two before it is rounded. -/
theorem divCore_two (place : Int) (count : Nat)
    (hplace : place = max (mantissa.log2 + exponent - 54) (-1074))
    (hcount : exponent + 51 = place + count) :
    divCore Format.binary64 mantissa exponent (2 ^ 52) (-51) =
      (mantissa * 2 ^ count / 2 ^ 52, place,
        accuracyOfFraction (mantissa * 2 ^ count % 2 ^ 52) (2 ^ 52)) := by
  have htarget : Format.binary64.targetExponent
      (totalExponent mantissa exponent - totalExponent (2 ^ 52) (-51)) = place := by
    have hbits : Format.binary64.mantissaBits = 53 := rfl
    have hleastExponent : Format.binary64.minExponent = -1074 := rfl
    rw [Format.targetExponent, totalExponent, totalExponent, Nat.log2_two_pow, hbits, hleastExponent]
    omega
  have hmin : min (exponent - -51) place = place := by omega
  have hshift : (exponent - -51 - place).toNat = count := by omega
  simp only [divCore, htarget, hmin, hshift, Nat.shiftLeft_eq]

theorem div_two_eq (hpos : 0 < mantissa) {quotient : Nat} {place : Int} {accuracy : Accuracy}
    (hcore : divCore Format.binary64 mantissa exponent (2 ^ 52) (-51) = (quotient, place, accuracy)) :
    UnpackedFloat.div Format.binary64 (.finite .positive mantissa exponent hpos) two =
      roundWithAccuracy Format.binary64 .positive quotient place accuracy := by
  simp only [UnpackedFloat.div, hcore]
  rfl

theorem shiftToTargetExponent_double (hpos : 0 < mantissa) (hlog : mantissa.log2 = 52)
    (hleast : -1074 < exponent) :
    shiftToTargetExponent Format.binary64 (mantissa * 2) (exponent - 2) .exact =
      (⟨mantissa, false, false⟩, exponent - 1) := by
  have hdouble : (mantissa * 2).log2 = 53 := by
    rw [Nat.mul_comm, Nat.log2_two_mul hpos.ne', hlog]
  have hshift : (max (((53 : Nat) : Int) + (exponent - 2) - 52) (-1074) - (exponent - 2)).toNat = 1 := by
    omega
  have hhalf : ExtendedMantissa.shiftRightOne ⟨mantissa * 2, false, false⟩ =
      ⟨mantissa, false, false⟩ := by
    simp [ExtendedMantissa.shiftRightOne]
  have hplace : exponent - 2 + ((1 : Nat) : Int) = exponent - 1 := by omega
  simp only [shiftToTargetExponent, shiftToExponent, targetExponent_eq, hdouble, hshift, hplace]
  exact congrArg (·, exponent - 1) hhalf

/-- A number with all places has a half with the same places, unless its exponent is the least one. -/
theorem div_two_normal (hpos : 0 < mantissa) (hlog : mantissa.log2 = 52) (hleast : -1074 < exponent) :
    UnpackedFloat.div Format.binary64 (.finite .positive mantissa exponent hpos) two =
      ofRounded .positive mantissa (exponent - 1) := by
  have hlt : mantissa < 2 ^ 53 := (Nat.log2_lt hpos.ne').mp (by omega)
  rcases eq_or_ne exponent (-1073) with rfl | hnext
  · have hcore : divCore Format.binary64 mantissa (-1073) (2 ^ 52) (-51) =
        (mantissa, -1074, .exact) := by
      rw [divCore_two (-1074) 52 (by omega) (by omega),
        Nat.mul_div_cancel _ (Nat.two_pow_pos 52), Nat.mul_mod_left]
      rfl
    rw [div_two_eq hpos hcore]
    exact roundWithAccuracy_of_lt (shiftToTargetExponent_of_lt hlt le_rfl .exact) hlt le_rfl
  · have hcore : divCore Format.binary64 mantissa exponent (2 ^ 52) (-51) =
        (mantissa * 2, exponent - 2, .exact) := by
      have hquotient : mantissa * 2 ^ 53 / 2 ^ 52 = mantissa * 2 := by omega
      have hrest : mantissa * 2 ^ 53 % 2 ^ 52 = 0 := by omega
      rw [divCore_two (exponent - 2) 53 (by omega) (by omega), hquotient, hrest]
      rfl
    rw [div_two_eq hpos hcore]
    have hfirst := shiftToTargetExponent_double hpos hlog hleast
    exact roundWithAccuracy_of_lt hfirst hlt (by omega)

/-- A number with the least exponent has a half with the same exponent, rounded. -/
theorem exists_div_two_least (hpos : 0 < mantissa) (hlt : mantissa < 2 ^ 53) :
    ∃ half ≤ mantissa, UnpackedFloat.div Format.binary64 (.finite .positive mantissa (-1074) hpos) two =
      ofRounded .positive half (-1074) := by
  have hlog := log2_le_of_lt hlt
  generalize haccuracy : accuracyOfFraction (mantissa * 2 ^ 51 % 2 ^ 52) (2 ^ 52) = accuracy
  have hcore : divCore Format.binary64 mantissa (-1074) (2 ^ 52) (-51) =
      (mantissa / 2, -1074, accuracy) := by
    have hquotient : mantissa * 2 ^ 51 / 2 ^ 52 = mantissa / 2 := by omega
    rw [divCore_two (-1074) 51 (by omega) (by omega), hquotient, haccuracy]
  rcases eq_or_ne mantissa 1 with rfl | hmore
  · exact ⟨0, by omega, rfl⟩
  · have hless : mantissa / 2 < 2 ^ 53 := by omega
    have hfirst := shiftToTargetExponent_of_lt hless le_rfl accuracy
    obtain ⟨_, hceil⟩ := roundedMantissa_bounds
      (ExtendedMantissa.ofMantissaAndAccuracy (mantissa / 2) accuracy)
    rw [mantissa_ofMantissaAndAccuracy] at hceil
    rw [div_two_eq hpos hcore]
    exact ⟨_, by omega, roundWithAccuracy_of_lt hfirst (by omega) le_rfl⟩

/-- The half of a positive number is not greater than the number. -/
theorem exists_div_two (hpos : 0 < mantissa) (hfits : Fits mantissa exponent) :
    ∃ half place, UnpackedFloat.div Format.binary64 (.finite .positive mantissa exponent hpos) two =
        ofRounded .positive half place ∧
      Fits half place ∧ (place < exponent ∨ place = exponent ∧ half ≤ mantissa) := by
  obtain ⟨hlt, hleast, hfull⟩ := hfits
  rcases eq_or_lt_of_le hleast with rfl | hmore
  · obtain ⟨half, hhalf, hdiv⟩ := exists_div_two_least hpos hlt
    exact ⟨half, -1074, hdiv, ⟨hhalf.trans_lt hlt, le_rfl, Or.inr rfl⟩, Or.inr ⟨rfl, hhalf⟩⟩
  · have hlow : 2 ^ 52 ≤ mantissa := hfull.resolve_right hmore.ne'
    have hlog : mantissa.log2 = 52 := (Nat.log2_eq_iff hpos.ne').mpr ⟨hlow, hlt⟩
    refine ⟨mantissa, exponent - 1, div_two_normal hpos hlog hmore, ?_, Or.inl (by omega)⟩
    exact ⟨hlt, by omega, Or.inl hlow⟩

end Half

theorem unpack_pack_ofRounded (sign : Sign) {mantissa : Nat} {exponent : Int}
    (hfits : Fits mantissa exponent) (hle : exponent ≤ 971) :
    (Float.Model.pack (ofRounded sign mantissa exponent)).unpack = ofRounded sign mantissa exponent := by
  rw [ofRounded]
  split_ifs with hzero
  · exact unpack_pack_zero sign
  · rw [unpack_pack_finite sign _ hfits, if_pos hle]

/-- Positive data are compared by their exponents first. -/
theorem finite_le_iff {mantissa mantissa' : Nat} {exponent exponent' : Int} {hpos : 0 < mantissa}
    {hpos' : 0 < mantissa'} :
    UnpackedFloat.le (.finite .positive mantissa exponent hpos)
        (.finite .positive mantissa' exponent' hpos') = true ↔
      exponent < exponent' ∨ exponent = exponent' ∧ mantissa ≤ mantissa' := by
  rw [UnpackedFloat.le, UnpackedFloat.compare, Option.any_some, Ordering.isLE_then_iff_or,
    compare_lt_iff_lt, compare_eq_iff_eq, Nat.isLE_compare]

/-! ### Sizes -/

/-- A datum without a minus sign, if it has a sign at all. -/
inductive Unsigned : UnpackedFloat → Prop
  | notANumber : Unsigned .notANumber
  | infinity : Unsigned (.infinity .positive)
  | zero : Unsigned (.zero .positive)
  | finite (mantissa exponent hpos) : Unsigned (.finite .positive mantissa exponent hpos)

theorem Unsigned.abs_neg {datum : UnpackedFloat} (hunsigned : Unsigned datum) :
    datum.neg.abs = datum := by
  cases hunsigned <;> rfl

theorem unsigned_roundWithAccuracy (mantissa : Nat) (exponent : Int) (accuracy : Accuracy) :
    Unsigned (roundWithAccuracy Format.binary64 .positive mantissa exponent accuracy) := by
  simp only [roundWithAccuracy]
  split_ifs
  · exact .zero
  · exact .finite ..

theorem Unsigned.div {left right : UnpackedFloat} (hleft : Unsigned left) (hright : Unsigned right) :
    Unsigned (UnpackedFloat.div Format.binary64 left right) := by
  cases hleft with
  | notANumber => exact .notANumber
  | infinity => cases hright <;> constructor
  | zero => cases hright <;> constructor
  | finite mantissa exponent hpos =>
      cases hright with
      | notANumber => exact .notANumber
      | infinity => exact .zero
      | zero => exact .infinity
      | finite mantissa' exponent' hpos' => exact unsigned_roundWithAccuracy ..

theorem unsigned_unpack_packComponents (field : BitVec 11) (mantissa : BitVec 52) :
    Unsigned (unpack Format.binary64 (packComponents Format.binary64 .positive field mantissa)) := by
  simp only [unpack, unpackSign_packComponents, Sign.ofBitVec_toBitVec]
  split_ifs <;> constructor

theorem Unsigned.unpack_pack {datum : UnpackedFloat} (hunsigned : Unsigned datum) :
    Unsigned (Float.Model.pack datum).unpack := by
  cases hunsigned with
  | notANumber => exact .notANumber
  | infinity => exact .infinity
  | zero => exact .zero
  | finite mantissa exponent hpos =>
      change Unsigned (unpack Format.binary64 (UnpackedFloat.pack Format.binary64 _))
      simp only [UnpackedFloat.pack]
      split_ifs
      · exact .infinity
      · exact unsigned_unpack_packComponents ..
      · exact unsigned_unpack_packComponents ..

/-- Turning the sign of a number that fits changes nothing else in its bits. -/
theorem unpack_pack_neg {datum : UnpackedFloat} (hcanonical : Canonical datum) :
    (Float.Model.pack datum.neg).unpack = (Float.Model.pack datum).unpack.neg := by
  cases datum with
  | notANumber => rfl
  | infinity sign => simp only [UnpackedFloat.neg, unpack_pack_infinity]
  | zero sign => simp only [UnpackedFloat.neg, unpack_pack_zero]
  | finite sign mantissa exponent hpos =>
      simp only [UnpackedFloat.neg, unpack_pack_finite _ hpos hcanonical]
      split_ifs <;> rfl

theorem pack_unpack_model (model : Float.Model) : Float.Model.pack model.unpack = model := by
  have hbits := pack_unpack_of_valid model.valid
  obtain ⟨⟨bits⟩, hvalid⟩ := model
  simp only [Float.Model.pack, Float.Model.unpack]
  congr

theorem abs_neg_of_unsigned {value : Float} (hunsigned : Unsigned value.toModel.unpack) :
    (-value).abs = value := by
  have hneg : (-value).toModel.unpack = value.toModel.unpack.neg := by
    calc (-value).toModel.unpack
      _ = (Float.Model.pack value.toModel.unpack).unpack.neg := unpack_pack_neg (unpack_canonical _)
      _ = value.toModel.unpack.neg := by rw [pack_unpack_model]
  have hmodel : (-value).abs.toModel = value.toModel := by
    calc (-value).abs.toModel
      _ = Float.Model.pack (-value).toModel.unpack.abs := rfl
      _ = Float.Model.pack value.toModel.unpack := by rw [hneg, hunsigned.abs_neg]
      _ = value.toModel := pack_unpack_model _
  exact congrArg Float.ofModel hmodel

/-! ### Numbers -/

/-- What the bits of a number stand for. -/
def datum (number : Binary64) : UnpackedFloat := number.value.toModel.unpack

@[simp]
theorem datum_zero : (0 : Binary64).datum = .zero .positive := rfl

variable {left right number : Binary64}

theorem datum_canonical (number : Binary64) : Canonical number.datum :=
  unpack_canonical number.value.toModel

theorem lt_iff : left < right ↔ left.datum.lt right.datum = true := decide_eq_true_iff

theorem le_iff : left ≤ right ↔ left.datum.le right.datum = true := decide_eq_true_iff

theorem not_le_zero_of_positive (hpositive : Positive number.datum) : ¬number ≤ 0 := by
  rw [le_iff, datum_zero]
  generalize number.datum = datum at hpositive
  cases hpositive <;> exact Bool.false_ne_true

theorem le_zero_of_vanishes (hvanishes : Vanishes number.datum) : number ≤ 0 := by
  obtain ⟨sign, hsign⟩ := hvanishes
  rw [le_iff, datum_zero, hsign]
  rfl

/-- A number above zero has a positive datum. -/
theorem positive_of_pos (hpositive : 0 < number) : Positive number.datum := by
  rw [lt_iff, datum_zero] at hpositive
  generalize number.datum = datum at hpositive
  cases datum with
  | notANumber => cases hpositive
  | infinity sign =>
      cases sign with
      | positive => exact .infinity
      | negative => cases hpositive
  | zero sign => cases hpositive
  | finite sign mantissa exponent hpos =>
      cases sign with
      | positive => exact .finite ..
      | negative => cases hpositive

theorem unsigned_of_not_le_zero (hnot : ¬number ≤ 0) : Unsigned number.datum := by
  rw [le_iff, datum_zero] at hnot
  generalize number.datum = datum at hnot
  cases datum with
  | notANumber => exact .notANumber
  | infinity sign =>
      cases sign with
      | positive => exact .infinity
      | negative => exact absurd rfl hnot
  | zero sign => exact absurd rfl hnot
  | finite sign mantissa exponent hpos =>
      cases sign with
      | positive => exact .finite ..
      | negative => exact absurd rfl hnot

/-- A finite number that is not negative is zero or positive. -/
theorem vanishes_or_positive (hfinite : Scalar.isFinite number = true) (hnonneg : ¬number < 0) :
    Vanishes number.datum ∨ Positive number.datum := by
  have hdatum : number.datum.isFinite = true := hfinite
  rw [lt_iff, datum_zero] at hnonneg
  generalize number.datum = datum at hdatum hnonneg
  cases datum with
  | infinity sign => cases hdatum
  | notANumber => cases hdatum
  | zero sign => exact Or.inl ⟨sign, rfl⟩
  | finite sign mantissa exponent hpos =>
      cases sign with
      | positive => exact Or.inr (.finite ..)
      | negative => exact absurd rfl hnonneg

theorem datum_ofOperation (operands : List Binary64) {value : Float} {datum : UnpackedFloat}
    (hvalue : value.toModel.unpack = datum) (hdefined : datum.isNaN = false) :
    (ofOperation operands value).datum = datum := by
  subst hvalue
  have hnan : value.isNaN = false := hdefined
  rw [ofOperation, hnan]
  rfl

theorem vanishes_add (hleft : Vanishes left.datum) (hright : Vanishes right.datum) :
    Vanishes (left + right).datum := by
  obtain ⟨sign, hsum⟩ := hleft.add hright
  have hvalue : (left.value + right.value).toModel.unpack = .zero sign :=
    (congrArg (Float.Model.unpack ∘ Float.Model.pack) hsum).trans (unpack_pack_zero sign)
  exact ⟨sign, datum_ofOperation [left, right] hvalue rfl⟩

theorem positive_add (hsum : Positive (UnpackedFloat.add Format.binary64 left.datum right.datum))
    (hcanonical : Canonical (UnpackedFloat.add Format.binary64 left.datum right.datum)) :
    Positive (left + right).datum := by
  have hpacked := hsum.unpack_pack hcanonical
  generalize hvalue : (Float.Model.pack
    (UnpackedFloat.add Format.binary64 left.datum right.datum)).unpack = datum at hpacked
  have hdefined : datum.isNaN = false := by
    cases hpacked <;> rfl
  have hdatum : (left + right).datum = datum := datum_ofOperation [left, right] hvalue hdefined
  rwa [hdatum]

theorem positive_add_of_left (hleft : Positive left.datum)
    (hright : Vanishes right.datum ∨ Positive right.datum) : Positive (left + right).datum := by
  obtain ⟨hsum, hcanonical⟩ := hleft.add hright left.datum_canonical right.datum_canonical
  exact positive_add hsum hcanonical

theorem positive_add_of_right (hleft : Vanishes left.datum) (hright : Positive right.datum) :
    Positive (left + right).datum := by
  have hadd := hleft.add_eq hright
  apply positive_add
  · rwa [hadd]
  · rw [hadd]
    exact right.datum_canonical

/-! ### Sums -/

variable {terms : List Binary64}

theorem vanishes_foldl {start : Binary64} (hstart : Vanishes start.datum)
    (hterms : ∀ term ∈ terms, Vanishes term.datum) : Vanishes (terms.foldl (· + ·) start).datum := by
  induction terms generalizing start with
  | nil => exact hstart
  | cons term rest ih =>
      rw [List.forall_mem_cons] at hterms
      rw [List.foldl_cons]
      exact ih (vanishes_add hstart hterms.1) hterms.2

/-- A sum that has become positive stays positive. -/
theorem positive_foldl {start : Binary64} (hstart : Positive start.datum)
    (hterms : ∀ term ∈ terms, Vanishes term.datum ∨ Positive term.datum) :
    Positive (terms.foldl (· + ·) start).datum := by
  induction terms generalizing start with
  | nil => exact hstart
  | cons term rest ih =>
      rw [List.forall_mem_cons] at hterms
      rw [List.foldl_cons]
      exact ih (positive_add_of_left hstart hterms.1) hterms.2

theorem positive_foldl_of_mem {start : Binary64} (hstart : Vanishes start.datum)
    (hterms : ∀ term ∈ terms, Vanishes term.datum ∨ Positive term.datum)
    (hpositive : ∃ term ∈ terms, Positive term.datum) :
    Positive (terms.foldl (· + ·) start).datum := by
  induction terms generalizing start with
  | nil => simp at hpositive
  | cons term rest ih =>
      rw [List.forall_mem_cons] at hterms
      rw [List.exists_mem_cons_iff] at hpositive
      rw [List.foldl_cons]
      rcases hterms.1 with hvanishes | hterm
      · have hrest : ∃ term ∈ rest, Positive term.datum := by
          refine hpositive.resolve_left fun hterm => ?_
          exact not_le_zero_of_positive hterm (le_zero_of_vanishes hvanishes)
        exact ih (vanishes_add hstart hvanishes) hterms.2 hrest
      · exact positive_foldl (positive_add_of_right hstart hterm) hterms.2

theorem sum_le_zero_iff
    (hterms : ∀ term ∈ terms, Scalar.isFinite term = true ∧ ¬term < 0) :
    Scalar.sum terms ≤ 0 ↔ ∀ term ∈ terms, term ≤ 0 := by
  have hdata : ∀ term ∈ terms, Vanishes term.datum ∨ Positive term.datum := fun term hterm =>
    vanishes_or_positive (hterms term hterm).1 (hterms term hterm).2
  have hstart : Vanishes (-0 : Binary64).datum := ⟨.negative, rfl⟩
  constructor
  · intro hsum term hterm
    refine (hdata term hterm).elim le_zero_of_vanishes fun hpositive => ?_
    exact absurd hsum
      (not_le_zero_of_positive (positive_foldl_of_mem hstart hdata ⟨term, hterm, hpositive⟩))
  · intro hall
    refine le_zero_of_vanishes (vanishes_foldl hstart fun term hterm => ?_)
    exact (hdata term hterm).resolve_right fun hpositive =>
      not_le_zero_of_positive hpositive (hall term hterm)

/-! ### Shares -/

/-- A number above zero that is not above one is finite, with an exponent far from the greatest one. -/
theorem exists_datum_of_share {share : Binary64} (hpositive : 0 < share) (hle : share ≤ 1) :
    ∃ mantissa exponent hpos, share.datum = .finite .positive mantissa exponent hpos ∧
      exponent ≤ -52 := by
  have hone : (1 : Binary64).datum = .finite .positive (2 ^ 52) (-52) (Nat.two_pow_pos 52) := rfl
  have hdatum := positive_of_pos hpositive
  rw [le_iff, hone] at hle
  generalize share.datum = datum at hdatum hle
  cases hdatum with
  | infinity => cases hle
  | finite mantissa exponent hpos =>
      rw [finite_le_iff] at hle
      exact ⟨mantissa, exponent, hpos, rfl, by omega⟩

theorem half_isWithin {share : Binary64} (hpositive : 0 < share) (hle : share ≤ 1) :
    Scalar.isWithin 0 share (share / ((2 : Nat) : Binary64)) = true := by
  obtain ⟨mantissa, exponent, hpos, hdatum, hexponent⟩ := exists_datum_of_share hpositive hle
  have hfits : Fits mantissa exponent := by
    have hcanonical := share.datum_canonical
    rwa [hdatum] at hcanonical
  obtain ⟨half, place, hdiv, hhalf, hbelow⟩ := exists_div_two hpos hfits
  have hquotient : (share.value / ((2 : Nat) : Binary64).value).toModel.unpack =
      (Float.Model.pack (UnpackedFloat.div Format.binary64 share.datum two)).unpack := rfl
  have hdefined : (ofRounded .positive half place).isNaN = false := by
    unfold ofRounded
    split_ifs <;> rfl
  rw [hdatum, hdiv, unpack_pack_ofRounded .positive hhalf (by omega)] at hquotient
  have hresult : (share / ((2 : Nat) : Binary64)).datum = ofRounded .positive half place :=
    datum_ofOperation [share, ((2 : Nat) : Binary64)] hquotient hdefined
  rw [Scalar.isWithin, Bool.and_eq_true, decide_eq_true_iff, decide_eq_true_iff, le_iff, le_iff,
    hresult, datum_zero, hdatum, ofRounded]
  split_ifs
  · exact ⟨rfl, rfl⟩
  · exact ⟨rfl, finite_le_iff.mpr hbelow⟩

/-! ### Quotients -/

theorem isUndefined_ofOperation {operands : List Binary64} {value : Float} (hnan : value.isNaN = true) :
    (ofOperation operands value).isUndefined = true := by
  rw [ofOperation, if_pos hnan]
  cases hfind : operands.find? isUndefined with
  | none => exact hnan
  | some operand => exact List.find?_some hfind

theorem isUndefined_magnitude_neg (hundefined : number.isUndefined = true) :
    (Scalar.magnitude (-number)).isUndefined = true := by
  have hdatum : number.datum = .notANumber := isNaN_iff.mp hundefined
  have hunsigned : Unsigned number.datum := by
    rw [hdatum]
    exact .notANumber
  calc (-number.value).abs.isNaN
    _ = number.value.isNaN := by rw [abs_neg_of_unsigned hunsigned]
    _ = true := hundefined

theorem beq_self_of_isUndefined (hundefined : number.isUndefined = true) :
    (number == number) = false := by
  have hnan : number.value = Float.nan := by simpa [isUndefined] using hundefined
  exact Float.beq_self_eq_false_iff.mpr hnan

theorem magnitude_neg_of_unsigned {value : Float} (hunsigned : Unsigned value.toModel.unpack) :
    Scalar.magnitude (-(⟨value, false⟩ : Binary64)) = ⟨value, false⟩ :=
  congrArg (Binary64.mk · false) (abs_neg_of_unsigned hunsigned)

/-- An undefined quotient may lose the sign that it had from an operand. -/
theorem same_magnitude_neg_div {value price : Binary64} (hvalue : ¬value ≤ 0) (hprice : 0 < price) :
    Scalar.Same (Scalar.magnitude (-(value / price))) (value / price) := by
  cases hnan : (value.value / price.value).isNaN with
  | false =>
      have hdefined : value / price = ⟨value.value / price.value, false⟩ :=
        if_neg (Bool.eq_false_iff.mp hnan)
      have hdivisor : Unsigned price.datum :=
        unsigned_of_not_le_zero (not_le_zero_of_positive (positive_of_pos hprice))
      have hquotient : Unsigned (value.value / price.value).toModel.unpack :=
        ((unsigned_of_not_le_zero hvalue).div hdivisor).unpack_pack
      rw [hdefined]
      exact .inl (magnitude_neg_of_unsigned hquotient)
  | true =>
      have hundefined : (value / price).isUndefined = true := isUndefined_ofOperation hnan
      exact .inr ⟨beq_self_of_isUndefined (isUndefined_magnitude_neg hundefined),
        beq_self_of_isUndefined hundefined⟩

end Binary64

instance : LawfulScalar Binary64 where
  isFinite_zero := rfl
  zero_not_neg := by decide
  isFinite_one := rfl
  one_not_neg := by decide
  one_pos := by decide
  sum_le_zero_iff _ := Binary64.sum_le_zero_iff
  half_isWithin _ := Binary64.half_isWithin

instance : Scalar.KeepsQuotients Binary64 where
  magnitude_neg_div _ _ := Binary64.same_magnitude_neg_div

end Backtest
