import Mathlib.Algebra.Order.Field.Rat
import Mathlib.Data.Option.NAry
import Backtest.Proofs.Scalar.Exact

/-!
# Partial scalars

On rational numbers a division by zero gives zero and goes unnoticed. Partial scalars notice it: they are
exact scalars and an undefined one, which such a division gives. What is computed with the undefined
scalar is undefined again, and a test on it may come out either way. A computation that gives the same in
exact and in partial scalars, however the tests come out, therefore never uses a division by zero.
-/

namespace Backtest

/-- How the tests on undefined scalars come out. -/
structure Answers where
  less : Option Rat → Option Rat → Bool
  atMost : Option Rat → Option Rat → Bool
  equal : Option Rat → Option Rat → Bool
  precedes : Option Rat → Option Rat → Bool
  isFinite : Bool
  floorNat : Nat
  ceilNat : Nat
  text : String
  fixedText : Nat → String

/-- A rational number, or undefined. -/
structure PartialRat (answers : Answers) where
  value : Option Rat
deriving DecidableEq, Repr

namespace PartialRat

variable {answers : Answers}

/-- The defined scalars are the exact ones. -/
def of (value : Rat) : PartialRat answers := ⟨some value⟩

/-- No number is the quotient of a division by zero. -/
def quotient? (dividend divisor : Rat) : Option Rat :=
  if divisor = 0 then none else some (dividend / divisor)

def lift (f : Rat → Rat) (scalar : PartialRat answers) : PartialRat answers := ⟨scalar.value.map f⟩

def lift₂ (f : Rat → Rat → Rat) (left right : PartialRat answers) : PartialRat answers :=
  ⟨Option.map₂ f left.value right.value⟩

def test (answer : Option Rat → Option Rat → Bool) (holds : Rat → Rat → Bool)
    (left right : PartialRat answers) : Bool :=
  match left.value, right.value with
  | some first, some second => holds first second
  | first, second => answer first second

instance : Scalar (PartialRat answers) where
  zero := of 0
  one := of 1
  natCast n := of n
  intCast n := of n
  add := lift₂ (· + ·)
  sub := lift₂ (· - ·)
  mul := lift₂ (· * ·)
  div left right := ⟨left.value.bind fun dividend => right.value.bind (quotient? dividend)⟩
  neg := lift (-·)
  lt left right := test answers.less (· < ·) left right = true
  le left right := test answers.atMost (· ≤ ·) left right = true
  beq := test answers.equal (· == ·)
  decidableLT left right := inferInstanceAs (Decidable (test answers.less (· < ·) left right = true))
  decidableLE left right := inferInstanceAs (Decidable (test answers.atMost (· ≤ ·) left right = true))
  magnitude := lift Scalar.magnitude
  isFinite scalar := scalar.value.elim answers.isFinite Scalar.isFinite
  precedes := test answers.precedes Scalar.precedes
  floorNat scalar := scalar.value.elim answers.floorNat Scalar.floorNat
  ceilNat scalar := scalar.value.elim answers.ceilNat Scalar.ceilNat
  ofNumeral? numeral := (Scalar.ofNumeral? numeral).map of
  text scalar := scalar.value.elim answers.text Scalar.text
  fixedText places scalar := scalar.value.elim (answers.fixedText places) (Scalar.fixedText places)

instance [Roots Rat] : Roots (PartialRat answers) where
  sqrt := lift Roots.sqrt
  power := lift₂ Roots.power

/-! ### Operations on defined scalars -/

variable (left right : Rat)

@[simp]
theorem zero_eq : (0 : PartialRat answers) = of 0 := rfl

@[simp]
theorem one_eq : (1 : PartialRat answers) = of 1 := rfl

@[simp]
theorem natCast_eq (n : Nat) : (n : PartialRat answers) = of n := rfl

@[simp]
theorem intCast_eq (n : Int) : (n : PartialRat answers) = of n := rfl

@[simp]
theorem of_add_of : (of left + of right : PartialRat answers) = of (left + right) := rfl

@[simp]
theorem of_sub_of : (of left - of right : PartialRat answers) = of (left - right) := rfl

@[simp]
theorem of_mul_of : (of left * of right : PartialRat answers) = of (left * right) := rfl

@[simp]
theorem neg_of : (-of left : PartialRat answers) = of (-left) := rfl

/-- A quotient is defined only where both scalars are and the divisor is not zero. -/
theorem div_eq_of_iff {dividend divisor : PartialRat answers} {value : Rat} :
    dividend / divisor = of value ↔
      ∃ first second, dividend = of first ∧ divisor = of second ∧ second ≠ 0 ∧ first / second = value := by
  obtain ⟨first⟩ := dividend
  obtain ⟨second⟩ := divisor
  change (⟨first.bind fun number => second.bind (quotient? number)⟩ : PartialRat answers) = of value ↔ _
  cases first <;> cases second <;> simp [of, quotient?]

/-- The only operation that asks for a condition. -/
theorem of_div_of {divisor : Rat} (hdivisor : divisor ≠ 0) (dividend : Rat) :
    (of dividend / of divisor : PartialRat answers) = of (dividend / divisor) :=
  div_eq_of_iff.mpr ⟨dividend, divisor, rfl, rfl, hdivisor, rfl⟩

@[simp]
theorem of_lt_of : (of left : PartialRat answers) < of right ↔ left < right := decide_eq_true_iff

@[simp]
theorem of_le_of : (of left : PartialRat answers) ≤ of right ↔ left ≤ right := decide_eq_true_iff

@[simp]
theorem of_beq_of : ((of left : PartialRat answers) == of right) = (left == right) := rfl

@[simp]
theorem magnitude_of :
    Scalar.magnitude (of left : PartialRat answers) = of (Scalar.magnitude left) := rfl

@[simp]
theorem isFinite_of : Scalar.isFinite (of left : PartialRat answers) = true := rfl

@[simp]
theorem precedes_of :
    Scalar.precedes (of left : PartialRat answers) (of right) = Scalar.precedes left right := rfl

@[simp]
theorem floorNat_of : Scalar.floorNat (of left : PartialRat answers) = Scalar.floorNat left := rfl

@[simp]
theorem ceilNat_of : Scalar.ceilNat (of left : PartialRat answers) = Scalar.ceilNat left := rfl

@[simp]
theorem text_of : Scalar.text (of left : PartialRat answers) = Scalar.text left := rfl

section Roots

variable [Roots Rat]

@[simp]
theorem sqrt_of : Roots.sqrt (of left : PartialRat answers) = of (Roots.sqrt left) := rfl

@[simp]
theorem power_of :
    Roots.power (of left : PartialRat answers) (of right) = of (Roots.power left right) := rfl

end Roots

/-- The length of a list that is not empty can be divided by. -/
theorem length_ne_zero {β : Type} {members : List β} (hsome : members ≠ []) : (members.length : Rat) ≠ 0 :=
  Nat.cast_ne_zero.mpr (List.length_pos_of_ne_nil hsome).ne'

theorem ratio_eq {denominator : Nat} (hdenominator : denominator ≠ 0) (numerator : Nat) :
    (Scalar.ratio numerator denominator : PartialRat answers) =
      of (Scalar.ratio numerator denominator) :=
  of_div_of (Nat.cast_ne_zero.mpr hdenominator) numerator

@[simp]
theorem isWithin_of (low high value : Rat) :
    Scalar.isWithin (of low : PartialRat answers) (of high) (of value) =
      Scalar.isWithin low high value := by
  simp [Scalar.isWithin]

@[simp]
theorem isBelow_of (low high value : Rat) :
    Scalar.isBelow (of low : PartialRat answers) (of high) (of value) =
      Scalar.isBelow low high value := by
  simp [Scalar.isBelow]

@[simp]
theorem clamp_of (low high value : Rat) :
    Scalar.clamp (of low : PartialRat answers) (of high) (of value) =
      of (Scalar.clamp low high value) := by
  unfold Scalar.clamp
  simp only [of_lt_of]
  split_ifs <;> rfl

/-- A function that commutes with both ways to add commutes with the totals. -/
theorem foldl_of {β : Type} (step : PartialRat answers → β → PartialRat answers) (step' : Rat → β → Rat)
    (hstep : ∀ total item, step (of total) item = of (step' total item)) (items : List β) (total : Rat) :
    items.foldl step (of total) = of (items.foldl step' total) := by
  induction items generalizing total with
  | nil => rfl
  | cons item rest ih => rw [List.foldl_cons, List.foldl_cons, hstep, ih]

@[simp]
theorem sum_map_of (terms : List Rat) :
    Scalar.sum (terms.map of : List (PartialRat answers)) = of (Scalar.sum terms) := by
  rw [Scalar.sum, List.foldl_map, zero_eq, neg_of]
  exact foldl_of _ (· + ·) of_add_of terms (-0)

end PartialRat

end Backtest
