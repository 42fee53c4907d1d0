import Mathlib.Algebra.Order.BigOperators.Group.List
import Mathlib.Algebra.Order.Field.Rat
import Mathlib.Tactic.Linarith
import Backtest.Proofs.Scalar.Exact

/-!
# Laws that rounding keeps

Two readers of one configuration may compute with its numbers in different ways and still have to agree
on whether they are acceptable. That needs a few laws of the scalars. Exact scalars have them, and
rounded ones keep them, because rounding never changes the order of two numbers.
-/

namespace Backtest

class LawfulScalar (α : Type) [Scalar α] : Prop where
  isFinite_zero : Scalar.isFinite (0 : α) = true
  zero_not_neg : ¬(0 : α) < 0
  isFinite_one : Scalar.isFinite (1 : α) = true
  one_not_neg : ¬(1 : α) < 0
  one_pos : ¬(1 : α) ≤ 0
  /-- A sum of finite terms that are not negative is positive as soon as one of them is. -/
  sum_le_zero_iff : ∀ terms : List α, (∀ term ∈ terms, Scalar.isFinite term = true ∧ ¬term < 0) →
    (Scalar.sum terms ≤ 0 ↔ ∀ term ∈ terms, term ≤ 0)
  half_isWithin : ∀ share : α, 0 < share → share ≤ 1 →
    Scalar.isWithin 0 share (share / ((2 : Nat) : α)) = true

namespace Scalar

section Same

variable {α : Type} [Scalar α]

/-- Equal or both undefined. An undefined scalar is not equal to itself. -/
def Same (left right : α) : Prop :=
  left = right ∨ ((left == left) = false ∧ (right == right) = false)

/-- Turning the sign of a quotient and dropping it gives the quotient back. -/
class KeepsQuotients (α : Type) [Scalar α] : Prop where
  magnitude_neg_div : ∀ value price : α, ¬value ≤ 0 → 0 < price →
    Same (magnitude (-(value / price))) (value / price)

end Same

theorem same_rat_iff {left right : Rat} : Same left right ↔ left = right := by
  simp [Same]

theorem sum_rat_le_zero_iff {terms : List Rat} (hnonneg : ∀ term ∈ terms, 0 ≤ term) :
    terms.sum ≤ 0 ↔ ∀ term ∈ terms, term ≤ 0 := by
  constructor
  · intro htotal term hterm
    exact (List.single_le_sum hnonneg term hterm).trans htotal
  · intro hterms
    simpa using List.sum_le_card_nsmul terms 0 hterms

instance : LawfulScalar Rat where
  isFinite_zero := rfl
  zero_not_neg := lt_irrefl 0
  isFinite_one := rfl
  one_not_neg := by norm_num
  one_pos := by norm_num
  sum_le_zero_iff terms hterms := by
    rw [sum_rat]
    exact sum_rat_le_zero_iff fun term hterm => not_lt.mp (hterms term hterm).2
  half_isWithin share hpositive _ := by
    have hnonneg : 0 ≤ share / 2 := by linarith
    have hle : share / 2 ≤ share := by linarith
    simpa [isWithin] using And.intro hnonneg hle

instance : KeepsQuotients Rat where
  magnitude_neg_div value price hvalue hprice := by
    have hquotient : 0 < value / price := div_pos (not_le.mp hvalue) hprice
    rw [same_rat_iff, magnitude_rat, abs_neg, abs_of_pos hquotient]

end Scalar

end Backtest
