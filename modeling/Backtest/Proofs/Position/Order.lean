import Mathlib.Data.Int.Order.Basic
import Mathlib.Order.Basic
import Backtest.Position

/-!
# The order of positions

Short is below cash, and cash below long. Two positions are in order when the first one being long makes
the second one long, and the second one being short makes the first one short.
-/

namespace Backtest.Position

variable {first second : Position}

theorem sign_injective : Function.Injective sign := by
  intro first second hsign
  have hpositions : some first = some second := by
    rw [← ofSign?_sign first, ← ofSign?_sign second, hsign]
  exact Option.some.inj hpositions

instance : LE Position where
  le first second := first.sign ≤ second.sign

instance : DecidableLE Position := fun first second =>
  inferInstanceAs (Decidable (first.sign ≤ second.sign))

instance : PartialOrder Position where
  le_refl position := Int.le_refl position.sign
  le_trans _ _ _ hlower hupper := Int.le_trans hlower hupper
  le_antisymm _ _ hle hge := sign_injective (Int.le_antisymm hle hge)

theorem le_def : first ≤ second ↔ first.sign ≤ second.sign := Iff.rfl

theorem le_iff : first ≤ second ↔ (first = long → second = long) ∧ (second = short → first = short) := by
  cases first <;> cases second <;> decide

end Backtest.Position
