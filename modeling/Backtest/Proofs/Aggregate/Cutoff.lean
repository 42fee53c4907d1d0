import Backtest.Aggregate
import Backtest.Proofs.Error.Stages
import Backtest.Proofs.Series.Cutoff

/-!
# Aggregation up to a date

Signals that can be combined can be combined as they are known on a cut-off date, to what is then known
of their combination. The names, the weights and the thresholds are checked alike, the days that all
signals have are the same up to the date, and a row of positions is read on its own day. A majority with
a threshold also remembers a position, which comes from earlier rows.
-/

namespace Backtest

variable {cutoff : Date}

def NamedSignal.upTo (cutoff : Date) (signal : NamedSignal) : NamedSignal :=
  { signal with positions := signal.positions.upTo cutoff }

namespace Aggregate

theorem names_upTo (signals : List NamedSignal) :
    (signals.map (NamedSignal.upTo cutoff)).map NamedSignal.name = signals.map NamedSignal.name := by
  rw [List.map_map]
  rfl

theorem rows_upTo (signals : List NamedSignal) :
    rows (signals.map (NamedSignal.upTo cutoff)) = (rows signals).upTo cutoff := by
  have haxes : (signals.map (NamedSignal.upTo cutoff)).map NamedSignal.positions =
      (signals.map NamedSignal.positions).map (Series.upTo cutoff) := by
    rw [List.map_map, List.map_map]
    rfl
  rw [rows, haxes, Series.commonAxis_upTo, rows, Series.onAxis_upTo]
  intro date _ hkept
  rw [List.map_map]
  refine List.map_congr_left fun signal _ => ?_
  rw [Function.comp_apply, NamedSignal.upTo, Series.get?_upTo, if_pos hkept]

variable {α : Type} [Scalar α]

theorem combineRows_upTo {names : List String} {rows : Series (List Position)} {method : Method α}
    {combination : Combination α} (hcombine : combineRows names rows method = .ok combination) :
    ∃ known, combineRows names (rows.upTo cutoff) method = .ok known ∧
      known.positions = combination.positions.upTo cutoff := by
  cases method with
  | weighted weights =>
      obtain ⟨shares, hshares, hresult⟩ := bind_eq_ok_iff.mp hcombine
      cases hresult
      refine ⟨_, bind_eq_ok_iff.mpr ⟨shares, hshares, rfl⟩, ?_⟩
      rw [← Series.map_upTo, ← Series.map_upTo]
  | majority threshold exitThreshold =>
      cases threshold with
      | none =>
          cases hcombine
          refine ⟨_, rfl, ?_⟩
          rw [← Series.map_upTo]
      | some threshold =>
          -- The thresholds are checked without the rows, and the scan starts from cash in both runs.
          obtain ⟨_, hcheck, hresult⟩ := bind_eq_ok_iff.mp hcombine
          cases hresult
          refine ⟨_, bind_eq_ok_iff.mpr ⟨(), hcheck, rfl⟩, ?_⟩
          rw [← Series.scan_upTo]
  | custom expression =>
      obtain ⟨vote, hvote, hresult⟩ := bind_eq_ok_iff.mp hcombine
      cases hresult
      refine ⟨_, bind_eq_ok_iff.mpr ⟨vote, hvote, rfl⟩, ?_⟩
      rw [← Series.map_upTo, ← Series.map_upTo]

theorem combine_upTo (cutoff : Date) {signals : List NamedSignal} {method : Method α}
    {combination : Combination α} (hcombine : combine signals method = .ok combination) :
    ∃ known, combine (signals.map (NamedSignal.upTo cutoff)) method = .ok known ∧
      known.positions = combination.positions.upTo cutoff := by
  unfold combine at hcombine ⊢
  simp only [names_upTo, rows_upTo, List.isEmpty_map] at hcombine ⊢
  by_cases hempty : signals.isEmpty = true
  · rw [if_pos hempty] at hcombine
    cases hcombine
  · rw [if_neg hempty] at hcombine ⊢
    cases hrepeated : firstRepeated? [] (signals.map NamedSignal.name) with
    | some name =>
        simp only [hrepeated] at hcombine
        cases hcombine
    | none =>
        simp only [hrepeated] at hcombine ⊢
        exact combineRows_upTo hcombine

end Aggregate

end Backtest
