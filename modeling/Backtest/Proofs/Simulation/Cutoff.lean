import Backtest.Proofs.Ledger.Matching
import Backtest.Proofs.Simulation.Checks
import Backtest.Proofs.Simulation.Days

/-!
# Runs up to a date

A run over the bars up to a cut-off date leaves behind what the run over all the bars had left behind
by that date: the same points, the same trades and the same round trips. It reads the signal on the
days of its bars alone.
-/

namespace Backtest.Simulation

variable {α : Type} [Scalar α] {terms : Terms α} {signal : Series Position} {bars : List (Bar α)}
  {cutoff : Date}

/-! ### What a run reads of its signal -/

theorem days_congr {other : Series Position}
    (hagree : ∀ bar ∈ bars, signal.get? bar.date = other.get? bar.date) (account : Account α)
    (previous : Option (EquityPoint α)) :
    days terms signal account previous bars = days terms other account previous bars := by
  induction bars generalizing account previous with
  | nil => rfl
  | cons bar rest ih =>
      have hbar : signal.get? bar.date = other.get? bar.date := hagree bar List.mem_cons_self
      have hrest : ∀ later ∈ rest, signal.get? later.date = other.get? later.date :=
        fun later hlater => hagree later (List.mem_cons_of_mem bar hlater)
      rw [days_cons, days_cons, ih hrest]
      simp only [turnOn, dayOn, hbar]

theorem outcome_congr (terms : Terms α) {other : Series Position}
    (hagree : ∀ bar ∈ bars, signal.get? bar.date = other.get? bar.date) :
    outcome terms bars signal = outcome terms bars other := by
  simp only [outcome, days_congr hagree]

/-! ### What a run leaves behind up to a date -/

theorem roundTrips_outcome (bars : List (Bar α)) :
    (outcome terms bars signal).roundTrips =
      RoundTrip.ofTrades (outcome terms bars signal).trades :=
  rfl

theorem filter_equity_outcome (hascending : (bars.map Bar.date).Pairwise (· < ·)) :
    ((outcome terms bars signal).equity.filter fun point => point.date ≤ cutoff) =
      (outcome terms (bars.filter fun bar => bar.date ≤ cutoff) signal).equity := by
  obtain ⟨early, late, rfl, hearly, hlate⟩ := Date.exists_append_of_ascending Bar.date cutoff hascending
  obtain ⟨rest, hequity, hrest⟩ :=
    exists_equity_outcome_append terms signal early late
  rw [Date.filter_append_eq_left hearly hlate, hequity]
  refine Date.filter_append_eq_left (fun point hpoint => ?_) fun point hpoint => ?_
  · have hdate := List.mem_map_of_mem (f := EquityPoint.date) hpoint
    rw [dates_equity_outcome, List.mem_map] at hdate
    obtain ⟨bar, hbar, hdate⟩ := hdate
    exact hdate ▸ hearly bar hbar
  · have hdate := List.mem_map_of_mem (f := EquityPoint.date) hpoint
    rw [hrest, List.mem_map] at hdate
    obtain ⟨bar, hbar, hdate⟩ := hdate
    exact hdate ▸ hlate bar hbar

/-- The trades after a cut-off date follow those before it. -/
theorem exists_trades_after_cutoff (terms : Terms α) (signal : Series Position) (cutoff : Date)
    (hascending : (bars.map Bar.date).Pairwise (· < ·)) :
    ∃ later, (outcome terms bars signal).trades =
        (outcome terms (bars.filter fun bar => bar.date ≤ cutoff) signal).trades ++ later ∧
      (∀ trade ∈ (outcome terms (bars.filter fun bar => bar.date ≤ cutoff) signal).trades,
        trade.date ≤ cutoff) ∧
      ∀ trade ∈ later, cutoff < trade.date := by
  obtain ⟨early, late, rfl, hearly, hlate⟩ := Date.exists_append_of_ascending Bar.date cutoff hascending
  obtain ⟨later, htrades, hlater⟩ := exists_trades_outcome_append terms signal early late
  rw [Date.filter_append_eq_left hearly hlate]
  refine ⟨later, htrades, fun trade htrade => ?_, fun trade htrade => ?_⟩
  · obtain ⟨bar, hbar, hdate⟩ := exists_bar_of_mem_trades htrade
    exact hdate ▸ hearly bar hbar
  · obtain ⟨bar, hbar, hdate⟩ := hlater trade htrade
    exact hdate ▸ hlate bar hbar

theorem filter_trades_outcome (hascending : (bars.map Bar.date).Pairwise (· < ·)) :
    ((outcome terms bars signal).trades.filter fun trade => trade.date ≤ cutoff) =
      (outcome terms (bars.filter fun bar => bar.date ≤ cutoff) signal).trades := by
  obtain ⟨later, htrades, hbefore, hafter⟩ :=
    exists_trades_after_cutoff terms signal cutoff hascending
  rw [htrades]
  exact Date.filter_append_eq_left hbefore hafter

/-- A round trip ends with a trade, so those of the later trades end after the cut-off. -/
theorem filter_roundTrips_outcome (hascending : (bars.map Bar.date).Pairwise (· < ·)) :
    ((outcome terms bars signal).roundTrips.filter fun trip => trip.exitDate ≤ cutoff) =
      (outcome terms (bars.filter fun bar => bar.date ≤ cutoff) signal).roundTrips := by
  obtain ⟨later, htrades, hbefore, hafter⟩ :=
    exists_trades_after_cutoff terms signal cutoff hascending
  rw [roundTrips_outcome, roundTrips_outcome, htrades, RoundTrip.ofTrades_append]
  refine Date.filter_append_eq_left (fun trip htrip => ?_) fun trip htrip => ?_
  · have hmatched : trip ∈ Waiting.none.matched
        (outcome terms (bars.filter fun bar => bar.date ≤ cutoff) signal).trades := htrip
    obtain ⟨exit, hexit, hdate⟩ := Waiting.exists_trade_of_mem_matched hmatched
    exact hdate ▸ hbefore exit hexit
  · obtain ⟨exit, hexit, hdate⟩ := Waiting.exists_trade_of_mem_matched htrip
    exact hdate ▸ hafter exit hexit

end Backtest.Simulation
