import Mathlib.Algebra.BigOperators.Group.List.Basic
import Mathlib.Algebra.Order.Field.Rat
import Mathlib.Data.List.Chain
import Backtest.Performance
import Backtest.Proofs.Simulation.Conservation

/-!
# Compound returns

The ledger records the gain of a day over the day before, the statistics leave out the first day, and the
total return looks at the last value alone. The three agree: the daily returns lead from the first value
to the last. Only the last value may be zero, since the ledger records no gain over nothing; negative
values compound like all others.
-/

namespace Backtest

/-- What returns multiply a value with, one after the other. -/
def Returns.growth (returns : List Rat) : Rat := (returns.map (1 + ·)).prod

theorem Returns.growth_cons (first : Rat) (rest : List Rat) :
    growth (first :: rest) = (1 + first) * growth rest := by
  rw [growth, List.map_cons, List.prod_cons, growth]

/-- The point carries the gain over the point before it. -/
def EquityPoint.Continues {α : Type} [Scalar α] (previous point : EquityPoint α) : Prop :=
  point.dailyReturn = returnSince (some previous) point.portfolioValue

namespace Ledger

variable {α : Type} [Scalar α]

/-- The ledger has been written by records alone, trades and points in any order. -/
inductive Recorded : Ledger α → Prop
  | empty : Recorded .empty
  | trade {ledger : Ledger α} (hrecorded : Recorded ledger) (trade : Trade α) :
      Recorded (ledger.recordTrade trade)
  | equity {ledger : Ledger α} (hrecorded : Recorded ledger) (date : Date) (price : α)
      (position : Position) (capital shares : α) :
      Recorded (ledger.recordEquity date price position capital shares)

namespace Recorded

variable {ledger : Ledger α}

theorem trades (hrecorded : Recorded ledger) (trades : List (Trade α)) :
    Recorded ⟨ledger.trades ++ trades, ledger.equity⟩ := by
  induction trades using List.reverseRecOn with
  | nil => rwa [List.append_nil]
  | append_singleton trades last ih =>
      rw [← List.append_assoc]
      exact ih.trade last

/-- By induction on the records: a new point is taken against the last one of the curve. -/
theorem isChain (hrecorded : Recorded ledger) : ledger.equity.IsChain EquityPoint.Continues := by
  induction hrecorded with
  | empty => exact .nil
  | trade _ _ ih => exact ih
  | @equity ledger _ date price position capital shares ih =>
      refine List.isChain_append.mpr ⟨ih, .singleton _, ?_⟩
      intro previous hprevious point hpoint
      rw [List.head?_cons, Option.mem_some_iff] at hpoint
      rw [← hpoint, Option.mem_def.mp hprevious]
      rfl

end Recorded

end Ledger

/-! ### Curves -/

namespace EquityPoint

variable {previous point first : EquityPoint Rat} {rest : List (EquityPoint Rat)}

theorem Continues.mul_growth (hcontinues : previous.Continues point)
    (hnonzero : previous.portfolioValue ≠ 0) :
    previous.portfolioValue * (1 + point.dailyReturn) = point.portfolioValue := by
  have hsomething : ¬(previous.portfolioValue == 0) = true := by rwa [beq_iff_eq]
  have hgain : point.dailyReturn =
      (point.portfolioValue - previous.portfolioValue) / previous.portfolioValue := by
    rw [hcontinues, returnSince, if_neg hsomething]
  rw [hgain, mul_add, mul_one, mul_div_cancel₀ _ hnonzero, add_sub_cancel]

theorem dailyReturns_cons (first point : EquityPoint Rat) (rest : List (EquityPoint Rat)) :
    Performance.dailyReturns (first :: point :: rest) =
      point.dailyReturn :: Performance.dailyReturns (point :: rest) := rfl

theorem getLast_eq_mul_growth (hchain : (first :: rest).IsChain Continues)
    (hnonzero : ∀ point ∈ (first :: rest).dropLast, point.portfolioValue ≠ 0) :
    ((first :: rest).getLast (List.cons_ne_nil _ _)).portfolioValue =
      first.portfolioValue * Returns.growth (Performance.dailyReturns (first :: rest)) := by
  induction rest generalizing first with
  | nil => exact (mul_one _).symm
  | cons point rest ih =>
      rw [List.isChain_cons_cons] at hchain
      rw [List.dropLast_cons_cons, List.forall_mem_cons] at hnonzero
      rw [List.getLast_cons (List.cons_ne_nil _ _), ih hchain.2 hnonzero.2, dailyReturns_cons,
        Returns.growth_cons, ← mul_assoc, hchain.1.mul_growth hnonzero.1]

end EquityPoint

theorem Ledger.Recorded.last_eq_mul_growth {ledger : Ledger Rat} (hrecorded : Recorded ledger)
    (hnonzero : ∀ point ∈ ledger.equity.dropLast, point.portfolioValue ≠ 0)
    {first last : EquityPoint Rat} (hfirst : first ∈ ledger.equity.head?)
    (hlast : last ∈ ledger.equity.getLast?) :
    last.portfolioValue =
      first.portfolioValue * Returns.growth (Performance.dailyReturns ledger.equity) := by
  have hchain := hrecorded.isChain
  obtain ⟨rest, hequity⟩ := List.head?_eq_some_iff.mp (Option.mem_def.mp hfirst)
  rw [hequity] at hchain hnonzero hlast ⊢
  rw [List.getLast?_eq_some_getLast (List.cons_ne_nil _ _), Option.mem_some_iff] at hlast
  rw [← hlast]
  exact EquityPoint.getLast_eq_mul_growth hchain hnonzero

/-! ### Runs -/

namespace Simulation

variable {terms : Terms Rat} {signal : Series Position} {bars : List (Bar Rat)}

/-- A run writes its trades and points by records, those of each day after those of the days before. -/
theorem outcome_recorded (terms : Terms Rat) (signal : Series Position) (bars : List (Bar Rat)) :
    Ledger.Recorded ⟨(outcome terms bars signal).trades, (outcome terms bars signal).equity⟩ := by
  induction bars using List.reverseRecOn with
  | nil => exact .empty
  | append_singleton bars bar ih =>
      rw [trades_outcome_concat, equity_outcome_concat]
      exact (ih.trades _).equity _ _ _ _ _

theorem equity_ne_nil (hbars : bars ≠ []) : (outcome terms bars signal).equity ≠ [] := by
  intro hnil
  have hdates : (outcome terms bars signal).equity.map EquityPoint.date = bars.map Bar.date :=
    dates_equity_outcome bars
  rw [hnil, List.map_nil] at hdates
  exact hbars (List.map_eq_nil_iff.mp hdates.symm)

end Simulation

namespace Performance

open Simulation

/-- **Daily returns compound.** On every curve that a ledger has recorded, the factors of the daily
returns lead from the first value to the last, if no value before the last is zero. So the total return
of a run is what the first day has made of the initial capital, compounded with the daily returns. -/
theorem daily_returns_compound [Roots Rat] :
    (∀ ledger : Ledger Rat, ledger.Recorded →
      (∀ point ∈ ledger.equity.dropLast, point.portfolioValue ≠ 0) →
      ∀ first ∈ ledger.equity.head?, ∀ last ∈ ledger.equity.getLast?,
        last.portfolioValue =
          first.portfolioValue * Returns.growth (dailyReturns ledger.equity)) ∧
    ∀ (terms : Terms Rat) (bars : List (Bar Rat)) (signal : Series Position) (risk : RiskTerms Rat)
      (result : Outcome Rat), run terms bars signal = .ok result →
      (∀ point ∈ result.equity.dropLast, point.portfolioValue ≠ 0) →
      ∃ first, result.equity.head? = some first ∧
        1 + (ofOutcome result risk).totalReturn =
          first.portfolioValue / result.initialCapital *
            Returns.growth (dailyReturns result.equity) := by
  constructor
  · intro ledger hrecorded hnonzero first hfirst last hlast
    exact hrecorded.last_eq_mul_growth hnonzero hfirst hlast
  · intro terms bars signal risk result hrun hnonzero
    obtain ⟨hterms, hbars, rfl⟩ := run_eq_ok_iff.mp hrun
    have hcapital : 0 < terms.initialCapital := by
      have hleast := (Terms.check_eq_ok_iff.mp hterms).capital_ge
      linarith
    have hequity : (outcome terms bars signal).equity ≠ [] := equity_ne_nil hbars.nonempty
    obtain ⟨first, hfirst⟩ : ∃ first, (outcome terms bars signal).equity.head? = some first :=
      ⟨_, List.head?_eq_some_head hequity⟩
    obtain ⟨last, hlast⟩ : ∃ last, (outcome terms bars signal).equity.getLast? = some last :=
      ⟨_, List.getLast?_eq_some_getLast hequity⟩
    have hvalue := (outcome_recorded terms signal bars).last_eq_mul_growth hnonzero hfirst hlast
    have hfinal : (outcome terms bars signal).finalValue = last.portfolioValue := by
      rw [Outcome.finalValue, hlast]
    have htotal : (ofOutcome (outcome terms bars signal) risk).totalReturn =
        last.portfolioValue / terms.initialCapital - 1 := by
      change Growth.totalReturn terms.initialCapital (outcome terms bars signal).finalValue = _
      rw [hfinal, Growth.totalReturn, if_pos hcapital]
    refine ⟨first, hfirst, ?_⟩
    calc 1 + (ofOutcome (outcome terms bars signal) risk).totalReturn
        = last.portfolioValue / terms.initialCapital := by rw [htotal, add_sub_cancel]
      _ = first.portfolioValue / terms.initialCapital *
            Returns.growth (dailyReturns (outcome terms bars signal).equity) := by
          rw [hvalue, mul_div_right_comm]

namespace Sample

/-- The total return needs no roots. -/
@[reducible]
def roots : Roots Rat := ⟨id, fun base _ => base⟩

/-- An account that loses more than it has and comes back to nothing. -/
def ledger : Ledger Rat :=
  ((Ledger.empty.recordEquity ⟨0⟩ 10 .short 200 (-10)).recordEquity ⟨1⟩ 25 .short 200 (-10)).recordEquity
    ⟨2⟩ 20 .short 200 (-10)

theorem ledger_recorded : ledger.Recorded :=
  ((Ledger.Recorded.empty.equity _ _ _ _ _).equity _ _ _ _ _).equity _ _ _ _ _

end Sample

theorem daily_returns_compound_sample :
    (∃ first ∈ Sample.ledger.equity.head?, ∃ last ∈ Sample.ledger.equity.getLast?,
      last.portfolioValue =
        first.portfolioValue * Returns.growth (dailyReturns Sample.ledger.equity)) ∧
    ∃ result, run (Simulation.Sample.terms .legacy) Simulation.Sample.bars Simulation.Sample.signal =
        .ok result ∧
      ∃ first, result.equity.head? = some first ∧
        1 + (@ofOutcome Rat _ Sample.roots result .default).totalReturn =
          first.portfolioValue / result.initialCapital *
            Returns.growth (dailyReturns result.equity) := by
  obtain ⟨hledgers, hruns⟩ := @daily_returns_compound Sample.roots
  constructor
  · have hnonzero : ∀ point ∈ Sample.ledger.equity.dropLast, point.portfolioValue ≠ 0 := by
      decide +kernel
    exact ⟨_, rfl, _, rfl, hledgers _ Sample.ledger_recorded hnonzero _ rfl _ rfl⟩
  · have hrun := Simulation.Sample.run_eq_ok .legacy
    refine ⟨_, hrun, hruns _ _ _ .default _ hrun ?_⟩
    decide +kernel

end Performance

end Backtest
