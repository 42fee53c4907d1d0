import Backtest.Proofs.Ledger.Matching
import Backtest.Proofs.Simulation.Checks
import Backtest.Proofs.Simulation.Days
import Backtest.Proofs.Simulation.Scaling

/-!
# Runs in other units

A run with more initial capital is the same run with more money in it, and a run over multiples of the
closes is the same run with fewer shares in it. Returns are ratios, so neither the daily returns nor
those of the round trips depend on the units.
-/

namespace Backtest

def Terms.inUnits (money : Rat) (terms : Terms Rat) : Terms Rat :=
  { terms with initialCapital := money * terms.initialCapital }

/-- The close is the only price of a bar that is traded at. -/
def Bar.inUnits (level : Rat) (bar : Bar Rat) : Bar Rat := { bar with close := level * bar.close }

def EquityPoint.inUnits (money level : Rat) (point : EquityPoint Rat) : EquityPoint Rat :=
  { point with
    portfolioValue := money * point.portfolioValue
    price := level * point.price
    capital := money * point.capital
    shares := money / level * point.shares }

def RoundTrip.inUnits (level : Rat) (trip : RoundTrip Rat) : RoundTrip Rat :=
  { trip with
    entryPrice := level * trip.entryPrice
    exitPrice := level * trip.exitPrice }

def Outcome.inUnits (money level : Rat) (outcome : Outcome Rat) : Outcome Rat where
  initialCapital := money * outcome.initialCapital
  equity := outcome.equity.map (EquityPoint.inUnits money level)
  trades := outcome.trades.map (Trade.inUnits money level)
  roundTrips := outcome.roundTrips.map (RoundTrip.inUnits level)

@[simp]
theorem Terms.inUnits_one (terms : Terms Rat) : terms.inUnits 1 = terms := by simp [inUnits]

theorem Bar.inUnits_one : Bar.inUnits 1 = id := by
  funext bar
  simp [inUnits]

theorem RoundTrip.inUnits_one : RoundTrip.inUnits 1 = id := by
  funext trip
  simp [inUnits]

variable {money level : Rat}

/-! ### Round trips -/

/-- The gain is relative to the entry price. -/
theorem RoundTrip.close_inUnits (hlevel : 0 < level) (direction : Direction) (entry exit : Trade Rat) :
    close direction (entry.inUnits money level) (exit.inUnits money level) =
      (close direction entry exit).inUnits level := by
  have hgain : (level * exit.price - level * entry.price) / (level * entry.price) =
      (exit.price - entry.price) / entry.price := by
    rw [← mul_sub, mul_div_mul_left _ _ hlevel.ne']
  simp only [close, inUnits, Trade.inUnits, hgain]

namespace Waiting

def inUnits (money level : Rat) (waiting : Waiting Rat) : Waiting Rat :=
  ⟨waiting.longs.map (Trade.inUnits money level), waiting.shorts.map (Trade.inUnits money level)⟩

theorem take_inUnits (waiting : Waiting Rat) (trade : Trade Rat) :
    (waiting.inUnits money level).take (trade.inUnits money level) =
      (waiting.take trade).inUnits money level :=
  take_map (f := Trade.inUnits money level) (fun _ => rfl) waiting trade

theorem closed_inUnits (hlevel : 0 < level) (waiting : Waiting Rat) (trade : Trade Rat) :
    (waiting.inUnits money level).closed (trade.inUnits money level) =
      (waiting.closed trade).map (RoundTrip.inUnits level) := by
  have hkind : (trade.inUnits money level).kind = trade.kind := rfl
  simp only [closed, hkind]
  obtain ⟨longs, shorts⟩ := waiting
  cases trade.kind with
  | buy => rfl
  | sell => cases longs <;> simp [inUnits, RoundTrip.close_inUnits hlevel]
  | shortSell => rfl
  | coverShort => cases shorts <;> simp [inUnits, RoundTrip.close_inUnits hlevel]

theorem matched_inUnits (hlevel : 0 < level) (waiting : Waiting Rat) (trades : List (Trade Rat)) :
    (waiting.inUnits money level).matched (trades.map (Trade.inUnits money level)) =
      (waiting.matched trades).map (RoundTrip.inUnits level) := by
  induction trades generalizing waiting with
  | nil => rfl
  | cons trade rest ih =>
      rw [List.map_cons, matched_cons, matched_cons, closed_inUnits hlevel, take_inUnits, ih,
        List.map_append]

end Waiting

/-! ### Points -/

theorem EquityPoint.returnSince_inUnits (hmoney : 0 < money) (previous : Option (EquityPoint Rat))
    (value : Rat) :
    returnSince (previous.map (inUnits money level)) (money * value) = returnSince previous value := by
  cases previous with
  | none => rfl
  | some point =>
      have hnothing : (money * point.portfolioValue == 0) = (point.portfolioValue == 0) := by
        rw [Bool.eq_iff_iff, beq_iff_eq, beq_iff_eq]
        exact mul_eq_zero_iff_left hmoney.ne'
      have hgain : (money * value - money * point.portfolioValue) / (money * point.portfolioValue) =
          (value - point.portfolioValue) / point.portfolioValue := by
        rw [← mul_sub, mul_div_mul_left _ _ hmoney.ne']
      simp only [returnSince, Option.map_some, inUnits, hnothing, hgain]

theorem EquityPoint.after_inUnits (hmoney : 0 < money) (hlevel : 0 < level)
    (previous : Option (EquityPoint Rat)) (date : Date) (price : Rat) (position : Position)
    (capital shares : Rat) :
    EquityPoint.after (previous.map (inUnits money level)) date (level * price) position
        (money * capital) (money / level * shares) =
      (EquityPoint.after previous date price position capital shares).inUnits money level := by
  have hvalue : money * capital + money / level * shares * (level * price) =
      money * (capital + shares * price) := by
    rw [Account.worth_inUnits hlevel, mul_add]
  simp only [after, hvalue, returnSince_inUnits hmoney]
  rfl

/-! ### Runs -/

namespace Simulation

variable {terms : Terms Rat} {signal : Series Position} {bars : List (Bar Rat)}

def Day.inUnits (money level : Rat) (day : Day Rat) : Day Rat :=
  ⟨day.trades.map (Trade.inUnits money level), day.point.inUnits money level⟩

theorem turnOn_inUnits (hmoney : 0 < money) (hlevel : 0 < level) (account : Account Rat)
    (bar : Bar Rat) :
    turnOn (terms.inUnits money) signal (account.inUnits money level) (bar.inUnits level) =
      (turnOn terms signal account bar).inUnits money level :=
  Account.turnTo_inUnits hmoney hlevel _ _ _ _ _ account

theorem dayOn_inUnits (hmoney : 0 < money) (hlevel : 0 < level) (account : Account Rat)
    (previous : Option (EquityPoint Rat)) (bar : Bar Rat) :
    dayOn (terms.inUnits money) signal (account.inUnits money level)
        (previous.map (EquityPoint.inUnits money level)) (bar.inUnits level) =
      (dayOn terms signal account previous bar).inUnits money level := by
  rw [dayOn_eq, dayOn_eq, turnOn_inUnits hmoney hlevel]
  exact congrArg (Day.mk _) (EquityPoint.after_inUnits hmoney hlevel _ _ _ _ _ _)

theorem days_inUnits (hmoney : 0 < money) (hlevel : 0 < level) (account : Account Rat)
    (previous : Option (EquityPoint Rat)) :
    days (terms.inUnits money) signal (account.inUnits money level)
        (previous.map (EquityPoint.inUnits money level)) (bars.map (Bar.inUnits level)) =
      (days terms signal account previous bars).map (Day.inUnits money level) := by
  induction bars generalizing account previous with
  | nil => rfl
  | cons bar rest ih =>
      rw [List.map_cons, days_cons, days_cons, List.map_cons, dayOn_inUnits hmoney hlevel,
        turnOn_inUnits hmoney hlevel]
      exact congrArg _ (ih _ (some _))

theorem outcome_inUnits (hmoney : 0 < money) (hlevel : 0 < level) (terms : Terms Rat)
    (bars : List (Bar Rat)) (signal : Series Position) :
    outcome (terms.inUnits money) (bars.map (Bar.inUnits level)) signal =
      (outcome terms bars signal).inUnits money level := by
  have hopening : Account.opening (money * terms.initialCapital) =
      (Account.opening terms.initialCapital).inUnits money level := by
    simp [Account.opening, Account.inUnits]
  have hdays : days (terms.inUnits money) signal (.opening (money * terms.initialCapital)) none
        (bars.map (Bar.inUnits level)) =
      (days terms signal (.opening terms.initialCapital) none bars).map (Day.inUnits money level) := by
    rw [hopening]
    exact days_inUnits hmoney hlevel _ none
  have htrades : ∀ days : List (Day Rat), (days.map (Day.inUnits money level)).flatMap Day.trades =
      (days.flatMap Day.trades).map (Trade.inUnits money level) := flatMap_trades_map fun _ => rfl
  have htrips : ∀ trades : List (Trade Rat),
      RoundTrip.ofTrades (trades.map (Trade.inUnits money level)) =
        (RoundTrip.ofTrades trades).map (RoundTrip.inUnits level) := by
    intro trades
    exact Waiting.matched_inUnits hlevel .none trades
  have hcapital : (terms.inUnits money).initialCapital = money * terms.initialCapital := rfl
  simp only [outcome, hcapital, hdays, htrades, htrips, Outcome.inUnits, List.map_map]
  rfl

theorem Tradable.inUnits (hlevel : 0 < level) (hbars : Tradable bars signal) :
    Tradable (bars.map (Bar.inUnits level)) signal where
  nonempty := by simpa using hbars.nonempty
  ascending := by
    rw [List.map_map]
    exact hbars.ascending
  validClose := by
    refine List.forall_mem_map.mpr fun bar hbar => ?_
    exact Bar.hasValidClose_rat.mpr (mul_pos hlevel (hbars.close_pos hbar))
  covered := List.forall_mem_map.mpr hbars.covered

/-- **Scale invariance.** With more initial capital a run has more money and more shares in the same
proportion, and with higher closes it has fewer shares for the same money. Nothing else changes, the
round trips not even their prices in the first case. -/
theorem run_inUnits {factor : Rat} {result : Outcome Rat} (hfactor : 0 < factor)
    (hrun : run terms bars signal = .ok result) :
    ((terms.inUnits factor).check = .ok () →
        run (terms.inUnits factor) bars signal = .ok (result.inUnits factor 1) ∧
          (result.inUnits factor 1).roundTrips = result.roundTrips) ∧
      run terms (bars.map (Bar.inUnits factor)) signal = .ok (result.inUnits 1 factor) := by
  obtain ⟨hterms, hbars, rfl⟩ := run_eq_ok_iff.mp hrun
  refine ⟨fun hadmissible => ⟨?_, ?_⟩, ?_⟩
  · have houtcome := outcome_inUnits hfactor one_pos terms bars signal
    rw [Bar.inUnits_one, List.map_id] at houtcome
    exact run_eq_ok_iff.mpr ⟨hadmissible, hbars, houtcome.symm⟩
  · rw [Outcome.inUnits, RoundTrip.inUnits_one, List.map_id]
  · have houtcome := outcome_inUnits one_pos hfactor terms bars signal
    rw [Terms.inUnits_one] at houtcome
    exact run_eq_ok_iff.mpr ⟨hterms, hbars.inUnits hfactor, houtcome.symm⟩

theorem run_inUnits_sample :
    let terms := Sample.terms .legacy
    let result := outcome terms Sample.bars Sample.signal
    (0 : Rat) < 1 / 2 ∧ run terms Sample.bars Sample.signal = .ok result ∧
      (terms.inUnits (1 / 2)).check = .ok () ∧
      run (terms.inUnits (1 / 2)) Sample.bars Sample.signal = .ok (result.inUnits (1 / 2) 1) ∧
      run terms (Sample.bars.map (Bar.inUnits (1 / 2))) Sample.signal =
        .ok (result.inUnits 1 (1 / 2)) := by
  intro terms result
  have hfactor : (0 : Rat) < 1 / 2 := by norm_num
  have hrun : run terms Sample.bars Sample.signal = .ok result := Sample.run_eq_ok .legacy
  have hvalid : (terms.inUnits (1 / 2)).Valid :=
    ⟨by norm_num [terms, Terms.inUnits, Sample.terms], (Sample.terms_valid .legacy).fee_nonneg,
      (Sample.terms_valid .legacy).fee_lt⟩
  have hadmissible : (terms.inUnits (1 / 2)).check = .ok () := Terms.check_eq_ok_iff.mpr hvalid
  obtain ⟨hcapital, hcloses⟩ := run_inUnits hfactor hrun
  exact ⟨hfactor, hrun, hadmissible, (hcapital hadmissible).1, hcloses⟩

end Simulation

end Backtest
