import Mathlib.Algebra.Order.BigOperators.GroupWithZero.List
import Mathlib.Algebra.Order.Field.Rat
import Backtest.Proofs.Ledger.Matching
import Backtest.Proofs.Simulation.Balance
import Backtest.Proofs.Simulation.Cutoff

/-!
# Compounding round trips

Every position is entered with all the money there is. So a round trip multiplies the money by a factor
that its return and the fee rate determine, and an account in cash holds the initial capital times the
factors of the round trips so far. The round trips are matched from the prices of the trades alone; that
the matching finds the entry of every exit, and only that one, is part of the invariant.

A short that loses more than the account had has a factor that is not positive. The account is in cash
without money then, so that round trip is the last one. This is about fees that an entry absorbs: where
the fee stands on top of the price of some entries and not of others, a round trip does not tell its
factor.
-/

namespace Backtest

namespace RoundTrip

variable {feeRate : Rat}

/-- What a round trip leaves of the money that entered it. -/
def factor (feeRate : Rat) (trip : RoundTrip Rat) : Rat :=
  let gain := trip.returnPercent / 100
  match trip.direction with
  | .long => (1 - feeRate) ^ 2 * (1 + gain)
  | .short => 1 + gain - feeRate * (2 - gain)

def growth (feeRate : Rat) (trips : List (RoundTrip Rat)) : Rat := (trips.map (factor feeRate)).prod

theorem growth_concat (trips : List (RoundTrip Rat)) (last : RoundTrip Rat) :
    growth feeRate (trips ++ [last]) = growth feeRate trips * factor feeRate last := by
  simp [growth]

theorem growth_pos {trips : List (RoundTrip Rat)}
    (hpositive : ∀ trip ∈ trips, 0 < factor feeRate trip) : 0 < growth feeRate trips := by
  refine List.prod_pos fun gain hgain => ?_
  obtain ⟨trip, htrip, rfl⟩ := List.mem_map.mp hgain
  exact hpositive trip htrip

theorem factor_close_long {entry : Trade Rat} (hprice : 0 < entry.price) (exit : Trade Rat) :
    factor feeRate (close .long entry exit) = (1 - feeRate) ^ 2 * (exit.price / entry.price) := by
  simp only [factor, close]
  push_cast
  field_simp
  ring

theorem factor_close_short {entry : Trade Rat} (hprice : 0 < entry.price) (exit : Trade Rat) :
    factor feeRate (close .short entry exit) =
      2 - feeRate - (1 + feeRate) * (exit.price / entry.price) := by
  simp only [factor, close]
  push_cast
  field_simp
  ring

end RoundTrip

open RoundTrip

/-- The account, the entries that wait and the round trips so far of an account that started with some
capital. While there is money every factor is positive. -/
inductive Compounded (capital feeRate : Rat) :
    Account Rat → Waiting Rat → List (RoundTrip Rat) → Prop
  | cash {trips : List (RoundTrip Rat)} (hpositive : ∀ trip ∈ trips, 0 < factor feeRate trip) :
      Compounded capital feeRate ⟨capital * growth feeRate trips, 0, .cash⟩ .none trips
  | ruined {trips : List (RoundTrip Rat)} {last : RoundTrip Rat}
      (hpositive : ∀ trip ∈ trips, 0 < factor feeRate trip) (hlast : factor feeRate last ≤ 0) :
      Compounded capital feeRate ⟨capital * growth feeRate (trips ++ [last]), 0, .cash⟩ .none
        (trips ++ [last])
  | long {trips : List (RoundTrip Rat)} {entry : Trade Rat}
      (hpositive : ∀ trip ∈ trips, 0 < factor feeRate trip) (hprice : 0 < entry.price) :
      Compounded capital feeRate
        ⟨0, capital * growth feeRate trips * (1 - feeRate) / entry.price, .long⟩ ⟨[entry], []⟩ trips
  | short {trips : List (RoundTrip Rat)} {entry : Trade Rat}
      (hpositive : ∀ trip ∈ trips, 0 < factor feeRate trip) (hprice : 0 < entry.price) :
      Compounded capital feeRate
        ⟨capital * growth feeRate trips * (2 - feeRate),
          -(capital * growth feeRate trips / entry.price), .short⟩ ⟨[], [entry]⟩ trips

namespace Compounded

variable {capital feeRate : Rat} {account : Account Rat} {waiting : Waiting Rat}
  {trips : List (RoundTrip Rat)}

theorem capital_eq_of_cash (hcompounded : Compounded capital feeRate account waiting trips)
    (hcash : account.position = .cash) : account.capital = capital * growth feeRate trips := by
  cases hcompounded with
  | cash => rfl
  | ruined => rfl
  | long => cases hcash
  | short => cases hcash

/-- A round trip without a positive factor is the last one. -/
theorem eq_nil_of_factor_le (hcompounded : Compounded capital feeRate account waiting trips)
    {before after : List (RoundTrip Rat)} {trip : RoundTrip Rat}
    (htrips : trips = before ++ trip :: after) (hfactor : factor feeRate trip ≤ 0) : after = [] := by
  have hmem : trip ∈ trips := by simp [htrips]
  cases hcompounded with
  | cash hpositive => exact absurd (hpositive trip hmem) (not_lt.mpr hfactor)
  | long hpositive => exact absurd (hpositive trip hmem) (not_lt.mpr hfactor)
  | short hpositive => exact absurd (hpositive trip hmem) (not_lt.mpr hfactor)
  | ruined hpositive =>
      -- If others followed, the round trip would be among those that left money.
      rcases List.eq_nil_or_concat after with hnil | ⟨rest, last, rfl⟩
      · exact hnil
      · rw [List.concat_eq_append, ← List.cons_append, ← List.append_assoc] at htrips
        have hearlier := (List.append_inj' htrips rfl).1
        have hbefore := hpositive trip (by simp [hearlier])
        exact absurd hbefore (not_lt.mpr hfactor)

/-- The account is in cash again when a round trip ends. -/
theorem settled (hpositive : ∀ trip ∈ trips, 0 < factor feeRate trip) (last : RoundTrip Rat) :
    Compounded capital feeRate ⟨capital * growth feeRate (trips ++ [last]), 0, .cash⟩ .none
      (trips ++ [last]) := by
  by_cases hlast : 0 < factor feeRate last
  · refine .cash fun trip htrip => ?_
    rcases List.mem_append.mp htrip with hearlier | hthis
    · exact hpositive trip hearlier
    · rwa [List.mem_singleton.mp hthis]
  · exact .ruined hpositive (not_lt.mp hlast)

theorem capital_nonpos (hcapital : 0 < capital) (hpositive : ∀ trip ∈ trips, 0 < factor feeRate trip)
    {last : RoundTrip Rat} (hlast : factor feeRate last ≤ 0) :
    capital * growth feeRate (trips ++ [last]) ≤ 0 := by
  rw [growth_concat]
  have hgrowth := growth_pos hpositive
  exact mul_nonpos_of_nonneg_of_nonpos hcapital.le (mul_nonpos_of_nonneg_of_nonpos hgrowth.le hlast)

/-! ### The four trades -/

section Trades

variable {price : Rat} {trade : Trade Rat}

theorem of_buy (hpositive : ∀ trip ∈ trips, 0 < factor feeRate trip) (hprice : 0 < price)
    (hkind : trade.kind = .buy) (hat : trade.price = price) :
    Compounded capital feeRate ⟨0, capital * growth feeRate trips * (1 - feeRate) / price, .long⟩
      (Waiting.none.after [trade]) (trips ++ Waiting.none.matched [trade]) := by
  have hafter : Waiting.none.after [trade] = ⟨[trade], []⟩ := by
    simp [Waiting.after, Waiting.take, Waiting.none, hkind]
  rw [hafter, Waiting.matched_entry (Or.inl hkind), List.append_nil, ← hat]
  exact .long hpositive (hat ▸ hprice)

theorem of_shortSell (hpositive : ∀ trip ∈ trips, 0 < factor feeRate trip) (hprice : 0 < price)
    (hkind : trade.kind = .shortSell) (hat : trade.price = price) :
    Compounded capital feeRate
      ⟨capital * growth feeRate trips * (2 - feeRate),
        -(capital * growth feeRate trips / price), .short⟩
      (Waiting.none.after [trade]) (trips ++ Waiting.none.matched [trade]) := by
  have hafter : Waiting.none.after [trade] = ⟨[], [trade]⟩ := by
    simp [Waiting.after, Waiting.take, Waiting.none, hkind]
  rw [hafter, Waiting.matched_entry (Or.inr hkind), List.append_nil, ← hat]
  exact .short hpositive (hat ▸ hprice)

theorem of_sell (hpositive : ∀ trip ∈ trips, 0 < factor feeRate trip) {entry : Trade Rat}
    (hentry : 0 < entry.price) (hkind : trade.kind = .sell) (hat : trade.price = price) :
    Compounded capital feeRate
      ⟨capital * growth feeRate trips * ((1 - feeRate) ^ 2 * (price / entry.price)), 0, .cash⟩
      (Waiting.after ⟨[entry], []⟩ [trade]) (trips ++ Waiting.matched ⟨[entry], []⟩ [trade]) := by
  have hafter : Waiting.after ⟨[entry], []⟩ [trade] = .none := by
    simp [Waiting.after, Waiting.take, Waiting.none, hkind]
  have hmatched : Waiting.matched ⟨[entry], []⟩ [trade] = [close .long entry trade] := by
    simp [Waiting.matched_cons, Waiting.closed, hkind]
  rw [hafter, hmatched, mul_assoc, ← hat, ← factor_close_long hentry, ← growth_concat]
  exact settled hpositive _

theorem of_coverShort (hpositive : ∀ trip ∈ trips, 0 < factor feeRate trip) {entry : Trade Rat}
    (hentry : 0 < entry.price) (hkind : trade.kind = .coverShort) (hat : trade.price = price) :
    Compounded capital feeRate
      ⟨capital * growth feeRate trips * (2 - feeRate - (1 + feeRate) * (price / entry.price)), 0,
        .cash⟩
      (Waiting.after ⟨[], [entry]⟩ [trade]) (trips ++ Waiting.matched ⟨[], [entry]⟩ [trade]) := by
  have hafter : Waiting.after ⟨[], [entry]⟩ [trade] = .none := by
    simp [Waiting.after, Waiting.take, Waiting.none, hkind]
  have hmatched : Waiting.matched ⟨[], [entry]⟩ [trade] = [close .short entry trade] := by
    simp [Waiting.matched_cons, Waiting.closed, hkind]
  rw [hafter, hmatched, mul_assoc, ← hat, ← factor_close_short hentry, ← growth_concat]
  exact settled hpositive _

end Trades

end Compounded

/-- The turn goes on from whatever explains the account before it. -/
def Turn.Compounds (capital feeRate : Rat) (account : Account Rat) (turn : Turn Rat) : Prop :=
  ∀ waiting trips, Compounded capital feeRate account waiting trips →
    Compounded capital feeRate turn.account (waiting.after turn.trades)
      (trips ++ waiting.matched turn.trades)

namespace Account

variable {capital feeRate price : Rat} {date : Date} {account : Account Rat}

theorem none_compounds (account : Account Rat) :
    (Turn.none account).Compounds capital feeRate account := by
  intro waiting trips hcompounded
  simpa [Turn.none, Waiting.after] using hcompounded

theorem enterLong_compounds (hcapital : 0 < capital) (hprice : 0 < price)
    (hcash : account.position = .cash) :
    (account.enterLong feeRate date price).Compounds capital feeRate account := by
  intro waiting trips hcompounded
  cases hcompounded with
  | cash hpositive =>
      have hmoney : 0 < capital * growth feeRate trips := mul_pos hcapital (growth_pos hpositive)
      rw [enterLong_of_not_le (not_le.mpr hmoney)]
      simp only [← mul_one_sub]
      exact .of_buy hpositive hprice rfl rfl
  | ruined hpositive hlast =>
      rw [enterLong_of_le (Compounded.capital_nonpos hcapital hpositive hlast)]
      exact none_compounds _ _ _ (.ruined hpositive hlast)
  | long => cases hcash
  | short => cases hcash

theorem enterShort_compounds (hcapital : 0 < capital) (hprice : 0 < price)
    (hcash : account.position = .cash) :
    (account.enterShort feeRate date price).Compounds capital feeRate account := by
  intro waiting trips hcompounded
  cases hcompounded with
  | cash hpositive =>
      have hmoney : 0 < capital * growth feeRate trips := mul_pos hcapital (growth_pos hpositive)
      have hproceeds : ∀ money : Rat, money + money - money * feeRate = money * (2 - feeRate) := by
        intro money
        ring
      rw [enterShort_of_not_le (by rwa [value_cash, not_le])]
      simp only [value_cash, hproceeds]
      exact .of_shortSell hpositive hprice rfl rfl
  | ruined hpositive hlast =>
      have hmoney := Compounded.capital_nonpos hcapital hpositive hlast
      rw [enterShort_of_le (by rwa [value_cash])]
      exact none_compounds _ _ _ (.ruined hpositive hlast)
  | long => cases hcash
  | short => cases hcash

theorem exitLong_compounds (hlong : account.position = .long) :
    (account.exitLong feeRate date price).Compounds capital feeRate account := by
  intro waiting trips hcompounded
  cases hcompounded with
  | cash => cases hlong
  | ruined => cases hlong
  | short => cases hlong
  | @long _ entry hpositive hentry =>
      have hsale : ∀ money : Rat,
          0 + (money * (1 - feeRate) / entry.price * price -
              money * (1 - feeRate) / entry.price * price * feeRate) =
            money * ((1 - feeRate) ^ 2 * (price / entry.price)) := by
        intro money
        ring
      simp only [exitLong, hsale]
      exact .of_sell hpositive hentry rfl rfl

theorem coverShort_compounds (hcapital : 0 < capital) (hshort : account.position = .short) :
    (account.coverShort feeRate date price).Compounds capital feeRate account := by
  intro waiting trips hcompounded
  cases hcompounded with
  | cash => cases hshort
  | ruined => cases hshort
  | long => cases hshort
  | @short _ entry hpositive hentry =>
      have hmoney : 0 < capital * growth feeRate trips := mul_pos hcapital (growth_pos hpositive)
      have hcover : ∀ money : Rat,
          money * (2 - feeRate) -
              (money / entry.price * price + money / entry.price * price * feeRate) =
            money * (2 - feeRate - (1 + feeRate) * (price / entry.price)) := by
        intro money
        ring
      simp only [coverShort, Scalar.magnitude_rat, abs_neg, abs_of_pos (div_pos hmoney hentry), hcover]
      exact .of_coverShort hpositive hentry rfl rfl

theorem andThen_compounds {turn : Turn Rat} {next : Account Rat → Turn Rat}
    (hturn : turn.Compounds capital feeRate account)
    (hnext : (next turn.account).Compounds capital feeRate turn.account) :
    (turn.andThen next).Compounds capital feeRate account := by
  intro waiting trips hcompounded
  have hboth := hnext _ _ (hturn _ _ hcompounded)
  rw [Turn.andThen, Waiting.after_append, Waiting.matched_append, ← List.append_assoc]
  exact hboth

theorem turnTo_compounds (hcapital : 0 < capital) (hprice : 0 < price) (target : Position)
    (account : Account Rat) :
    (account.turnTo target .absorbed feeRate date price).Compounds capital feeRate account := by
  refine turnTo_induction (motive := fun account turn => turn.Compounds capital feeRate account)
    ?stay ?enterLong ?enterLongWithFee ?enterShort ?exitLong ?coverShort ?andThen account
  case stay => exact none_compounds
  case enterLong => exact fun _ => enterLong_compounds hcapital hprice
  case enterLongWithFee => exact fun _ _ hlegacy => nomatch hlegacy
  case enterShort => exact fun _ => enterShort_compounds hcapital hprice
  case exitLong => exact fun _ => exitLong_compounds
  case coverShort => exact fun _ => coverShort_compounds hcapital
  case andThen => exact fun _ _ _ => andThen_compounds

end Account

/-! ### The round trips of a run -/

namespace Simulation

variable {terms : Terms Rat} {signal : Series Position} {bars : List (Bar Rat)}

theorem turnOn_compounds (hcapital : 0 < terms.initialCapital)
    (habsorbed : terms.feeConvention = .absorbed) {bar : Bar Rat} (hclose : 0 < bar.close)
    (account : Account Rat) :
    (turnOn terms signal account bar).Compounds terms.initialCapital terms.feeRate account := by
  unfold turnOn
  rw [habsorbed]
  exact Account.turnTo_compounds hcapital hclose _ account

theorem outcome_compounded (signal : Series Position) (hterms : terms.Valid)
    (habsorbed : terms.feeConvention = .absorbed) (hclose : ∀ bar ∈ bars, 0 < bar.close) :
    Compounded terms.initialCapital terms.feeRate (accountAfter terms signal bars)
      (Waiting.none.after (outcome terms bars signal).trades)
      (outcome terms bars signal).roundTrips := by
  have hcapital : 0 < terms.initialCapital := by linarith [hterms.capital_ge]
  induction bars using List.reverseRecOn with
  | nil =>
      have hopening : Compounded terms.initialCapital terms.feeRate
          ⟨terms.initialCapital * growth terms.feeRate [], 0, .cash⟩ .none [] := .cash (by simp)
      rw [growth, List.map_nil, List.prod_nil, mul_one] at hopening
      exact hopening
  | append_singleton bars bar ih =>
      have hbefore := ih fun other hother => hclose other (List.mem_append_left _ hother)
      have hturn : (turnOn terms signal (accountAfter terms signal bars) bar).Compounds
          terms.initialCapital terms.feeRate (accountAfter terms signal bars) :=
        turnOn_compounds hcapital habsorbed (hclose bar (by simp)) _
      rw [accountAfter_concat, roundTrips_outcome, trades_outcome_concat, Waiting.after_append,
        RoundTrip.ofTrades_append]
      exact hturn _ _ hbefore

/-- **Compounding round trips.** While no position is open, the capital is what the round trips that
ended so far have made of the initial capital. A round trip that leaves no money is the last one. -/
theorem run_compounds_round_trips {result : Outcome Rat} (hrun : run terms bars signal = .ok result)
    (habsorbed : terms.feeConvention = .absorbed) :
    (∀ point ∈ result.equity, point.position = .cash →
      point.capital = terms.initialCapital *
        ((result.roundTrips.filter fun trip => trip.exitDate ≤ point.date).map
          (RoundTrip.factor terms.feeRate)).prod) ∧
      ∀ before trip after, result.roundTrips = before ++ trip :: after →
        trip.factor terms.feeRate ≤ 0 → after = [] := by
  obtain ⟨hterms, hbars, rfl⟩ := run_eq_ok_iff.mp hrun
  rw [Terms.check_eq_ok_iff] at hterms
  constructor
  · intro point hpoint hcash
    obtain ⟨before, after, hequity⟩ := List.append_of_mem hpoint
    obtain ⟨early, bar, late, rfl, _, rfl⟩ := exists_bars_of_equity_eq hequity
    have hclose : ∀ other ∈ early ++ [bar], 0 < other.close := by
      intro other hother
      refine hbars.close_pos ?_
      rw [List.append_cons]
      exact List.mem_append_left late hother
    have hcompounded := outcome_compounded signal hterms habsorbed hclose
    have hknown : ((outcome terms (early ++ bar :: late) signal).roundTrips.filter
        fun trip => trip.exitDate ≤ bar.date) = (outcome terms (early ++ [bar]) signal).roundTrips := by
      rw [filter_roundTrips_outcome hbars.ascending, Date.filter_le_of_ascending hbars.ascending]
    have hdate : (pointAfter terms signal early bar).date = bar.date := rfl
    rw [hdate, hknown]
    exact hcompounded.capital_eq_of_cash hcash
  · intro before trip after htrips hfactor
    have hcompounded := outcome_compounded signal hterms habsorbed fun _ => hbars.close_pos
    exact hcompounded.eq_nil_of_factor_le htrips hfactor

theorem run_compounds_round_trips_sample :
    let terms := Sample.terms .absorbed
    let result := outcome terms Sample.bars Sample.signal
    run terms Sample.bars Sample.signal = .ok result ∧ terms.feeConvention = .absorbed ∧
      (∃ point ∈ result.equity, point.position = .cash ∧
        point.capital = terms.initialCapital *
          ((result.roundTrips.filter fun trip => trip.exitDate ≤ point.date).map
            (RoundTrip.factor terms.feeRate)).prod) ∧
      ∃ trip, result.roundTrips = result.roundTrips.take 3 ++ trip :: result.roundTrips.drop 4 ∧
        trip.factor terms.feeRate ≤ 0 ∧ result.roundTrips.drop 4 = [] := by
  intro terms result
  have hrun : run terms Sample.bars Sample.signal = .ok result := Sample.run_eq_ok .absorbed
  have habsorbed : terms.feeConvention = .absorbed := rfl
  obtain ⟨hcapital, hlast⟩ := run_compounds_round_trips hrun habsorbed
  let point := pointAfter terms Sample.signal (Sample.bars.take 4) ⟨⟨4⟩, 400, 400, 400, 400, 0⟩
  have hpoint : point ∈ result.equity := by decide +kernel
  have hcash : point.position = .cash := by decide +kernel
  let trip : RoundTrip Rat := ⟨⟨3⟩, ⟨4⟩, 90, 400, -3100 / 9, 1, .short⟩
  have htrips : result.roundTrips = result.roundTrips.take 3 ++ trip :: result.roundTrips.drop 4 := by
    decide +kernel
  have hfactor : trip.factor terms.feeRate ≤ 0 := by decide +kernel
  exact ⟨hrun, habsorbed, ⟨point, hpoint, hcash, hcapital point hpoint hcash⟩, trip, htrips, hfactor,
    hlast _ trip _ htrips hfactor⟩

end Simulation

end Backtest
