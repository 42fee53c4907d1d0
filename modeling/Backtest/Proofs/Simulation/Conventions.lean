import Backtest.Proofs.Simulation.Balance
import Backtest.Proofs.Simulation.Cutoff
import Backtest.Proofs.Simulation.Scaling

/-!
# Two fee conventions

The conventions differ in one entry: where a short turns into a long on one day, the legacy convention
counts the shares at the price with the fee on top and so gets more of them, by the same ratio each
time. From there on the two accounts differ in size alone and make the same turns. A run therefore
leaves the same trades and positions under both, and values whose ratio tells how often a short was
turned around.
-/

namespace Backtest

def Terms.under {α : Type} (convention : FeeConvention) (terms : Terms α) : Terms α :=
  { terms with feeConvention := convention }

def Trade.event {α : Type} (trade : Trade α) : Date × Trade.Kind := (trade.date, trade.kind)

/-! ### Shorts that are turned around -/

section Reversals

variable {α : Type}

/-- The buys that come right after the cover of a short on the same date. -/
def shortReversals : List (Trade α) → Nat
  | first :: second :: rest =>
    (if first.kind = .coverShort ∧ second.kind = .buy ∧ first.date = second.date then 1 else 0) +
      shortReversals (second :: rest)
  | _ => 0

@[simp]
theorem shortReversals_nil : shortReversals ([] : List (Trade α)) = 0 := rfl

@[simp]
theorem shortReversals_singleton (trade : Trade α) : shortReversals [trade] = 0 := rfl

theorem shortReversals_cons_cons (first second : Trade α) (rest : List (Trade α)) :
    shortReversals (first :: second :: rest) =
      (if first.kind = .coverShort ∧ second.kind = .buy ∧ first.date = second.date then 1 else 0) +
        shortReversals (second :: rest) := rfl

theorem add_shortReversals_le (first second : List (Trade α)) :
    shortReversals first + shortReversals second ≤ shortReversals (first ++ second) := by
  induction first with
  | nil => simp
  | cons head tail ih =>
      cases tail with
      | nil =>
          cases second with
          | nil => simp
          | cons next rest =>
              rw [List.singleton_append, shortReversals_cons_cons, shortReversals_singleton]
              omega
      | cons next rest =>
          rw [List.cons_append, List.cons_append, shortReversals_cons_cons, shortReversals_cons_cons,
            ← List.cons_append]
          omega

/-- No short is turned around between trades of different dates. -/
theorem shortReversals_append {first second : List (Trade α)}
    (hdates : ∀ earlier ∈ first, ∀ later ∈ second, earlier.date ≠ later.date) :
    shortReversals (first ++ second) = shortReversals first + shortReversals second := by
  induction first with
  | nil => simp
  | cons head tail ih =>
      cases tail with
      | nil =>
          cases second with
          | nil => simp
          | cons next rest =>
              have hdate : head.date ≠ next.date :=
                hdates head List.mem_cons_self next List.mem_cons_self
              rw [List.singleton_append, shortReversals_cons_cons, shortReversals_singleton,
                if_neg fun hreversal => hdate hreversal.2.2]
      | cons next rest =>
          have htail := ih fun earlier hearlier => hdates earlier (List.mem_cons_of_mem head hearlier)
          rw [List.cons_append, List.cons_append, shortReversals_cons_cons, shortReversals_cons_cons,
            ← List.cons_append, htail, add_assoc]

end Reversals

/-- How many times as much an account is worth under the legacy convention. -/
def reversalGain (feeRate : Rat) (trades : List (Trade Rat)) : Rat :=
  ((1 - feeRate ^ 2) ^ shortReversals trades)⁻¹

theorem reversalGain_of_eq_zero {feeRate : Rat} {trades : List (Trade Rat)}
    (hnone : shortReversals trades = 0) : reversalGain feeRate trades = 1 := by
  rw [reversalGain, hnone, pow_zero, inv_one]

theorem reversalGain_append {feeRate : Rat} {first second : List (Trade Rat)}
    (hdates : ∀ earlier ∈ first, ∀ later ∈ second, earlier.date ≠ later.date) :
    reversalGain feeRate (first ++ second) =
      reversalGain feeRate first * reversalGain feeRate second := by
  simp only [reversalGain, shortReversals_append hdates, pow_add, mul_inv]

theorem reversalGain_pos {feeRate : Rat} (hnonneg : 0 ≤ feeRate) (hfee : feeRate < 1)
    (trades : List (Trade Rat)) : 0 < reversalGain feeRate trades := by
  have hsquare : 0 < 1 - feeRate ^ 2 := by nlinarith
  exact inv_pos.mpr (pow_pos hsquare _)

/-- The legacy turn is the absorbed one but for the gain of a reversal. -/
structure Turn.Outgrows (feeRate : Rat) (legacy absorbed : Turn Rat) : Prop where
  account_eq : legacy.account = absorbed.account.scale (reversalGain feeRate absorbed.trades)
  events_eq : legacy.trades.map Trade.event = absorbed.trades.map Trade.event

theorem Turn.outgrows_self {feeRate : Rat} {turn : Turn Rat} (hnone : shortReversals turn.trades = 0) :
    turn.Outgrows feeRate turn :=
  ⟨by rw [reversalGain_of_eq_zero hnone, Account.scale_one], rfl⟩

theorem Turn.events_scale (factor : Rat) (turn : Turn Rat) :
    (turn.scale factor).trades.map Trade.event = turn.trades.map Trade.event := by
  simp only [Turn.scale, List.map_map]
  rfl

/-- The next turn starts from accounts of two sizes, so its gain multiplies the gain so far. -/
theorem Turn.Outgrows.andThen {feeRate : Rat} {first first' : Turn Rat}
    {next next' : Account Rat → Turn Rat} (hfirst : first.Outgrows feeRate first')
    (hnext : (next first'.account).Outgrows feeRate (next' first'.account))
    (hscale : ∀ account factor, 0 < factor → next (account.scale factor) = (next account).scale factor)
    (hgain : 0 < reversalGain feeRate first'.trades)
    (hdates : ∀ earlier ∈ first'.trades, ∀ later ∈ (next' first'.account).trades,
      earlier.date ≠ later.date) :
    (first.andThen next).Outgrows feeRate (first'.andThen next') := by
  have hsecond : next first.account =
      (next first'.account).scale (reversalGain feeRate first'.trades) := by
    rw [hfirst.account_eq, hscale _ _ hgain]
  refine ⟨?_, ?_⟩
  · simp only [Turn.andThen]
    rw [reversalGain_append hdates, ← Account.scale_scale, ← hnext.account_eq, hsecond]
    rfl
  · simp only [Turn.andThen, List.map_append]
    rw [hfirst.events_eq, hsecond, Turn.events_scale, hnext.events_eq]

namespace Account

variable {feeRate price : Rat} {date : Date} {account : Account Rat}

theorem shortReversals_enterLong (account : Account Rat) :
    shortReversals (account.enterLong feeRate date price).trades = 0 := by
  by_cases hcapital : account.capital ≤ 0
  · rw [enterLong_of_le hcapital]
    rfl
  · rw [enterLong_of_not_le hcapital]
    rfl

theorem shortReversals_enterShort (account : Account Rat) :
    shortReversals (account.enterShort feeRate date price).trades = 0 := by
  by_cases hvalue : account.value price ≤ 0
  · rw [enterShort_of_le hvalue]
    rfl
  · rw [enterShort_of_not_le hvalue]
    rfl

theorem shortReversals_longReversal (account : Account Rat) :
    shortReversals ((account.exitLong feeRate date price).andThen
      (enterShort feeRate date price)).trades = 0 := by
  let left := (account.exitLong feeRate date price).account
  by_cases hvalue : left.value price ≤ 0
  · simp only [Turn.andThen]
    rw [enterShort_of_le hvalue]
    rfl
  · simp only [Turn.andThen]
    rw [enterShort_of_not_le hvalue]
    rfl

/-- The fee on top of the price leaves room for more shares than the commission taken out first. -/
theorem enterLongWithFee_account (hnonneg : 0 ≤ feeRate) (hfee : feeRate < 1) (hprice : 0 < price)
    (hcapital : ¬account.capital ≤ 0) :
    (account.enterLongWithFee feeRate date price).account =
      (account.enterLong feeRate date price).account.scale (1 - feeRate ^ 2)⁻¹ := by
  have hsum : (0 : Rat) < 1 + feeRate := by linarith
  have hrest : (0 : Rat) < 1 - feeRate := by linarith
  have hsquare : 1 - feeRate ^ 2 = (1 - feeRate) * (1 + feeRate) := by ring
  have hshares : account.capital / (price * (1 + feeRate)) =
      ((1 - feeRate) * (1 + feeRate))⁻¹ * ((account.capital - account.capital * feeRate) / price) := by
    field_simp
  rw [enterLongWithFee_of_not_le hcapital, enterLong_of_not_le hcapital, hsquare]
  simp only [scale, mul_zero, hshares]

theorem shortReversal_outgrows (hnonneg : 0 ≤ feeRate) (hfee : feeRate < 1) (hprice : 0 < price)
    (account : Account Rat) :
    ((account.coverShort feeRate date price).andThen
      (enterLongWithFee feeRate date price)).Outgrows feeRate
        ((account.coverShort feeRate date price).andThen (enterLong feeRate date price)) := by
  let left := (account.coverShort feeRate date price).account
  by_cases hcapital : left.capital ≤ 0
  · -- There is nothing left to enter with, under neither convention.
    simp only [Turn.andThen]
    rw [enterLongWithFee_of_le hcapital, enterLong_of_le hcapital]
    exact Turn.outgrows_self rfl
  · have hone : shortReversals ((account.coverShort feeRate date price).trades ++
        (left.enterLong feeRate date price).trades) = 1 := by
      rw [enterLong_of_not_le hcapital]
      simp [coverShort, tradeTo, shortReversals]
    refine ⟨?_, ?_⟩
    · simp only [Turn.andThen, reversalGain]
      rw [hone, pow_one, enterLongWithFee_account hnonneg hfee hprice hcapital]
    · simp only [Turn.andThen, List.map_append]
      rw [enterLongWithFee_of_not_le hcapital, enterLong_of_not_le hcapital]
      rfl

/-- Only a short that turns into a long is traded differently. -/
theorem turnTo_outgrows (hnonneg : 0 ≤ feeRate) (hfee : feeRate < 1) (hprice : 0 < price)
    (target : Position) (account : Account Rat) :
    (account.turnTo target .legacy feeRate date price).Outgrows feeRate
      (account.turnTo target .absorbed feeRate date price) := by
  obtain ⟨capital, shares, position⟩ := account
  cases position with
  | long =>
      cases target with
      | long => exact Turn.outgrows_self rfl
      | cash => exact Turn.outgrows_self rfl
      | short => exact Turn.outgrows_self (shortReversals_longReversal _)
  | cash =>
      cases target with
      | long => exact Turn.outgrows_self (shortReversals_enterLong _)
      | cash => exact Turn.outgrows_self rfl
      | short => exact Turn.outgrows_self (shortReversals_enterShort _)
  | short =>
      cases target with
      | long => exact shortReversal_outgrows hnonneg hfee hprice _
      | cash => exact Turn.outgrows_self rfl
      | short => exact Turn.outgrows_self rfl

/-! ### Turns that agree entirely -/

theorem enterLongWithFee_zero (account : Account Rat) :
    account.enterLongWithFee 0 date price = account.enterLong 0 date price := by
  by_cases hcapital : account.capital ≤ 0
  · rw [enterLongWithFee_of_le hcapital, enterLong_of_le hcapital]
  · rw [enterLongWithFee_of_not_le hcapital, enterLong_of_not_le hcapital]
    simp only [add_zero, mul_one, mul_zero, sub_zero]

theorem turnTo_legacy_eq_absorbed {target : Position}
    (hsame : feeRate = 0 ∨
      shortReversals (account.turnTo target .absorbed feeRate date price).trades = 0) :
    account.turnTo target .legacy feeRate date price =
      account.turnTo target .absorbed feeRate date price := by
  obtain ⟨capital, shares, position⟩ := account
  by_cases hreversal : position = .short ∧ target = .long
  · obtain ⟨rfl, rfl⟩ := hreversal
    have hentry : enterLongWithFee feeRate date price
        (coverShort feeRate date price ⟨capital, shares, .short⟩).account =
          enterLong feeRate date price
            (coverShort feeRate date price ⟨capital, shares, .short⟩).account := by
      rcases hsame with rfl | hnone
      · exact enterLongWithFee_zero _
      · by_cases hcapital :
            (coverShort feeRate date price ⟨capital, shares, .short⟩).account.capital ≤ 0
        · rw [enterLongWithFee_of_le hcapital, enterLong_of_le hcapital]
        · -- With money left there would be a buy right after the cover.
          simp only [turnTo, Turn.andThen] at hnone
          rw [enterLong_of_not_le hcapital] at hnone
          simp [coverShort, tradeTo, shortReversals] at hnone
    simp only [turnTo, Turn.andThen, hentry]
  · cases position <;> cases target <;> first | rfl | exact absurd ⟨rfl, rfl⟩ hreversal

end Account

/-! ### The two runs -/

namespace Simulation

variable {terms : Terms Rat} {signal : Series Position} {bars early late : List (Bar Rat)}

/-- The turns of all days as one. -/
def turnsOver (terms : Terms Rat) (signal : Series Position) (bars : List (Bar Rat)) : Turn Rat :=
  ⟨accountAfter terms signal bars, (outcome terms bars signal).trades⟩

theorem turnsOver_concat (bar : Bar Rat) :
    turnsOver terms signal (bars ++ [bar]) =
      (turnsOver terms signal bars).andThen fun account => turnOn terms signal account bar := by
  simp only [turnsOver, Turn.andThen, accountAfter_concat, trades_outcome_concat]

theorem turnsOver_outgrows (signal : Series Position) (hterms : terms.Valid)
    (hclose : ∀ bar ∈ bars, 0 < bar.close) (hascending : (bars.map Bar.date).Pairwise (· < ·)) :
    (turnsOver (terms.under .legacy) signal bars).Outgrows terms.feeRate
      (turnsOver (terms.under .absorbed) signal bars) := by
  have hfee : terms.feeRate < 1 := by linarith [hterms.fee_lt]
  induction bars using List.reverseRecOn with
  | nil => exact Turn.outgrows_self rfl
  | append_singleton bars bar ih =>
      rw [List.map_append, List.pairwise_append] at hascending
      obtain ⟨hbefore, _, hlast⟩ := hascending
      have hsofar := ih (fun other hother => hclose other (List.mem_append_left _ hother)) hbefore
      rw [turnsOver_concat, turnsOver_concat]
      refine hsofar.andThen ?next ?scale (reversalGain_pos hterms.fee_nonneg hfee _) ?dates
      case next =>
        exact Account.turnTo_outgrows hterms.fee_nonneg hfee (hclose bar (by simp)) _ _
      case scale =>
        intro account factor hfactor
        exact Account.turnTo_scale hfactor _ _ _ _ _ account
      case dates =>
        intro earlier hearlier later hlater
        obtain ⟨other, hother, hdate⟩ := exists_bar_of_mem_trades hearlier
        rw [hdate, Account.date_of_mem_turnTo hlater]
        exact (hlast _ (List.mem_map_of_mem hother) bar.date (by simp)).ne

/-- What a day's points under the legacy convention and under the other have to do with each other. -/
structure PointOutgrows (feeRate : Rat) (trades : List (Trade Rat))
    (legacy absorbed : EquityPoint Rat) : Prop where
  date_eq : legacy.date = absorbed.date
  price_eq : legacy.price = absorbed.price
  position_eq : legacy.position = absorbed.position
  value_eq : legacy.portfolioValue = absorbed.portfolioValue /
    (1 - feeRate ^ 2) ^ shortReversals (trades.filter fun trade => trade.date ≤ absorbed.date)

theorem pointAfter_outgrows (hterms : terms.Valid) {bar : Bar Rat}
    (hbars : Tradable (early ++ bar :: late) signal) :
    PointOutgrows terms.feeRate (outcome (terms.under .absorbed) (early ++ bar :: late) signal).trades
      (pointAfter (terms.under .legacy) signal early bar)
      (pointAfter (terms.under .absorbed) signal early bar) := by
  have hascending : ((early ++ [bar]).map Bar.date).Pairwise (· < ·) := by
    have hall := hbars.ascending
    rw [List.append_cons, List.map_append, List.pairwise_append] at hall
    exact hall.1
  have hclose : ∀ other ∈ early ++ [bar], 0 < other.close := by
    intro other hother
    refine hbars.close_pos ?_
    rw [List.append_cons]
    exact List.mem_append_left late hother
  have hknown : ((outcome (terms.under .absorbed) (early ++ bar :: late) signal).trades.filter
      fun trade => trade.date ≤ bar.date) =
        (outcome (terms.under .absorbed) (early ++ [bar]) signal).trades := by
    rw [filter_trades_outcome hbars.ascending, Date.filter_le_of_ascending hbars.ascending]
  have haccount : accountAfter (terms.under .legacy) signal (early ++ [bar]) =
      (accountAfter (terms.under .absorbed) signal (early ++ [bar])).scale (reversalGain terms.feeRate
        (outcome (terms.under .absorbed) (early ++ [bar]) signal).trades) :=
    (turnsOver_outgrows signal hterms hclose hascending).account_eq
  have hdate : (pointAfter (terms.under .absorbed) signal early bar).date = bar.date := rfl
  have hposition := congrArg Account.position haccount
  refine ⟨rfl, rfl, hposition, ?_⟩
  rw [hdate, hknown]
  calc (pointAfter (terms.under .legacy) signal early bar).portfolioValue
      = (accountAfter (terms.under .legacy) signal (early ++ [bar])).value bar.close := rfl
    _ = reversalGain terms.feeRate (outcome (terms.under .absorbed) (early ++ [bar]) signal).trades *
          (accountAfter (terms.under .absorbed) signal (early ++ [bar])).value bar.close := by
        rw [haccount, Account.value_scale]
    _ = _ := by
        rw [reversalGain, mul_comm, ← div_eq_mul_inv]
        rfl

/-- By induction on the days up to some date; all later ones are known from the start, because the
reversals up to a date are counted among all trades. -/
theorem equity_outgrows (hterms : terms.Valid) (hbars : Tradable (early ++ late) signal) :
    List.Forall₂
      (PointOutgrows terms.feeRate (outcome (terms.under .absorbed) (early ++ late) signal).trades)
      (outcome (terms.under .legacy) early signal).equity
      (outcome (terms.under .absorbed) early signal).equity := by
  induction early using List.reverseRecOn generalizing late with
  | nil => exact .nil
  | append_singleton early bar ih =>
      rw [List.append_assoc, List.singleton_append] at hbars ⊢
      rw [equity_outcome_concat, equity_outcome_concat]
      exact List.rel_append (ih hbars) (.cons (pointAfter_outgrows hterms hbars) .nil)

/-! ### Runs that agree entirely -/

theorem days_legacy_eq_absorbed (account : Account Rat) (previous : Option (EquityPoint Rat))
    (hsame : terms.feeRate = 0 ∨ shortReversals
      ((days (terms.under .absorbed) signal account previous bars).flatMap Day.trades) = 0) :
    days (terms.under .legacy) signal account previous bars =
      days (terms.under .absorbed) signal account previous bars := by
  induction bars generalizing account previous with
  | nil => rfl
  | cons bar rest ih =>
      let today := turnOn (terms.under .absorbed) signal account bar
      let point := (dayOn (terms.under .absorbed) signal account previous bar).point
      have hparts : terms.feeRate = 0 ∨ shortReversals today.trades = 0 ∧ shortReversals
          ((days (terms.under .absorbed) signal today.account (some point) rest).flatMap
            Day.trades) = 0 := by
        refine hsame.imp_right fun hnone => ?_
        rw [days_cons, List.flatMap_cons] at hnone
        have hsum := (add_shortReversals_le _ _).trans_eq hnone
        exact Nat.add_eq_zero_iff.mp (Nat.le_zero.mp hsum)
      have hturn : turnOn (terms.under .legacy) signal account bar = today :=
        Account.turnTo_legacy_eq_absorbed (hparts.imp_right And.left)
      have hday : dayOn (terms.under .legacy) signal account previous bar =
          dayOn (terms.under .absorbed) signal account previous bar := by
        simp only [dayOn_eq, hturn, today]
      rw [days_cons, days_cons, hday, hturn, ih _ _ (hparts.imp_right And.right)]

theorem outcome_legacy_eq_absorbed
    (hsame : terms.feeRate = 0 ∨
      shortReversals (outcome (terms.under .absorbed) bars signal).trades = 0) :
    outcome (terms.under .legacy) bars signal = outcome (terms.under .absorbed) bars signal := by
  have hdays := days_legacy_eq_absorbed (.opening terms.initialCapital) none hsame
  have hcapital : ∀ convention, (terms.under convention).initialCapital = terms.initialCapital :=
    fun _ => rfl
  simp only [outcome, hcapital, hdays]

theorem run_error_iff (convention other : FeeConvention) (fault : Error) :
    run (terms.under convention) bars signal = .error fault ↔
      run (terms.under other) bars signal = .error fault := by
  have hcheck : (terms.under convention).check = (terms.under other).check := rfl
  simp only [run, hcheck]
  cases (terms.under other).check with
  | error _ => exact Iff.rfl
  | ok _ =>
      cases checkBars bars signal with
      | error _ => exact Iff.rfl
      | ok _ => simp [bind, Except.bind, pure, Except.pure]

/-- **Two fee conventions.** A run is refused under both for the same reason, or gives a result under
both. Then the trades are of the same kinds on the same dates, and every day ends in the same position.
The legacy value of a day is the absorbed one divided by `1 - f ^ 2` once for every short that was
turned into a long by that day. Without such a reversal, or without fees, nothing differs at all. -/
theorem run_under_conventions (terms : Terms Rat) (bars : List (Bar Rat)) (signal : Series Position) :
    (∀ fault, run (terms.under .legacy) bars signal = .error fault ↔
      run (terms.under .absorbed) bars signal = .error fault) ∧
      ∀ legacy absorbed, run (terms.under .legacy) bars signal = .ok legacy →
        run (terms.under .absorbed) bars signal = .ok absorbed →
        legacy.trades.map Trade.event = absorbed.trades.map Trade.event ∧
          List.Forall₂ (PointOutgrows terms.feeRate absorbed.trades) legacy.equity absorbed.equity ∧
          (terms.feeRate = 0 ∨ shortReversals absorbed.trades = 0 → legacy = absorbed) := by
  refine ⟨run_error_iff .legacy .absorbed, ?_⟩
  intro legacy absorbed hlegacy habsorbed
  obtain ⟨_, _, rfl⟩ := run_eq_ok_iff.mp hlegacy
  obtain ⟨hcheck, hbars, rfl⟩ := run_eq_ok_iff.mp habsorbed
  have hterms : terms.Valid := by
    obtain ⟨hcapital, hnonneg, hfee⟩ := Terms.check_eq_ok_iff.mp hcheck
    exact ⟨hcapital, hnonneg, hfee⟩
  refine ⟨?_, ?_, outcome_legacy_eq_absorbed⟩
  · exact (turnsOver_outgrows signal hterms (fun _ => hbars.close_pos) hbars.ascending).events_eq
  · have hequity : List.Forall₂
        (PointOutgrows terms.feeRate (outcome (terms.under .absorbed) (bars ++ []) signal).trades)
        (outcome (terms.under .legacy) bars signal).equity
        (outcome (terms.under .absorbed) bars signal).equity :=
      equity_outgrows hterms (by rwa [List.append_nil])
    rwa [List.append_nil] at hequity

theorem run_under_conventions_sample :
    let terms := Sample.terms .absorbed
    let legacy := outcome (terms.under .legacy) Sample.bars Sample.signal
    let absorbed := outcome (terms.under .absorbed) Sample.bars Sample.signal
    run (terms.under .legacy) Sample.bars Sample.signal = .ok legacy ∧
      run (terms.under .absorbed) Sample.bars Sample.signal = .ok absorbed ∧
      shortReversals absorbed.trades = 1 ∧
      legacy.trades.map Trade.event = absorbed.trades.map Trade.event ∧
      List.Forall₂ (PointOutgrows terms.feeRate absorbed.trades) legacy.equity absorbed.equity := by
  intro terms legacy absorbed
  have hlegacy : run (terms.under .legacy) Sample.bars Sample.signal = .ok legacy :=
    Sample.run_eq_ok .legacy
  have habsorbed : run (terms.under .absorbed) Sample.bars Sample.signal = .ok absorbed :=
    Sample.run_eq_ok .absorbed
  have hreversals : shortReversals absorbed.trades = 1 := by decide +kernel
  obtain ⟨hevents, hequity, _⟩ :=
    (run_under_conventions terms Sample.bars Sample.signal).2 legacy absorbed hlegacy habsorbed
  exact ⟨hlegacy, habsorbed, hreversals, hevents, hequity⟩

end Simulation

end Backtest
