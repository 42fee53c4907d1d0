import Backtest.Proofs.Ledger.Matching
import Backtest.Proofs.Scalar.Partial
import Backtest.Proofs.Simulation.Checks
import Backtest.Proofs.Simulation.Days

/-!
# Divisions of a run

A run divides by the price of a bar, by a price with the fee on top, by the price of an entry, and by the
value of the day before. The first three are positive because the bars and the terms have been checked,
and the last one is looked at before. So a run is the same in partial scalars, and in particular it leaves
no undefined number behind.
-/

namespace Backtest

variable {α β : Type}

/-! ### Other scalars -/

def Terms.map (f : α → β) (terms : Terms α) : Terms β :=
  ⟨f terms.initialCapital, f terms.feeRate, terms.feeConvention⟩

def Bar.map (f : α → β) (bar : Bar α) : Bar β :=
  ⟨bar.date, f bar.opening, f bar.high, f bar.low, f bar.close, f bar.volume⟩

def Account.map (f : α → β) (account : Account α) : Account β :=
  ⟨f account.capital, f account.shares, account.position⟩

def Trade.map (f : α → β) (trade : Trade α) : Trade β where
  date := trade.date
  kind := trade.kind
  price := f trade.price
  quantity := f trade.quantity
  value := f trade.value
  commission := f trade.commission
  capitalAfter := f trade.capitalAfter
  positionAfter := trade.positionAfter

def Turn.map (f : α → β) (turn : Turn α) : Turn β := ⟨turn.account.map f, turn.trades.map (Trade.map f)⟩

def EquityPoint.map (f : α → β) (point : EquityPoint α) : EquityPoint β where
  date := point.date
  portfolioValue := f point.portfolioValue
  price := f point.price
  position := point.position
  capital := f point.capital
  shares := f point.shares
  dailyReturn := f point.dailyReturn

def RoundTrip.map (f : α → β) (trip : RoundTrip α) : RoundTrip β where
  entryDate := trip.entryDate
  exitDate := trip.exitDate
  entryPrice := f trip.entryPrice
  exitPrice := f trip.exitPrice
  returnPercent := f trip.returnPercent
  durationDays := trip.durationDays
  direction := trip.direction

def Outcome.map (f : α → β) (outcome : Outcome α) : Outcome β where
  initialCapital := f outcome.initialCapital
  equity := outcome.equity.map (EquityPoint.map f)
  trades := outcome.trades.map (Trade.map f)
  roundTrips := outcome.roundTrips.map (RoundTrip.map f)

open PartialRat

variable {answers : Answers}

/-! ### Turns -/

namespace Account

section Moves

variable {feeRate price : Rat} {date : Date}

@[simp]
theorem value_map_of (account : Account Rat) (price : Rat) :
    (account.map of : Account (PartialRat answers)).value (of price) = of (account.value price) := rfl

theorem none_map (account : Account Rat) :
    (Turn.none (account.map of) : Turn (PartialRat answers)) = (Turn.none account).map of := rfl

theorem enterLong_map_of (hprice : price ≠ 0) (account : Account Rat) :
    (account.map of : Account (PartialRat answers)).enterLong (of feeRate) date (of price) =
      (account.enterLong feeRate date price).map of := by
  by_cases hcapital : account.capital ≤ 0
  · rw [enterLong_of_le hcapital, enterLong_of_le ((of_le_of _ _).mpr hcapital), none_map]
  · have hshares : (of (account.capital - account.capital * feeRate) / of price : PartialRat answers) =
        of ((account.capital - account.capital * feeRate) / price) := of_div_of hprice _
    rw [enterLong_of_not_le hcapital, enterLong_of_not_le ((of_le_of _ _).not.mpr hcapital)]
    simp only [map, of_mul_of, of_sub_of, hshares]
    rfl

theorem enterLongWithFee_map_of (hprice : price ≠ 0) (hfee : 1 + feeRate ≠ 0) (account : Account Rat) :
    (account.map of : Account (PartialRat answers)).enterLongWithFee (of feeRate) date (of price) =
      (account.enterLongWithFee feeRate date price).map of := by
  by_cases hcapital : account.capital ≤ 0
  · rw [enterLongWithFee_of_le hcapital, enterLongWithFee_of_le ((of_le_of _ _).mpr hcapital), none_map]
  · have hshares : (of account.capital / of (price * (1 + feeRate)) : PartialRat answers) =
        of (account.capital / (price * (1 + feeRate))) := of_div_of (mul_ne_zero hprice hfee) _
    rw [enterLongWithFee_of_not_le hcapital,
      enterLongWithFee_of_not_le ((of_le_of _ _).not.mpr hcapital)]
    simp only [map, one_eq, of_add_of, of_mul_of, hshares]
    rfl

theorem enterShort_map_of (hprice : price ≠ 0) (account : Account Rat) :
    (account.map of : Account (PartialRat answers)).enterShort (of feeRate) date (of price) =
      (account.enterShort feeRate date price).map of := by
  by_cases hvalue : account.value price ≤ 0
  · rw [enterShort_of_le hvalue, enterShort_of_le ((of_le_of _ _).mpr hvalue), none_map]
  · have hquantity : (of (account.value price) / of price : PartialRat answers) =
        of (account.value price / price) := of_div_of hprice _
    rw [enterShort_of_not_le hvalue, enterShort_of_not_le ((of_le_of _ _).not.mpr hvalue)]
    simp only [value_map_of, hquantity]
    rfl

theorem exitLong_map_of (account : Account Rat) :
    (account.map of : Account (PartialRat answers)).exitLong (of feeRate) date (of price) =
      (account.exitLong feeRate date price).map of := rfl

theorem coverShort_map_of (account : Account Rat) :
    (account.map of : Account (PartialRat answers)).coverShort (of feeRate) date (of price) =
      (account.coverShort feeRate date price).map of := rfl

theorem andThen_map_of {turn : Turn Rat} {changed : Turn (PartialRat answers)}
    {next : Account Rat → Turn Rat} {next' : Account (PartialRat answers) → Turn (PartialRat answers)}
    (hturn : changed = turn.map of)
    (hnext : next' (turn.account.map of) = (next turn.account).map of) :
    changed.andThen next' = (turn.andThen next).map of := by
  subst hturn
  simp only [Turn.andThen, Turn.map, hnext, List.map_append]

end Moves

/-- By cases on the position and the target; a reversal is an exit and an entry. -/
theorem turnTo_map_of {feeRate price : Rat} (hprice : price ≠ 0) (hfee : 1 + feeRate ≠ 0)
    (target : Position) (convention : FeeConvention) (date : Date) (account : Account Rat) :
    (account.map of : Account (PartialRat answers)).turnTo target convention (of feeRate) date
        (of price) =
      (account.turnTo target convention feeRate date price).map of := by
  obtain ⟨capital, shares, position⟩ := account
  cases position with
  | long =>
      cases target with
      | long => rfl
      | cash => rfl
      | short => exact andThen_map_of (exitLong_map_of _) (enterShort_map_of hprice _)
  | cash =>
      cases target with
      | long => exact enterLong_map_of hprice _
      | cash => rfl
      | short => exact enterShort_map_of hprice _
  | short =>
      cases target with
      | long =>
          cases convention with
          | absorbed => exact andThen_map_of (coverShort_map_of _) (enterLong_map_of hprice _)
          | legacy =>
              exact andThen_map_of (coverShort_map_of _) (enterLongWithFee_map_of hprice hfee _)
      | cash => rfl
      | short => rfl

end Account

/-! ### Points and round trips -/

theorem EquityPoint.returnSince_map_of (previous : Option (EquityPoint Rat)) (value : Rat) :
    (returnSince (previous.map (map of)) (of value) : PartialRat answers) =
      of (returnSince previous value) := by
  cases previous with
  | none => rfl
  | some point =>
      by_cases hnothing : point.portfolioValue = 0
      · simp [returnSince, map, hnothing]
      · simp [returnSince, map, hnothing, of_div_of hnothing]

theorem EquityPoint.after_map_of (previous : Option (EquityPoint Rat)) (date : Date) (price : Rat)
    (position : Position) (capital shares : Rat) :
    (after (previous.map (map of)) date (of price) position (of capital) (of shares) :
        EquityPoint (PartialRat answers)) =
      (after previous date price position capital shares).map of := by
  simp only [after, of_mul_of, of_add_of, returnSince_map_of]
  rfl

theorem RoundTrip.close_map_of (direction : Direction) {entry : Trade Rat} (hentry : entry.price ≠ 0)
    (exit : Trade Rat) :
    (close direction (entry.map of) (exit.map of) : RoundTrip (PartialRat answers)) =
      (close direction entry exit).map of := by
  have hchange : (of (exit.price - entry.price) / of entry.price : PartialRat answers) =
      of ((exit.price - entry.price) / entry.price) := of_div_of hentry _
  cases direction <;>
    · simp only [close, map, Trade.map, of_sub_of, hchange]
      rfl

namespace Waiting

/-- The entries that wait can be divided by. -/
structure Priced (waiting : Waiting Rat) : Prop where
  longs : ∀ entry ∈ waiting.longs, entry.price ≠ 0
  shorts : ∀ entry ∈ waiting.shorts, entry.price ≠ 0

theorem Priced.none : Priced none := ⟨List.forall_mem_nil _, List.forall_mem_nil _⟩

theorem Priced.take {waiting : Waiting Rat} (hwaiting : waiting.Priced) {trade : Trade Rat}
    (htrade : trade.price ≠ 0) : (waiting.take trade).Priced := by
  obtain ⟨hlongs, hshorts⟩ := hwaiting
  have hone : ∀ entry ∈ [trade], entry.price ≠ 0 := List.forall_mem_singleton.mpr htrade
  cases hkind : trade.kind <;> simp only [Waiting.take, hkind]
  case buy => exact ⟨List.forall_mem_append.mpr ⟨hlongs, hone⟩, hshorts⟩
  case sell => exact ⟨fun entry hentry => hlongs entry (List.mem_of_mem_tail hentry), hshorts⟩
  case shortSell => exact ⟨hlongs, List.forall_mem_append.mpr ⟨hshorts, hone⟩⟩
  case coverShort => exact ⟨hlongs, fun entry hentry => hshorts entry (List.mem_of_mem_tail hentry)⟩

theorem closed_map_of {waiting : Waiting Rat} (hwaiting : waiting.Priced) (trade : Trade Rat) :
    (waiting.map (Trade.map of) : Waiting (PartialRat answers)).closed (trade.map of) =
      (waiting.closed trade).map (RoundTrip.map of) := by
  have hkind : (trade.map of : Trade (PartialRat answers)).kind = trade.kind := rfl
  obtain ⟨longs, shorts⟩ := waiting
  obtain ⟨hlongs, hshorts⟩ := hwaiting
  simp only [closed, hkind]
  cases trade.kind with
  | buy => rfl
  | sell =>
      cases longs with
      | nil => rfl
      | cons entry rest =>
          have hentry : entry.price ≠ 0 := hlongs entry List.mem_cons_self
          simp [map, RoundTrip.close_map_of .long hentry]
  | shortSell => rfl
  | coverShort =>
      cases shorts with
      | nil => rfl
      | cons entry rest =>
          have hentry : entry.price ≠ 0 := hshorts entry List.mem_cons_self
          simp [map, RoundTrip.close_map_of .short hentry]

theorem matched_map_of {waiting : Waiting Rat} (hwaiting : waiting.Priced) {trades : List (Trade Rat)}
    (htrades : ∀ trade ∈ trades, trade.price ≠ 0) :
    (waiting.map (Trade.map of) : Waiting (PartialRat answers)).matched (trades.map (Trade.map of)) =
      (waiting.matched trades).map (RoundTrip.map of) := by
  induction trades generalizing waiting with
  | nil => rfl
  | cons trade rest ih =>
      obtain ⟨htrade, hrest⟩ := List.forall_mem_cons.mp htrades
      rw [List.map_cons, matched_cons, matched_cons, closed_map_of hwaiting,
        take_map (f := Trade.map of) fun _ => rfl, ih (hwaiting.take htrade) hrest, List.map_append]

end Waiting

theorem RoundTrip.ofTrades_map_of {trades : List (Trade Rat)}
    (htrades : ∀ trade ∈ trades, trade.price ≠ 0) :
    (ofTrades (trades.map (Trade.map of)) : List (RoundTrip (PartialRat answers))) =
      (ofTrades trades).map (RoundTrip.map of) :=
  Waiting.matched_map_of Waiting.Priced.none htrades

/-! ### Runs -/

theorem Terms.check_map_of (terms : Terms Rat) :
    (terms.map of : Terms (PartialRat answers)).check = terms.check := by
  have hleast : (leastCapital : PartialRat answers) = of leastCapital := rfl
  have hbound : (feeRateBound : PartialRat answers) = of feeRateBound := ratio_eq (by decide) 1
  simp [check, map, hleast, hbound]

namespace Simulation

variable {terms : Terms Rat} {signal : Series Position} {bars : List (Bar Rat)}

def Day.map (f : α → β) (day : Day α) : Day β := ⟨day.trades.map (Trade.map f), day.point.map f⟩

theorem turnOn_map_of (hfee : 1 + terms.feeRate ≠ 0) (account : Account Rat) {bar : Bar Rat}
    (hclose : bar.close ≠ 0) :
    (turnOn (terms.map of) signal (account.map of) (bar.map of) : Turn (PartialRat answers)) =
      (turnOn terms signal account bar).map of :=
  Account.turnTo_map_of hclose hfee _ _ _ account

theorem dayOn_map_of (hfee : 1 + terms.feeRate ≠ 0) (account : Account Rat)
    (previous : Option (EquityPoint Rat)) {bar : Bar Rat} (hclose : bar.close ≠ 0) :
    (dayOn (terms.map of) signal (account.map of) (previous.map (EquityPoint.map of)) (bar.map of) :
        Day (PartialRat answers)) =
      (dayOn terms signal account previous bar).map of := by
  rw [dayOn_eq, dayOn_eq, turnOn_map_of hfee account hclose]
  exact congrArg (Day.mk _) (EquityPoint.after_map_of _ _ _ _ _ _)

theorem days_map_of (hfee : 1 + terms.feeRate ≠ 0) (hcloses : ∀ bar ∈ bars, bar.close ≠ 0)
    (account : Account Rat) (previous : Option (EquityPoint Rat)) :
    (days (terms.map of) signal (account.map of) (previous.map (EquityPoint.map of))
        (bars.map (Bar.map of)) : List (Day (PartialRat answers))) =
      (days terms signal account previous bars).map (Day.map of) := by
  induction bars generalizing account previous with
  | nil => rfl
  | cons bar rest ih =>
      obtain ⟨hclose, hrest⟩ := List.forall_mem_cons.mp hcloses
      rw [List.map_cons, days_cons, days_cons, List.map_cons, dayOn_map_of hfee account previous hclose,
        turnOn_map_of hfee account hclose]
      exact congrArg _ (ih hrest _ (some _))

theorem price_ne_zero_of_mem_trades (hcloses : ∀ bar ∈ bars, bar.close ≠ 0) (account : Account Rat)
    (previous : Option (EquityPoint Rat)) :
    ∀ trade ∈ (days terms signal account previous bars).flatMap Day.trades, trade.price ≠ 0 := by
  induction bars generalizing account previous with
  | nil => exact fun trade hmem => absurd hmem List.not_mem_nil
  | cons bar rest ih =>
      obtain ⟨hclose, hrest⟩ := List.forall_mem_cons.mp hcloses
      rw [days_cons, List.flatMap_cons, List.forall_mem_append]
      refine ⟨fun trade hmem => ?_, ih hrest _ _⟩
      rw [Account.price_of_mem_turnTo hmem]
      exact hclose

theorem outcome_map_of (hfee : 1 + terms.feeRate ≠ 0) (hcloses : ∀ bar ∈ bars, bar.close ≠ 0) :
    (outcome (terms.map of) (bars.map (Bar.map of)) signal : Outcome (PartialRat answers)) =
      (outcome terms bars signal).map of := by
  have hdays : (days (terms.map of) signal (.opening (of terms.initialCapital)) none
        (bars.map (Bar.map of)) : List (Day (PartialRat answers))) =
      (days terms signal (.opening terms.initialCapital) none bars).map (Day.map of) :=
    days_map_of hfee hcloses (.opening terms.initialCapital) none
  have htrades : ∀ days : List (Day Rat),
      (days.map (Day.map of : Day Rat → Day (PartialRat answers))).flatMap Day.trades =
        (days.flatMap Day.trades).map (Trade.map of) := flatMap_trades_map fun _ => rfl
  have hprices : ∀ trade ∈ (days terms signal (.opening terms.initialCapital) none bars).flatMap
      Day.trades, trade.price ≠ 0 := price_ne_zero_of_mem_trades hcloses _ none
  have hcapital : (terms.map of : Terms (PartialRat answers)).initialCapital =
    of terms.initialCapital := rfl
  simp only [outcome, hcapital, hdays, htrades, RoundTrip.ofTrades_map_of hprices, Outcome.map,
    List.map_map]
  rfl

theorem checkBars_map_of (bars : List (Bar Rat)) (signal : Series Position) :
    checkBars (bars.map (Bar.map of) : List (Bar (PartialRat answers))) signal =
      checkBars bars signal := by
  have hascend : Bar.ascend (bars.map (Bar.map of) : List (Bar (PartialRat answers))) =
      Bar.ascend bars := by
    rw [Bool.eq_iff_iff, ascend_iff, ascend_iff, List.map_map]
    rfl
  have hvalid : (fun bar => !bar.hasValidClose) ∘ (Bar.map of : Bar Rat → Bar (PartialRat answers)) =
      fun bar => !bar.hasValidClose := by
    funext bar
    simp [Bar.hasValidClose, Bar.map]
  simp only [checkBars, List.isEmpty_map, hascend, List.find?_map, hvalid]
  cases bars.find? fun bar => !bar.hasValidClose with
  | some bar => rfl
  | none =>
      have hcovered : (fun bar => (signal.get? bar.date).isNone) ∘
          (Bar.map of : Bar Rat → Bar (PartialRat answers)) =
            fun bar => (signal.get? bar.date).isNone := rfl
      rw [hcovered]
      cases bars.find? fun bar => (signal.get? bar.date).isNone with
      | some bar => rfl
      | none => rfl

/-- A run is the same in partial scalars, whether it is refused or not. -/
theorem run_map_of (terms : Terms Rat) (bars : List (Bar Rat)) (signal : Series Position) :
    run (terms.map of) (bars.map (Bar.map of)) signal =
      (run terms bars signal).map (Outcome.map (of : Rat → PartialRat answers)) := by
  rw [run, run, Terms.check_map_of, checkBars_map_of]
  cases hterms : terms.check with
  | error fault => rfl
  | ok _ =>
      cases hbars : checkBars bars signal with
      | error fault => rfl
      | ok _ =>
          have hvalid : terms.Valid := Terms.check_eq_ok_iff.mp hterms
          have htradable : Tradable bars signal := checkBars_eq_ok_iff.mp hbars
          have hfee : 1 + terms.feeRate ≠ 0 := by linarith [hvalid.fee_nonneg]
          have hcloses : ∀ bar ∈ bars, bar.close ≠ 0 := fun bar hbar => (htradable.close_pos hbar).ne'
          exact congrArg Except.ok (outcome_map_of hfee hcloses)

end Simulation

end Backtest
