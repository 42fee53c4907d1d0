import Backtest.Proofs.Simulation.Balance

/-!
# Following the signal

A turn ends in the position that the signal asks for, unless there is no money to enter it with; then
the account ends in cash. An account that is in cash without money never gets any again: whatever the
signal asks for, every later turn is empty. So the positions of a run are those of the signal up to a
day on which the account is ruined, if there is one, and cash from there on.
-/

namespace Backtest

theorem Account.Sound.holdings {account : Account Rat} (hsound : account.Sound) :
    (account.position = .long → account.capital = 0 ∧ 0 < account.shares) ∧
      (account.position = .cash → account.shares = 0) ∧
      (account.position = .short → account.shares < 0 ∧ 0 < account.capital) := by
  cases hsound with
  | long hshares => simpa using hshares
  | cash => simp
  | short hcapital hshares => simpa using ⟨hshares, hcapital⟩

/-- The turn ends in its target, or in cash for lack of money. -/
def Turn.Reaches (target : Position) (turn : Turn Rat) : Prop :=
  turn.account.position = target ∨ turn.account.position = .cash ∧ turn.account.capital ≤ 0

namespace Account

variable {feeRate price : Rat} {date : Date}

theorem enterLong_reaches (capital : Rat) :
    (enterLong feeRate date price ⟨capital, 0, .cash⟩).Reaches .long := by
  by_cases hcapital : capital ≤ 0
  · rw [enterLong_of_le hcapital]
    exact Or.inr ⟨rfl, hcapital⟩
  · rw [enterLong_of_not_le hcapital]
    exact Or.inl rfl

theorem enterLongWithFee_reaches (capital : Rat) :
    (enterLongWithFee feeRate date price ⟨capital, 0, .cash⟩).Reaches .long := by
  by_cases hcapital : capital ≤ 0
  · rw [enterLongWithFee_of_le hcapital]
    exact Or.inr ⟨rfl, hcapital⟩
  · rw [enterLongWithFee_of_not_le hcapital]
    exact Or.inl rfl

theorem enterShort_reaches (capital : Rat) :
    (enterShort feeRate date price ⟨capital, 0, .cash⟩).Reaches .short := by
  by_cases hvalue : value ⟨capital, 0, .cash⟩ price ≤ 0
  · rw [enterShort_of_le hvalue]
    rw [value_cash] at hvalue
    exact Or.inr ⟨rfl, hvalue⟩
  · rw [enterShort_of_not_le hvalue]
    exact Or.inl rfl

/-- By cases on the position and the target; in a reversal the exit leaves cash alone, from which the
entry goes on. -/
theorem turnTo_reaches {account : Account Rat} (hsound : account.Sound) (target : Position)
    (convention : FeeConvention) :
    (account.turnTo target convention feeRate date price).Reaches target := by
  cases hsound with
  | long =>
      cases target with
      | long => exact Or.inl rfl
      | cash => exact Or.inl rfl
      | short => exact enterShort_reaches _
  | cash capital =>
      cases target with
      | long => exact enterLong_reaches capital
      | cash => exact Or.inl rfl
      | short => exact enterShort_reaches capital
  | short =>
      cases target with
      | long =>
          cases convention with
          | absorbed => exact enterLong_reaches _
          | legacy => exact enterLongWithFee_reaches _
      | cash => exact Or.inl rfl
      | short => exact Or.inl rfl

theorem turnTo_eq_none_of_ruined {capital : Rat} (hruined : capital ≤ 0) (target : Position)
    (convention : FeeConvention) :
    turnTo target convention feeRate date price ⟨capital, 0, .cash⟩ = .none ⟨capital, 0, .cash⟩ := by
  cases target with
  | long => exact enterLong_of_le hruined
  | cash => rfl
  | short => exact enterShort_of_le (by rwa [value_cash])

end Account

namespace Simulation

variable {terms : Terms Rat} {signal : Series Position} {bars early late : List (Bar Rat)}
  {bar : Bar Rat}

/-! ### Ruin -/

theorem turnOn_of_ruined {capital : Rat} (hruined : capital ≤ 0) (bar : Bar Rat) :
    turnOn terms signal ⟨capital, 0, .cash⟩ bar = .none ⟨capital, 0, .cash⟩ :=
  Account.turnTo_eq_none_of_ruined hruined _ _

theorem accountAfter_append_of_ruined {capital : Rat} (hruined : capital ≤ 0)
    (haccount : accountAfter terms signal early = ⟨capital, 0, .cash⟩) (late : List (Bar Rat)) :
    accountAfter terms signal (early ++ late) = ⟨capital, 0, .cash⟩ := by
  induction late using List.reverseRecOn with
  | nil => rwa [List.append_nil]
  | append_singleton late bar ih =>
      rw [← List.append_assoc, accountAfter_concat, ih, turnOn_of_ruined hruined]
      rfl

theorem trades_append_of_ruined {capital : Rat} (hruined : capital ≤ 0)
    (haccount : accountAfter terms signal early = ⟨capital, 0, .cash⟩) (late : List (Bar Rat)) :
    (outcome terms (early ++ late) signal).trades = (outcome terms early signal).trades := by
  induction late using List.reverseRecOn with
  | nil => rw [List.append_nil]
  | append_singleton late bar ih =>
      rw [← List.append_assoc, trades_outcome_concat, ih,
        accountAfter_append_of_ruined hruined haccount, turnOn_of_ruined hruined]
      exact List.append_nil _

theorem exists_equity_append_of_ruined {capital : Rat} (hruined : capital ≤ 0)
    (haccount : accountAfter terms signal early = ⟨capital, 0, .cash⟩) (late : List (Bar Rat)) :
    ∃ rest, (outcome terms (early ++ late) signal).equity =
        (outcome terms early signal).equity ++ rest ∧
      ∀ point ∈ rest, point.position = .cash ∧ point.capital = capital := by
  induction late using List.reverseRecOn with
  | nil => exact ⟨[], by simp⟩
  | append_singleton late bar ih =>
      obtain ⟨rest, hequity, hrest⟩ := ih
      have hleft := accountAfter_append_of_ruined hruined haccount (late ++ [bar])
      refine ⟨rest ++ [pointAfter terms signal (early ++ late) bar], ?_, ?_⟩
      · rw [← List.append_assoc, equity_outcome_concat, hequity, List.append_assoc]
      · intro point hmem
        rcases List.mem_append.mp hmem with hearlier | htoday
        · exact hrest point hearlier
        · rw [List.mem_singleton.mp htoday]
          rw [← List.append_assoc] at hleft
          exact ⟨congrArg Account.position hleft, congrArg Account.capital hleft⟩

/-! ### The points of a run -/

theorem turnOn_reaches (terms : Terms Rat) {account : Account Rat} (hsound : account.Sound)
    {target : Position} (htarget : signal.get? bar.date = some target) :
    (turnOn terms signal account bar).Reaches target := by
  unfold turnOn
  rw [htarget]
  exact Account.turnTo_reaches hsound target terms.feeConvention

/-- What a point of a run shows of the account and of the signal. -/
structure Follows (signal : Series Position) (point : EquityPoint Rat) : Prop where
  long : point.position = .long → point.capital = 0 ∧ 0 < point.shares
  cash : point.position = .cash → point.shares = 0
  short : point.position = .short → point.shares < 0 ∧ 0 < point.capital
  target : signal.get? point.date = some point.position ∨ point.position = .cash ∧ point.capital ≤ 0

theorem pointAfter_follows (hterms : terms.Valid)
    (hbars : Tradable (early ++ bar :: late) signal) :
    Follows signal (pointAfter terms signal early bar) := by
  obtain ⟨target, htarget⟩ := Option.isSome_iff_exists.mp (hbars.covered bar (by simp))
  have hreaches := turnOn_reaches terms (hbars.sound_before hterms) htarget
  rw [Turn.Reaches, ← accountAfter_concat] at hreaches
  obtain ⟨hlong, hcash, hshort⟩ := (hbars.sound_after hterms).holdings
  refine ⟨hlong, hcash, hshort, hreaches.imp_left fun htaken => ?_⟩
  change signal.get? bar.date = some (accountAfter terms signal (early ++ [bar])).position
  rw [htaken, htarget]

/-- **Following the signal.** The curve of a run has a point for every bar. A long position is held
without cash, cash without shares, and a short one against cash; the position is the signal's, unless
the account is in cash without money. From a day of that kind on nothing changes and nothing is traded
any more. -/
theorem run_follows_signal {result : Outcome Rat} (hrun : run terms bars signal = .ok result) :
    (result.equity.map fun point => (point.date, point.price)) =
        (bars.map fun bar => (bar.date, bar.close)) ∧
      (∀ point ∈ result.equity, Follows signal point) ∧
      ∀ before point after, result.equity = before ++ point :: after → point.position = .cash →
        point.capital ≤ 0 →
        (∀ later ∈ after, later.position = .cash ∧ later.capital = point.capital) ∧
          ∀ trade ∈ result.trades, trade.date ≤ point.date := by
  obtain ⟨hterms, hbars, rfl⟩ := run_eq_ok_iff.mp hrun
  rw [Terms.check_eq_ok_iff] at hterms
  refine ⟨map_equity_outcome bars, ?_, ?_⟩
  · intro point hpoint
    obtain ⟨before, after, hequity⟩ := List.append_of_mem hpoint
    obtain ⟨early, bar, late, rfl, _, rfl⟩ := exists_bars_of_equity_eq hequity
    exact pointAfter_follows hterms hbars
  · intro before point after hequity hcash hruined
    obtain ⟨early, bar, late, rfl, rfl, rfl⟩ := exists_bars_of_equity_eq hequity
    have hshares := (pointAfter_follows hterms hbars).cash hcash
    have haccount : accountAfter terms signal (early ++ [bar]) =
        ⟨(pointAfter terms signal early bar).capital, 0, .cash⟩ := by
      rw [← hshares, ← hcash]
      rfl
    -- The ruined account is the one before `late`, so the later points are those that `late` adds.
    rw [List.append_cons] at hequity ⊢
    obtain ⟨rest, hrest, hruin⟩ := exists_equity_append_of_ruined hruined haccount late
    have hafter : after = rest := by
      rw [equity_outcome_concat, hequity, List.append_assoc, List.append_cancel_left_eq] at hrest
      exact List.tail_eq_of_cons_eq hrest
    refine ⟨fun later hlater => hruin later (hafter ▸ hlater), fun trade htrade => ?_⟩
    rw [trades_append_of_ruined hruined haccount] at htrade
    exact date_le_of_mem_trades hbars.ascending htrade

theorem run_follows_signal_sample :
    let result := outcome (Sample.terms .absorbed) Sample.bars Sample.signal
    run (Sample.terms .absorbed) Sample.bars Sample.signal = .ok result ∧
      (∀ point ∈ result.equity, Follows Sample.signal point) ∧
      ∃ point, result.equity = result.equity.take 4 ++ point :: result.equity.drop 5 ∧
        point.position = .cash ∧ point.capital ≤ 0 ∧
        (∀ later ∈ result.equity.drop 5,
          later.position = .cash ∧ later.capital = point.capital) ∧
        ∀ trade ∈ result.trades, trade.date ≤ point.date := by
  intro result
  have hrun := Sample.run_eq_ok .absorbed
  obtain ⟨_, hfollows, hruin⟩ := run_follows_signal hrun
  let point := pointAfter (Sample.terms .absorbed) Sample.signal (Sample.bars.take 4)
    ⟨⟨4⟩, 400, 400, 400, 400, 0⟩
  have hequity : result.equity = result.equity.take 4 ++ point :: result.equity.drop 5 := by
    decide +kernel
  have hcash : point.position = .cash := by decide +kernel
  have hcapital : point.capital ≤ 0 := by decide +kernel
  obtain ⟨hlater, htrades⟩ := hruin _ _ _ hequity hcash hcapital
  exact ⟨hrun, hfollows, point, hequity, hcash, hcapital, hlater, htrades⟩

end Simulation

end Backtest
