import Mathlib.Data.List.Induction
import Backtest.Proofs.Calendar.Order
import Backtest.Proofs.Simulation.Turn
import Backtest.Simulation

/-!
# The days of a run

A run over some bars goes on with the next bar from the account that the days so far leave. The lemmas
say what the next day adds to the equity curve and to the trades, so what holds of every run is proved
by induction on its bars from the first to the last. Nothing that later days add changes what the
earlier ones left behind.
-/

namespace Backtest.Simulation

variable {α : Type} [Scalar α]

/-- The turn that an account makes on the day of a bar. -/
def turnOn (terms : Terms α) (signal : Series Position) (account : Account α) (bar : Bar α) : Turn α :=
  account.turnTo ((signal.get? bar.date).getD .cash) terms.feeConvention terms.feeRate bar.date
    bar.close

/-- The trades and the point of that day. -/
def dayOn (terms : Terms α) (signal : Series Position) (account : Account α)
    (previous : Option (EquityPoint α)) (bar : Bar α) : Day α :=
  (day terms ((signal.get? bar.date).getD .cash) account previous bar).2

def accountFrom (terms : Terms α) (signal : Series Position) (account : Account α)
    (bars : List (Bar α)) : Account α :=
  bars.foldl (fun account bar => (turnOn terms signal account bar).account) account

/-- The account that the days of some bars leave. -/
def accountAfter (terms : Terms α) (signal : Series Position) (bars : List (Bar α)) : Account α :=
  accountFrom terms signal (.opening terms.initialCapital) bars

/-- The point of the day that follows the days of some bars. -/
def pointAfter (terms : Terms α) (signal : Series Position) (bars : List (Bar α)) (bar : Bar α) :
    EquityPoint α :=
  let account := accountAfter terms signal (bars ++ [bar])
  .after (outcome terms bars signal).equity.getLast? bar.date bar.close account.position
    account.capital account.shares

variable {terms : Terms α} {signal : Series Position} {bars : List (Bar α)} {bar : Bar α}

theorem dayOn_eq (account : Account α) (previous : Option (EquityPoint α)) (bar : Bar α) :
    dayOn terms signal account previous bar =
      let turn := turnOn terms signal account bar
      ⟨turn.trades, .after previous bar.date bar.close turn.account.position turn.account.capital
        turn.account.shares⟩ := rfl

theorem days_cons (account : Account α) (previous : Option (EquityPoint α)) :
    days terms signal account previous (bar :: bars) =
      dayOn terms signal account previous bar ::
        days terms signal (turnOn terms signal account bar).account
          (some (dayOn terms signal account previous bar).point) bars :=
  rfl

theorem days_concat (account : Account α) (previous : Option (EquityPoint α)) :
    days terms signal account previous (bars ++ [bar]) =
      days terms signal account previous bars ++
        [dayOn terms signal (accountFrom terms signal account bars)
          (((days terms signal account previous bars).getLast?.map Day.point).or previous) bar] := by
  induction bars generalizing account previous with
  | nil => rfl
  | cons first rest ih =>
      rw [List.cons_append, days_cons, days_cons, ih, List.cons_append, List.getLast?_cons]
      cases (days terms signal (turnOn terms signal account first).account _ rest).getLast? <;> rfl

omit [Scalar α] in
/-- Days that are read in another way, with their trades, have the trades read in this way. -/
theorem flatMap_trades_map {β : Type} {f : Day α → Day β} {g : Trade α → Trade β}
    (hday : ∀ day, (f day).trades = day.trades.map g) (days : List (Day α)) :
    (days.map f).flatMap Day.trades = (days.flatMap Day.trades).map g := by
  rw [List.flatMap_map, List.map_flatMap]
  simp only [hday]

@[simp]
theorem accountAfter_nil : accountAfter terms signal [] = .opening terms.initialCapital := rfl

theorem accountAfter_concat :
    accountAfter terms signal (bars ++ [bar]) =
      (turnOn terms signal (accountAfter terms signal bars) bar).account := by
  simp [accountAfter, accountFrom]

@[simp]
theorem trades_outcome_nil : (outcome terms [] signal).trades = [] := rfl

@[simp]
theorem equity_outcome_nil : (outcome terms [] signal).equity = [] := rfl

theorem trades_outcome_concat :
    (outcome terms (bars ++ [bar]) signal).trades = (outcome terms bars signal).trades ++
      (turnOn terms signal (accountAfter terms signal bars) bar).trades := by
  simp only [outcome, days_concat, List.flatMap_append, List.flatMap_singleton]
  rfl

theorem equity_outcome_concat :
    (outcome terms (bars ++ [bar]) signal).equity =
      (outcome terms bars signal).equity ++ [pointAfter terms signal bars bar] := by
  simp only [pointAfter, accountAfter_concat, outcome, days_concat, List.map_append,
    List.map_singleton, List.getLast?_map, Option.or_none]
  rfl

/-! ### Dates and prices -/

/-- The equity curve has one point for every bar, on its date and at its close. -/
theorem map_equity_outcome (bars : List (Bar α)) :
    ((outcome terms bars signal).equity.map fun point => (point.date, point.price)) =
      bars.map fun bar => (bar.date, bar.close) := by
  induction bars using List.reverseRecOn with
  | nil => rfl
  | append_singleton bars bar ih =>
      rw [equity_outcome_concat, List.map_append, List.map_append, ih]
      rfl

theorem dates_equity_outcome (bars : List (Bar α)) :
    (outcome terms bars signal).equity.map EquityPoint.date = bars.map Bar.date := by
  have hpairs : ((outcome terms bars signal).equity.map fun point => (point.date, point.price)) =
      bars.map fun bar => (bar.date, bar.close) := map_equity_outcome bars
  simpa [Function.comp_def] using congrArg (List.map Prod.fst) hpairs

/-- Trades are dated on days of the run. -/
theorem exists_bar_of_mem_trades {trade : Trade α}
    (hmem : trade ∈ (outcome terms bars signal).trades) : ∃ bar ∈ bars, trade.date = bar.date := by
  induction bars using List.reverseRecOn with
  | nil => exact absurd hmem List.not_mem_nil
  | append_singleton bars bar ih =>
      rw [trades_outcome_concat, List.mem_append] at hmem
      rcases hmem with hearlier | htoday
      · obtain ⟨other, hother, hdate⟩ := ih hearlier
        exact ⟨other, List.mem_append_left _ hother, hdate⟩
      · exact ⟨bar, by simp, Account.date_of_mem_turnTo htoday⟩

/-- No trade of a run is dated after its last day. -/
theorem date_le_of_mem_trades {trade : Trade α} {late : List (Bar α)}
    (hascending : ((bars ++ bar :: late).map Bar.date).Pairwise (· < ·))
    (hmem : trade ∈ (outcome terms (bars ++ [bar]) signal).trades) : trade.date ≤ bar.date := by
  obtain ⟨other, hother, hdate⟩ := exists_bar_of_mem_trades hmem
  rw [hdate]
  rw [List.map_append, List.pairwise_append] at hascending
  rcases List.mem_append.mp hother with hearlier | htoday
  · exact (hascending.2.2 _ (List.mem_map_of_mem hearlier) bar.date (by simp)).le
  · rw [List.mem_singleton.mp htoday]

/-! ### Earlier and later days -/

/-- Later days only add points, and these are dated on later days. -/
theorem exists_equity_outcome_append (terms : Terms α) (signal : Series Position)
    (early late : List (Bar α)) :
    ∃ rest, (outcome terms (early ++ late) signal).equity =
        (outcome terms early signal).equity ++ rest ∧
      rest.map EquityPoint.date = late.map Bar.date := by
  induction late using List.reverseRecOn with
  | nil => exact ⟨[], by simp⟩
  | append_singleton late bar ih =>
      obtain ⟨rest, hequity, hdates⟩ := ih
      refine ⟨rest ++ [pointAfter terms signal (early ++ late) bar], ?_, ?_⟩
      · rw [← List.append_assoc, equity_outcome_concat, hequity, List.append_assoc]
      · rw [List.map_append, List.map_append, hdates]
        rfl

/-- Later days only add trades, and these are dated on later days. -/
theorem exists_trades_outcome_append (terms : Terms α) (signal : Series Position)
    (early late : List (Bar α)) :
    ∃ rest, (outcome terms (early ++ late) signal).trades =
        (outcome terms early signal).trades ++ rest ∧
      ∀ trade ∈ rest, ∃ bar ∈ late, trade.date = bar.date := by
  induction late using List.reverseRecOn with
  | nil => exact ⟨[], by simp⟩
  | append_singleton late bar ih =>
      obtain ⟨rest, htrades, hdates⟩ := ih
      refine ⟨rest ++ (turnOn terms signal (accountAfter terms signal (early ++ late)) bar).trades,
        ?_, ?_⟩
      · rw [← List.append_assoc, trades_outcome_concat, htrades, List.append_assoc]
      · intro trade hmem
        rcases List.mem_append.mp hmem with hrest | htoday
        · obtain ⟨other, hother, hdate⟩ := hdates trade hrest
          exact ⟨other, List.mem_append_left _ hother, hdate⟩
        · exact ⟨bar, by simp, Account.date_of_mem_turnTo htoday⟩

/-- The trades dated on a day are those of its turn, since no other day has its date. -/
theorem filter_trades_eq_turnOn {early late : List (Bar α)}
    (hascending : ((early ++ bar :: late).map Bar.date).Pairwise (· < ·)) :
    ((outcome terms (early ++ bar :: late) signal).trades.filter fun trade => trade.date = bar.date) =
      (turnOn terms signal (accountAfter terms signal early) bar).trades := by
  rw [List.map_append, List.map_cons, List.pairwise_append, List.pairwise_cons] at hascending
  obtain ⟨_, ⟨hlate, _⟩, hearly⟩ := hascending
  obtain ⟨rest, htrades, hrest⟩ :=
    exists_trades_outcome_append terms signal (early ++ [bar]) late
  rw [List.append_assoc, List.singleton_append] at htrades
  rw [htrades, trades_outcome_concat, List.filter_append, List.filter_append]
  have hbefore : ((outcome terms early signal).trades.filter fun trade => trade.date = bar.date) =
      [] := by
    refine List.filter_eq_nil_iff.mpr fun trade hmem => ?_
    obtain ⟨other, hother, hdate⟩ := exists_bar_of_mem_trades hmem
    have hlt := hearly other.date (List.mem_map_of_mem hother) bar.date List.mem_cons_self
    simpa [hdate] using hlt.ne
  have hafter : (rest.filter fun trade => trade.date = bar.date) = [] := by
    refine List.filter_eq_nil_iff.mpr fun trade hmem => ?_
    obtain ⟨other, hother, hdate⟩ := hrest trade hmem
    have hlt := hlate other.date (List.mem_map_of_mem hother)
    simpa [hdate] using hlt.ne'
  rw [hbefore, hafter, List.nil_append, List.append_nil]
  exact List.filter_eq_self.mpr fun trade hmem => decide_eq_true (Account.date_of_mem_turnTo hmem)

/-- Every point of the curve is the point of one of the days. -/
theorem exists_bars_of_equity_eq {before after : List (EquityPoint α)} {point : EquityPoint α}
    (hequity : (outcome terms bars signal).equity = before ++ point :: after) :
    ∃ early bar late, bars = early ++ bar :: late ∧
      before = (outcome terms early signal).equity ∧ point = pointAfter terms signal early bar := by
  induction bars using List.reverseRecOn generalizing after with
  | nil => simp at hequity
  | append_singleton bars bar ih =>
      rw [equity_outcome_concat] at hequity
      -- The point is that of the last day, or a point of the run without it.
      rcases List.eq_nil_or_concat after with rfl | ⟨rest, last, rfl⟩
      · obtain ⟨hbefore, hpoint⟩ := List.append_inj' hequity rfl
        exact ⟨bars, bar, [], rfl, hbefore.symm, (List.singleton_inj.mp hpoint).symm⟩
      · rw [List.concat_eq_append, ← List.cons_append, ← List.append_assoc] at hequity
        obtain ⟨early, found, late, hbars, hbefore, hpoint⟩ := ih (List.append_inj' hequity rfl).1
        exact ⟨early, found, late ++ [bar], by rw [hbars]; simp, hbefore, hpoint⟩

end Backtest.Simulation
