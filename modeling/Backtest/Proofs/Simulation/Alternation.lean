import Backtest.Proofs.Ledger.Pairing
import Backtest.Proofs.Scalar.Lawful
import Backtest.Proofs.Simulation.Checks
import Backtest.Proofs.Simulation.Cutoff

/-!
# Entries and exits in turn

What an account holds tells which trade comes next: an account in cash can only enter, and an account
in a position can only leave it. So the trades of a run are pairs of an entry and its exit, with one
entry more at the end while a position is open. No law of arithmetic is needed for this. A run that
computes with rounded scalars goes through the same moves, and rounding keeps the one law that makes an
exit trade the quantity of its entry.
-/

namespace Backtest

variable {α : Type} [Scalar α]

/-- The account holds what the entry has opened, and without an entry it is in cash. -/
inductive Account.Holds : Account α → Option (Trade α) → Prop
  | cash {account : Account α} (hcash : account.position = .cash) : account.Holds none
  | entered {account : Account α} {direction : Direction} {entry : Trade α}
      (hkind : entry.kind = direction.entryKind) (hposition : account.position = direction.position)
      (hshares : account.shares = direction.holding entry.quantity) : account.Holds (some entry)

namespace Account.Holds

variable {account : Account α} {held : Option (Trade α)}

theorem eq_none (hholds : account.Holds held) (hcash : account.position = .cash) : held = none := by
  cases hholds with
  | cash => rfl
  | @entered direction entry hkind hposition hshares =>
      rw [hcash] at hposition
      cases direction <;> cases hposition

theorem exists_entry (hholds : account.Holds held) (direction : Direction)
    (hposition : account.position = direction.position) :
    ∃ entry, held = some entry ∧ entry.kind = direction.entryKind ∧
      account.shares = direction.holding entry.quantity := by
  cases hholds with
  | cash hcash =>
      rw [hcash] at hposition
      cases direction <;> cases hposition
  | @entered opened entry hkind hopened hshares =>
      have hsame : opened = direction := by
        rw [hopened] at hposition
        cases opened <;> cases direction <;> first | rfl | cases hposition
      subst hsame
      exact ⟨entry, rfl, hkind, hshares⟩

theorem kind_of_mem (hholds : account.Holds held) :
    ∀ entry ∈ held, entry.kind = .buy ∨ entry.kind = .shortSell := by
  intro entry hentry
  cases hholds with
  | cash => cases hentry
  | @entered direction opened hkind =>
      cases hentry
      rw [hkind]
      exact direction.entryKind_isEntry

theorem isSome_iff (hholds : account.Holds held) : held.isSome = true ↔ account.position ≠ .cash := by
  cases hholds with
  | cash hcash => simp [hcash]
  | @entered direction _ _ hposition => cases direction <;> simp [hposition, Direction.position]

end Account.Holds

/-- The kinds of the trades that a single day can have. -/
inductive Trade.Kind.OneDay : List Trade.Kind → Prop
  | idle : OneDay []
  | single (kind : Trade.Kind) : OneDay [kind]
  | longReversal : OneDay [.sell, .shortSell]
  | shortReversal : OneDay [.coverShort, .buy]

/-! ### Turns -/

namespace Turn

/-- The turn enters a position, or it makes no trade and stays in cash. -/
def Enters (direction : Direction) (turn : Turn α) : Prop :=
  ∃ entered : Option (Trade α), turn.trades = entered.toList ∧ turn.account.Holds entered ∧
    ∀ entry ∈ entered, entry.kind = direction.entryKind

/-- The turn makes one trade, which closes the entry. -/
def Exits (direction : Direction) (entry : Trade α) (turn : Turn α) : Prop :=
  turn.account.position = .cash ∧ ∃ exit, turn.trades = [exit] ∧ Pair.Closed ⟨direction, entry, exit⟩

/-- With the entry that was held before, the trades are pairs and the entry that is held now. -/
structure Orderly (held : Option (Trade α)) (turn : Turn α) : Prop where
  pairs : ∃ (pairs : List (Pair α)) (left : Option (Trade α)),
    held.toList ++ turn.trades = pairs.flatMap Pair.trades ++ left.toList ∧
      (∀ pair ∈ pairs, pair.Closed) ∧ turn.account.Holds left
  kinds : Trade.Kind.OneDay (turn.trades.map Trade.kind)

variable {turn : Turn α} {direction other : Direction} {entry : Trade α}

theorem Enters.of_trade {account : Account α} {trade : Trade α}
    (hkind : trade.kind = direction.entryKind) (hposition : account.position = direction.position)
    (hshares : account.shares = direction.holding trade.quantity) :
    (⟨account, [trade]⟩ : Turn α).Enters direction := by
  refine ⟨some trade, rfl, .entered hkind hposition hshares, ?_⟩
  intro entry hentry
  cases hentry
  exact hkind

theorem Enters.orderly (henters : turn.Enters direction) : turn.Orderly Option.none := by
  obtain ⟨entered, htrades, hholds, _⟩ := henters
  refine ⟨⟨[], entered, htrades, by simp, hholds⟩, ?_⟩
  rw [htrades]
  cases entered with
  | none => exact .idle
  | some entry => exact .single entry.kind

theorem Exits.orderly (hexits : turn.Exits direction entry) : turn.Orderly (some entry) := by
  obtain ⟨hcash, exit, htrades, hclosed⟩ := hexits
  refine ⟨⟨[⟨direction, entry, exit⟩], Option.none, ?_, by simpa using hclosed, .cash hcash⟩, ?_⟩
  · rw [htrades]
    rfl
  · rw [htrades]
    exact .single exit.kind

theorem Exits.orderly_andThen {next : Account α → Turn α} (hexits : turn.Exits direction entry)
    (hnext : turn.account.position = .cash → (next turn.account).Enters other)
    (hreversal : Trade.Kind.OneDay [direction.exitKind, other.entryKind]) :
    (turn.andThen next).Orderly (some entry) := by
  obtain ⟨hcash, exit, htrades, hclosed⟩ := hexits
  obtain ⟨entered, hsecond, hholds, hkind⟩ := hnext hcash
  have hboth : (turn.andThen next).trades = exit :: entered.toList := by
    rw [Turn.andThen, htrades, hsecond]
    rfl
  refine ⟨⟨[⟨direction, entry, exit⟩], entered, ?_, by simpa using hclosed, hholds⟩, ?_⟩
  · rw [hboth]
    rfl
  · rw [hboth]
    cases entered with
    | none => exact .single exit.kind
    | some opened =>
        have hexit : exit.kind = direction.exitKind := hclosed.exit_kind
        simpa [hexit, hkind opened rfl] using hreversal

end Turn

namespace Account

variable {feeRate price : α} {date : Date} {account : Account α} {held : Option (Trade α)}
  {entry : Trade α}

theorem none_orderly (hholds : account.Holds held) : (Turn.none account).Orderly held :=
  ⟨⟨[], held, by simp [Turn.none], by simp, hholds⟩, .idle⟩

theorem none_enters (hcash : account.position = .cash) (direction : Direction) :
    (Turn.none account).Enters direction :=
  ⟨none, rfl, .cash hcash, by simp⟩

theorem enterLong_enters (hcash : account.position = .cash) :
    (account.enterLong feeRate date price).Enters .long := by
  by_cases hcapital : account.capital ≤ 0
  · rw [enterLong_of_le hcapital]
    exact none_enters hcash .long
  · rw [enterLong_of_not_le hcapital]
    exact .of_trade rfl rfl rfl

theorem enterLongWithFee_enters (hcash : account.position = .cash) :
    (account.enterLongWithFee feeRate date price).Enters .long := by
  by_cases hcapital : account.capital ≤ 0
  · rw [enterLongWithFee_of_le hcapital]
    exact none_enters hcash .long
  · rw [enterLongWithFee_of_not_le hcapital]
    exact .of_trade rfl rfl rfl

theorem enterShort_enters (hcash : account.position = .cash) :
    (account.enterShort feeRate date price).Enters .short := by
  by_cases hvalue : account.value price ≤ 0
  · rw [enterShort_of_le hvalue]
    exact none_enters hcash .short
  · rw [enterShort_of_not_le hvalue]
    exact .of_trade rfl rfl rfl

theorem exitLong_exits (hkind : entry.kind = Direction.long.entryKind)
    (hshares : account.shares = Direction.long.holding entry.quantity) (hdate : entry.date < date) :
    (account.exitLong feeRate date price).Exits .long entry :=
  ⟨rfl, _, rfl, hkind, rfl, hshares, hdate⟩

theorem coverShort_exits (hkind : entry.kind = Direction.short.entryKind)
    (hshares : account.shares = Direction.short.holding entry.quantity) (hdate : entry.date < date) :
    (account.coverShort feeRate date price).Exits .short entry :=
  ⟨rfl, _, rfl, hkind, rfl, congrArg Scalar.magnitude hshares, hdate⟩

/-- By cases on the position and the target. What is held was entered on an earlier day, so a pair
never closes on the day on which it was opened. -/
theorem turnTo_orderly (target : Position) (convention : FeeConvention) (hholds : account.Holds held)
    (hearlier : ∀ entry ∈ held, entry.date < date) :
    (account.turnTo target convention feeRate date price).Orderly held := by
  cases hposition : account.position with
  | long =>
      obtain ⟨entry, rfl, hkind, hshares⟩ := hholds.exists_entry .long hposition
      have hexits : (account.exitLong feeRate date price).Exits .long entry :=
        exitLong_exits hkind hshares (hearlier entry rfl)
      cases target with
      | long => simpa only [turnTo, hposition] using none_orderly hholds
      | cash => simpa only [turnTo, hposition] using hexits.orderly
      | short =>
          simpa only [turnTo, hposition] using hexits.orderly_andThen enterShort_enters .longReversal
  | cash =>
      obtain rfl := hholds.eq_none hposition
      cases target with
      | long => simpa only [turnTo, hposition] using (enterLong_enters hposition).orderly
      | cash => simpa only [turnTo, hposition] using none_orderly hholds
      | short => simpa only [turnTo, hposition] using (enterShort_enters hposition).orderly
  | short =>
      obtain ⟨entry, rfl, hkind, hshares⟩ := hholds.exists_entry .short hposition
      have hexits : (account.coverShort feeRate date price).Exits .short entry :=
        coverShort_exits hkind hshares (hearlier entry rfl)
      cases target with
      | long =>
          cases convention with
          | absorbed =>
              simpa only [turnTo, hposition] using hexits.orderly_andThen enterLong_enters .shortReversal
          | legacy =>
              simpa only [turnTo, hposition] using
                hexits.orderly_andThen enterLongWithFee_enters .shortReversal
      | cash => simpa only [turnTo, hposition] using hexits.orderly
      | short => simpa only [turnTo, hposition] using none_orderly hholds

/-- What is sold short is worth the account, which is not without value. -/
theorem exists_value_of_shortSell (target : Position) (convention : FeeConvention) {trade : Trade α}
    (hmem : trade ∈ (account.turnTo target convention feeRate date price).trades)
    (hkind : trade.kind = .shortSell) : ∃ value : α, ¬value ≤ 0 ∧ trade.quantity = value / price := by
  suffices hshorts : ∀ trade ∈ (account.turnTo target convention feeRate date price).trades,
      trade.kind = .shortSell → ∃ value : α, ¬value ≤ 0 ∧ trade.quantity = value / price from
    hshorts trade hmem hkind
  refine turnTo_induction
    (motive := fun _ turn => ∀ trade ∈ turn.trades,
      trade.kind = .shortSell → ∃ value : α, ¬value ≤ 0 ∧ trade.quantity = value / price)
    ?stay ?enterLong ?enterLongWithFee ?enterShort ?exitLong ?coverShort ?andThen account
  case stay => simp [Turn.none]
  case enterLong =>
    intro account _
    by_cases hcapital : account.capital ≤ 0
    · simp [enterLong_of_le hcapital, Turn.none]
    · simp [enterLong_of_not_le hcapital, tradeTo]
  case enterLongWithFee =>
    intro account _ _
    by_cases hcapital : account.capital ≤ 0
    · simp [enterLongWithFee_of_le hcapital, Turn.none]
    · simp [enterLongWithFee_of_not_le hcapital, tradeTo]
  case enterShort =>
    intro account _
    by_cases hvalue : account.value price ≤ 0
    · simp [enterShort_of_le hvalue, Turn.none]
    · intro trade hmem _
      rw [enterShort_of_not_le hvalue] at hmem
      rw [List.mem_singleton.mp hmem]
      exact ⟨_, hvalue, rfl⟩
  case exitLong => simp [exitLong, tradeTo]
  case coverShort => simp [coverShort, tradeTo]
  case andThen =>
    intro account turn next hturn hnext trade hmem
    rcases List.mem_append.mp hmem with hfirst | hsecond
    · exact hturn trade hfirst
    · exact hnext trade hsecond

end Account

/-! ### Runs -/

namespace Simulation

variable {terms : Terms α} {signal : Series Position} {bars early late : List (Bar α)} {bar : Bar α}

/-- What is held was entered on one of the earlier days. -/
theorem turnOn_orderly {pairs : List (Pair α)} {held : Option (Trade α)}
    (htrades : (outcome terms early signal).trades = pairs.flatMap Pair.trades ++ held.toList)
    (hholds : (accountAfter terms signal early).Holds held)
    (hdates : ∀ other ∈ early, other.date < bar.date) :
    (turnOn terms signal (accountAfter terms signal early) bar).Orderly held := by
  refine Account.turnTo_orderly _ _ hholds fun entry hentry => ?_
  have hmem : entry ∈ (outcome terms early signal).trades := by
    rw [htrades]
    exact List.mem_append_right _ (Option.mem_toList.mpr hentry)
  obtain ⟨other, hother, hdate⟩ := exists_bar_of_mem_trades hmem
  rw [hdate]
  exact hdates other hother

omit [Scalar α] in
theorem dates_lt_of_ascending (hascending : ((early ++ bar :: late).map Bar.date).Pairwise (· < ·)) :
    (early.map Bar.date).Pairwise (· < ·) ∧ ∀ other ∈ early, other.date < bar.date := by
  rw [List.map_append, List.pairwise_append] at hascending
  obtain ⟨hearly, _, hlast⟩ := hascending
  exact ⟨hearly, fun other hother => hlast _ (List.mem_map_of_mem hother) bar.date (by simp)⟩

/-- The trades of the days so far are pairs and the entry that the account holds. -/
theorem exists_pairs (terms : Terms α) (signal : Series Position)
    (hascending : (bars.map Bar.date).Pairwise (· < ·)) :
    ∃ (pairs : List (Pair α)) (held : Option (Trade α)),
      (outcome terms bars signal).trades = pairs.flatMap Pair.trades ++ held.toList ∧
        (∀ pair ∈ pairs, pair.Closed) ∧ (accountAfter terms signal bars).Holds held := by
  induction bars using List.reverseRecOn with
  | nil => exact ⟨[], none, rfl, by simp, .cash rfl⟩
  | append_singleton bars bar ih =>
      obtain ⟨hbefore, hdates⟩ := dates_lt_of_ascending hascending
      obtain ⟨pairs, held, htrades, hclosed, hholds⟩ := ih hbefore
      obtain ⟨later, left, hlater, hlaterClosed, hleft⟩ := (turnOn_orderly htrades hholds hdates).pairs
      refine ⟨pairs ++ later, left, ?_, List.forall_mem_append.mpr ⟨hclosed, hlaterClosed⟩, ?_⟩
      · rw [trades_outcome_concat, htrades, List.append_assoc, hlater, List.flatMap_append,
          List.append_assoc]
      · rw [accountAfter_concat]
        exact hleft

/-- On a date that is not a day of the run nothing is traded. -/
theorem oneDay_filter_trades (hascending : (bars.map Bar.date).Pairwise (· < ·)) (date : Date) :
    Trade.Kind.OneDay
      (((outcome terms bars signal).trades.filter fun trade => trade.date = date).map Trade.kind) := by
  by_cases hday : ∃ bar ∈ bars, bar.date = date
  · obtain ⟨bar, hbar, rfl⟩ := hday
    obtain ⟨early, late, rfl⟩ := List.append_of_mem hbar
    obtain ⟨hearly, hdates⟩ := dates_lt_of_ascending hascending
    obtain ⟨pairs, held, htrades, _, hholds⟩ := exists_pairs terms signal hearly
    rw [filter_trades_eq_turnOn hascending]
    exact (turnOn_orderly htrades hholds hdates).kinds
  · have hnone : ((outcome terms bars signal).trades.filter fun trade => trade.date = date) = [] := by
      refine List.filter_eq_nil_iff.mpr fun trade hmem hdate => ?_
      obtain ⟨bar, hbar, hsame⟩ := exists_bar_of_mem_trades hmem
      exact hday ⟨bar, hbar, hsame.symm.trans (of_decide_eq_true hdate)⟩
    rw [hnone]
    exact .idle

theorem trades_ordered (hascending : (bars.map Bar.date).Pairwise (· < ·)) :
    ((outcome terms bars signal).trades.map Trade.date).Pairwise (· ≤ ·) := by
  induction bars using List.reverseRecOn with
  | nil => exact .nil
  | append_singleton bars bar ih =>
      obtain ⟨hbefore, hdates⟩ := dates_lt_of_ascending hascending
      rw [trades_outcome_concat, List.map_append, List.pairwise_append]
      refine ⟨ih hbefore, ?_, ?_⟩
      · have htoday : ∀ date ∈ (turnOn terms signal (accountAfter terms signal bars) bar).trades.map
            Trade.date, date = bar.date := by
          refine List.forall_mem_map.mpr fun trade htrade => Account.date_of_mem_turnTo htrade
        refine List.pairwise_of_forall_mem_list fun first hfirst second hsecond => ?_
        rw [htoday first hfirst, htoday second hsecond]
      · intro first hfirst second hsecond
        obtain ⟨trade, htrade, rfl⟩ := List.mem_map.mp hfirst
        obtain ⟨today, htoday, rfl⟩ := List.mem_map.mp hsecond
        obtain ⟨other, hother, hdate⟩ := exists_bar_of_mem_trades htrade
        rw [hdate, Account.date_of_mem_turnTo htoday]
        exact (hdates other hother).le

theorem exists_value_of_mem_trades {trade : Trade α}
    (hmem : trade ∈ (outcome terms bars signal).trades) (hkind : trade.kind = .shortSell) :
    ∃ bar ∈ bars, ∃ value : α, ¬value ≤ 0 ∧ trade.quantity = value / bar.close := by
  induction bars using List.reverseRecOn with
  | nil => exact absurd hmem List.not_mem_nil
  | append_singleton bars bar ih =>
      rw [trades_outcome_concat, List.mem_append] at hmem
      rcases hmem with hearlier | htoday
      · obtain ⟨other, hother, hvalue⟩ := ih hearlier
        exact ⟨other, List.mem_append_left _ hother, hvalue⟩
      · exact ⟨bar, by simp, Account.exists_value_of_shortSell _ _ htoday hkind⟩

/-- The shape of what a run over some bars leaves behind. -/
structure Alternates (bars : List (Bar α)) (pairs : List (Pair α)) (held : Option (Trade α))
    (result : Outcome α) : Prop where
  trades_eq : result.trades = pairs.flatMap Pair.trades ++ held.toList
  closed : ∀ pair ∈ pairs, pair.Closed
  quantity_same : ∀ pair ∈ pairs, Scalar.Same pair.exit.quantity pair.entry.quantity
  held_isEntry : ∀ entry ∈ held, entry.kind = .buy ∨ entry.kind = .shortSell
  held_iff : held.isSome = true ↔
    ∃ point, result.equity.getLast? = some point ∧ point.position ≠ .cash
  roundTrips_eq : result.roundTrips = pairs.map Pair.roundTrip
  roundTrip_dates : ∀ roundTrip ∈ result.roundTrips, roundTrip.entryDate < roundTrip.exitDate
  dated : ∀ trade ∈ result.trades, ∃ bar ∈ bars, trade.date = bar.date
  ordered : (result.trades.map Trade.date).Pairwise (· ≤ ·)
  daily : ∀ date, Trade.Kind.OneDay
    ((result.trades.filter fun trade => trade.date = date).map Trade.kind)

theorem held_iff_getLast? {held : Option (Trade α)} (hbars : bars ≠ [])
    (hholds : (accountAfter terms signal bars).Holds held) :
    held.isSome = true ↔
      ∃ point, (outcome terms bars signal).equity.getLast? = some point ∧ point.position ≠ .cash := by
  obtain ⟨before, bar, rfl⟩ := List.eq_nil_or_concat bars |>.resolve_left hbars
  rw [List.concat_eq_append] at hholds ⊢
  rw [equity_outcome_concat, List.getLast?_concat, hholds.isSome_iff]
  simp [pointAfter, EquityPoint.after]

/-- A short position is opened with a quotient, and its cover trades the same quotient without a sign. -/
theorem quantity_same [Scalar.KeepsQuotients α] (hbars : Tradable bars signal) {pair : Pair α}
    (hclosed : pair.Closed) (hmem : pair.entry ∈ (outcome terms bars signal).trades) :
    Scalar.Same pair.exit.quantity pair.entry.quantity := by
  obtain ⟨direction, entry, exit⟩ := pair
  obtain ⟨hentry, _, hquantity, _⟩ := hclosed
  cases direction with
  | long => exact .inl hquantity
  | short =>
      have hreleased : exit.quantity = Scalar.magnitude (-entry.quantity) := hquantity
      obtain ⟨bar, hbar, value, hvalue, hquotient⟩ := exists_value_of_mem_trades hmem hentry
      have hclose : (0 : α) < bar.close := by
        have hvalid := hbars.validClose bar hbar
        simp only [Bar.hasValidClose, Bool.and_eq_true, decide_eq_true_eq] at hvalid
        exact hvalid.2
      rw [hreleased, hquotient]
      exact Scalar.KeepsQuotients.magnitude_neg_div value bar.close hvalue hclose

end Simulation

end Backtest
