import Backtest.Ledger.RoundTrip

/-!
# Matching trades one by one

What a trade does to the matching depends on the entries that wait before it and on nothing else. So
the round trips of a list of trades are those of its first part, followed by those that the second
part makes with the entries that the first one leaves.
-/

namespace Backtest

/-- The entries that wait for their exits, the oldest first. -/
structure Waiting (α : Type) where
  longs : List (Trade α)
  shorts : List (Trade α)

namespace Waiting

variable {α β : Type}

def none : Waiting α := ⟨[], []⟩

def map (f : Trade α → Trade β) (waiting : Waiting α) : Waiting β :=
  ⟨waiting.longs.map f, waiting.shorts.map f⟩

def take (waiting : Waiting α) (trade : Trade α) : Waiting α :=
  match trade.kind with
  | .buy => { waiting with longs := waiting.longs ++ [trade] }
  | .sell => { waiting with longs := waiting.longs.tail }
  | .shortSell => { waiting with shorts := waiting.shorts ++ [trade] }
  | .coverShort => { waiting with shorts := waiting.shorts.tail }

/-- Which entries wait depends on nothing but the kinds of the trades. -/
theorem take_map {f : Trade α → Trade β} (hkind : ∀ trade, (f trade).kind = trade.kind)
    (waiting : Waiting α) (trade : Trade α) :
    (waiting.map f).take (f trade) = (waiting.take trade).map f := by
  simp only [take, hkind]
  cases trade.kind <;> simp [map]

def after (waiting : Waiting α) (trades : List (Trade α)) : Waiting α :=
  trades.foldl take waiting

theorem after_append (waiting : Waiting α) (first second : List (Trade α)) :
    waiting.after (first ++ second) = (waiting.after first).after second :=
  List.foldl_append

variable [Scalar α]

/-- The round trip that a trade ends, if it ends one. -/
def closed (waiting : Waiting α) (trade : Trade α) : List (RoundTrip α) :=
  match trade.kind with
  | .buy | .shortSell => []
  | .sell => (waiting.longs.head?.map fun entry => RoundTrip.close .long entry trade).toList
  | .coverShort => (waiting.shorts.head?.map fun entry => RoundTrip.close .short entry trade).toList

/-- The round trips that some trades end. -/
def matched (waiting : Waiting α) (trades : List (Trade α)) : List (RoundTrip α) :=
  RoundTrip.matchFrom waiting.longs waiting.shorts trades

@[simp]
theorem matched_nil (waiting : Waiting α) : waiting.matched [] = [] := rfl

theorem matched_cons (waiting : Waiting α) (trade : Trade α) (rest : List (Trade α)) :
    waiting.matched (trade :: rest) = waiting.closed trade ++ (waiting.take trade).matched rest := by
  obtain ⟨longs, shorts⟩ := waiting
  cases hkind : trade.kind with
  | buy => simp [matched, RoundTrip.matchFrom, closed, take, hkind]
  | sell => cases longs <;> simp [matched, RoundTrip.matchFrom, closed, take, hkind]
  | shortSell => simp [matched, RoundTrip.matchFrom, closed, take, hkind]
  | coverShort => cases shorts <;> simp [matched, RoundTrip.matchFrom, closed, take, hkind]

theorem matched_append (waiting : Waiting α) (first second : List (Trade α)) :
    waiting.matched (first ++ second) =
      waiting.matched first ++ (waiting.after first).matched second := by
  induction first generalizing waiting with
  | nil => rfl
  | cons trade rest ih =>
      rw [List.cons_append, matched_cons, matched_cons, ih, List.append_assoc]
      rfl

/-- An entry ends no round trip. -/
theorem matched_entry {waiting : Waiting α} {trade : Trade α}
    (hentry : trade.kind = .buy ∨ trade.kind = .shortSell) : waiting.matched [trade] = [] := by
  rcases hentry with hkind | hkind <;> simp [matched_cons, closed, hkind]

theorem exitDate_of_mem_closed {waiting : Waiting α} {trade : Trade α} {trip : RoundTrip α}
    (hmem : trip ∈ waiting.closed trade) : trip.exitDate = trade.date := by
  cases hkind : trade.kind with
  | buy => simp [closed, hkind] at hmem
  | sell =>
      simp only [closed, hkind, Option.mem_toList, Option.map_eq_some_iff] at hmem
      obtain ⟨entry, _, rfl⟩ := hmem
      rfl
  | shortSell => simp [closed, hkind] at hmem
  | coverShort =>
      simp only [closed, hkind, Option.mem_toList, Option.map_eq_some_iff] at hmem
      obtain ⟨entry, _, rfl⟩ := hmem
      rfl

/-- Every round trip ends on the date of one of the trades. -/
theorem exists_trade_of_mem_matched {waiting : Waiting α} {trades : List (Trade α)}
    {trip : RoundTrip α} (hmem : trip ∈ waiting.matched trades) :
    ∃ trade ∈ trades, trip.exitDate = trade.date := by
  induction trades generalizing waiting with
  | nil => exact absurd hmem List.not_mem_nil
  | cons trade rest ih =>
      rw [matched_cons, List.mem_append] at hmem
      rcases hmem with hclosed | hlater
      · exact ⟨trade, List.mem_cons_self, exitDate_of_mem_closed hclosed⟩
      · obtain ⟨exit, hexit, hdate⟩ := ih hlater
        exact ⟨exit, List.mem_cons_of_mem trade hexit, hdate⟩

end Waiting

theorem RoundTrip.ofTrades_append {α : Type} [Scalar α] (first second : List (Trade α)) :
    RoundTrip.ofTrades (first ++ second) =
      RoundTrip.ofTrades first ++ (Waiting.none.after first).matched second :=
  Waiting.matched_append .none first second

end Backtest
