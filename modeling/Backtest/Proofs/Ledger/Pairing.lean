import Backtest.Proofs.Ledger.Matching

/-!
# Trades in pairs

An account holds one position at a time, so the exit of a position comes before the next entry. On
trades of this form the two queues of the matching never hold more than one entry, and it gives the
round trips of neighbouring trades.
-/

namespace Backtest

variable {α : Type}

namespace Direction

def entryKind : Direction → Trade.Kind
  | long => .buy
  | short => .shortSell

def exitKind : Direction → Trade.Kind
  | long => .sell
  | short => .coverShort

def position : Direction → Position
  | long => .long
  | short => .short

variable [Scalar α]

/-- The shares that an account holds after it has traded a quantity to enter. -/
def holding (direction : Direction) (quantity : α) : α :=
  match direction with
  | long => quantity
  | short => -quantity

/-- The quantity that trades these shares again. -/
def released (direction : Direction) (quantity : α) : α :=
  match direction with
  | long => quantity
  | short => Scalar.magnitude (-quantity)

theorem entryKind_isEntry (direction : Direction) :
    direction.entryKind = .buy ∨ direction.entryKind = .shortSell := by
  cases direction <;> simp [entryKind]

end Direction

/-- An entry and the trade after it. -/
structure Pair (α : Type) where
  direction : Direction
  entry : Trade α
  exit : Trade α

namespace Pair

def trades (pair : Pair α) : List (Trade α) := [pair.entry, pair.exit]

variable [Scalar α]

def roundTrip (pair : Pair α) : RoundTrip α := .close pair.direction pair.entry pair.exit

/-- The second trade gives up, on a later day, what the first one has entered. -/
structure Closed (pair : Pair α) : Prop where
  entry_kind : pair.entry.kind = pair.direction.entryKind
  exit_kind : pair.exit.kind = pair.direction.exitKind
  quantity_eq : pair.exit.quantity = pair.direction.released pair.entry.quantity
  date_lt : pair.entry.date < pair.exit.date

theorem Closed.roundTrip_dates {pair : Pair α} (hclosed : pair.Closed) :
    pair.roundTrip.entryDate < pair.roundTrip.exitDate :=
  hclosed.date_lt

end Pair

namespace Waiting

variable [Scalar α]

/-- Nothing waits after a pair, so the pairs that follow it are matched in the same way. -/
theorem matched_pair {pair : Pair α} (hclosed : pair.Closed) (rest : List (Trade α)) :
    Waiting.none.matched (pair.trades ++ rest) = pair.roundTrip :: Waiting.none.matched rest := by
  obtain ⟨direction, entry, exit⟩ := pair
  obtain ⟨hentry, hexit, _, _⟩ := hclosed
  cases direction with
  | long =>
      have hbuy : entry.kind = .buy := hentry
      have hsell : exit.kind = .sell := hexit
      simp [Pair.trades, Pair.roundTrip, matched_cons, closed, take, Waiting.none, hbuy, hsell]
  | short =>
      have hshort : entry.kind = .shortSell := hentry
      have hcover : exit.kind = .coverShort := hexit
      simp [Pair.trades, Pair.roundTrip, matched_cons, closed, take, Waiting.none, hshort, hcover]

end Waiting

/-- The round trips are the pairs. An entry without an exit at the end makes none. -/
theorem RoundTrip.ofTrades_pairs [Scalar α] {pairs : List (Pair α)} {waiting : Option (Trade α)}
    (hclosed : ∀ pair ∈ pairs, pair.Closed)
    (hwaiting : ∀ entry ∈ waiting, entry.kind = .buy ∨ entry.kind = .shortSell) :
    RoundTrip.ofTrades (pairs.flatMap Pair.trades ++ waiting.toList) = pairs.map Pair.roundTrip := by
  change Waiting.none.matched _ = _
  induction pairs with
  | nil =>
      cases waiting with
      | none => rfl
      | some entry => exact Waiting.matched_entry (hwaiting entry rfl)
  | cons pair rest ih =>
      obtain ⟨hpair, hrest⟩ := List.forall_mem_cons.mp hclosed
      rw [List.flatMap_cons, List.append_assoc, Waiting.matched_pair hpair, ih hrest, List.map_cons]

end Backtest
