import Backtest.Proofs.Ledger.Closings
import Backtest.Scalar.Rational

/-!
# First in, first out

An account that trades by itself opens one position at a time, but a ledger may hold any trades in any
order. On all of them the two queues of the matching count: what waits in a direction is its entries
without those that are closed. So the places of the matched trades follow from the kinds of the trades,
and the two directions have nothing to do with each other.
-/

namespace Backtest

variable {α : Type} {closings : List Closing}

namespace Waiting

/-- The entries of a direction that wait. -/
def queue (waiting : Waiting α) : Direction → List (Trade α)
  | .long => waiting.longs
  | .short => waiting.shorts

variable {waiting other : Waiting α} {trade : Trade α} {direction : Direction}

theorem queue_take_entry (hkind : trade.kind = direction.entryKind) (side : Direction) :
    (waiting.take trade).queue side =
      waiting.queue side ++ if side = direction then [trade] else [] := by
  cases direction <;> cases side <;>
    simp_all [Direction.entryKind, take, queue]

theorem queue_take_exit (hkind : trade.kind = direction.exitKind) (side : Direction) :
    (waiting.take trade).queue side =
      if side = direction then (waiting.queue side).tail else waiting.queue side := by
  cases direction <;> cases side <;>
    simp_all [Direction.exitKind, take, queue]

variable [Scalar α]

theorem closed_entry (hkind : trade.kind = direction.entryKind) : waiting.closed trade = [] := by
  cases direction <;> simp_all [Direction.entryKind, closed]

theorem closed_exit (hkind : trade.kind = direction.exitKind) :
    waiting.closed trade =
      ((waiting.queue direction).head?.map fun entry => .close direction entry trade).toList := by
  cases direction <;> simp_all [Direction.exitKind, closed, queue]

end Waiting

/-- The entries of a direction in their order. -/
def Direction.entries (direction : Direction) (trades : List (Trade α)) : List (Trade α) :=
  trades.filter fun trade => trade.kind = direction.entryKind

theorem getElem?_idxOfNth (trades : List (Trade α)) (direction : Direction) (rank : Nat) :
    trades[(trades.map Trade.kind).idxOfNth direction.entryKind rank]? =
      (direction.entries trades)[rank]? := by
  unfold Direction.entries
  induction trades generalizing rank with
  | nil => simp
  | cons first rest ih =>
      by_cases hfirst : first.kind = direction.entryKind <;> cases rank <;>
        simp [List.idxOfNth_cons, hfirst, ih]

theorem length_entries (trades : List (Trade α)) (direction : Direction) :
    (direction.entries trades).length = (trades.map Trade.kind).count direction.entryKind := by
  rw [Direction.entries, ← List.countP_eq_length_filter, List.count, List.countP_map]
  congr 1

theorem entries_concat_entry {trade : Trade α} {direction : Direction}
    (hkind : trade.kind = direction.entryKind) (trades : List (Trade α)) (side : Direction) :
    side.entries (trades ++ [trade]) =
      side.entries trades ++ if side = direction then [trade] else [] := by
  by_cases hside : side = direction
  · simp [Direction.entries, hkind, hside]
  · have hother : direction.entryKind ≠ side.entryKind := fun hsame =>
      hside (Direction.entryKind_injective hsame).symm
    simp [Direction.entries, hkind, hside, hother]

theorem entries_concat_exit {trade : Trade α} {direction : Direction}
    (hkind : trade.kind = direction.exitKind) (trades : List (Trade α)) (side : Direction) :
    side.entries (trades ++ [trade]) = side.entries trades := by
  simp [Direction.entries, hkind, (Direction.entryKind_ne_exitKind side direction).symm]

variable [Scalar α]

theorem Closing.Makes.append {trades : List (Trade α)} {closing : Closing} {trip : RoundTrip α}
    (hmakes : closing.Makes trades trip) (later : List (Trade α)) :
    closing.Makes (trades ++ later) trip := by
  obtain ⟨entry, exit, hentry, hexit, htrip⟩ := hmakes
  refine ⟨entry, exit, ?_, ?_, htrip⟩
  · rwa [List.getElem?_append_left (List.getElem?_eq_some_iff.mp hentry).1]
  · rwa [List.getElem?_append_left (List.getElem?_eq_some_iff.mp hexit).1]

/-- The closings among some trades make their round trips, and the entries that they leave wait. -/
structure Matching (trades : List (Trade α)) (closings : List Closing) : Prop where
  fifo : Fifo (trades.map Trade.kind) closings
  makes : List.Forall₂ (Closing.Makes trades) closings (RoundTrip.ofTrades trades)
  count_le : ∀ direction, Closing.countBefore closings direction trades.length ≤
    (direction.entries trades).length
  queue_eq : ∀ direction, (Waiting.none.after trades).queue direction =
    (direction.entries trades).drop (Closing.countBefore closings direction trades.length)

namespace Matching

variable {trades : List (Trade α)} {trade : Trade α}

theorem countBefore_succ (hmatching : Matching trades closings) (direction : Direction) :
    Closing.countBefore closings direction (trades.length + 1) =
      Closing.countBefore closings direction trades.length := by
  apply List.countP_congr
  intro closing hmem
  have hlt := hmatching.fifo.exit_lt_length hmem
  rw [List.length_map] at hlt
  simp [hlt, hlt.trans (Nat.lt_succ_self _)]

omit [Scalar α] in
theorem after_concat (trades : List (Trade α)) (trade : Trade α) :
    Waiting.none.after (trades ++ [trade]) = (Waiting.none.after trades).take trade :=
  Waiting.after_append .none trades [trade]

theorem ofTrades_concat (trades : List (Trade α)) (trade : Trade α) :
    RoundTrip.ofTrades (trades ++ [trade]) =
      RoundTrip.ofTrades trades ++ (Waiting.none.after trades).closed trade := by
  rw [RoundTrip.ofTrades_append, Waiting.matched_cons, Waiting.matched_nil, List.append_nil]

theorem enter (hmatching : Matching trades closings) {direction : Direction}
    (hkind : trade.kind = direction.entryKind) : Matching (trades ++ [trade]) closings where
  fifo := by
    rw [List.map_append]
    refine hmatching.fifo.skip fun other hexit => ?_
    exact absurd (hkind.symm.trans hexit) (Direction.entryKind_ne_exitKind direction other)
  makes := by
    rw [ofTrades_concat, Waiting.closed_entry hkind, List.append_nil]
    exact hmatching.makes.imp fun _ _ hmakes => hmakes.append [trade]
  count_le side := by
    rw [List.length_append, List.length_singleton, hmatching.countBefore_succ,
      entries_concat_entry hkind, List.length_append]
    exact (hmatching.count_le side).trans (Nat.le_add_right _ _)
  queue_eq side := by
    rw [after_concat, Waiting.queue_take_entry hkind, hmatching.queue_eq, List.length_append,
      List.length_singleton, hmatching.countBefore_succ, entries_concat_entry hkind,
      List.drop_append_of_le_length (hmatching.count_le side)]

theorem skip (hmatching : Matching trades closings) {direction : Direction}
    (hkind : trade.kind = direction.exitKind)
    (hnone : (Waiting.none.after trades).queue direction = []) :
    Matching (trades ++ [trade]) closings where
  fifo := by
    rw [List.map_append]
    refine hmatching.fifo.skip fun other hexit => ?_
    obtain rfl : direction = other := Direction.exitKind_injective (hkind.symm.trans hexit)
    rw [hmatching.queue_eq, List.drop_eq_nil_iff, length_entries] at hnone
    rwa [List.length_map]
  makes := by
    rw [ofTrades_concat, Waiting.closed_exit hkind, hnone]
    simpa using hmatching.makes.imp fun _ _ hmakes => hmakes.append [trade]
  count_le side := by
    rw [List.length_append, List.length_singleton, hmatching.countBefore_succ,
      entries_concat_exit hkind]
    exact hmatching.count_le side
  queue_eq side := by
    rw [after_concat, Waiting.queue_take_exit hkind, List.length_append, List.length_singleton,
      hmatching.countBefore_succ, entries_concat_exit hkind, ← hmatching.queue_eq]
    by_cases hside : side = direction
    · rw [if_pos hside, hside, hnone, List.tail_nil]
    · rw [if_neg hside]

theorem close (hmatching : Matching trades closings) {direction : Direction}
    (hkind : trade.kind = direction.exitKind) {entry : Trade α} {rest : List (Trade α)}
    (hqueue : (Waiting.none.after trades).queue direction = entry :: rest) :
    Matching (trades ++ [trade])
      (closings ++ [.next (trades.map Trade.kind) closings direction]) := by
  have hlength : (trades.map Trade.kind).length = trades.length := List.length_map _
  have hentry : (direction.entries trades)[Closing.countBefore closings direction trades.length]? =
      some entry := by
    rw [← List.head?_drop, ← hmatching.queue_eq, hqueue, List.head?_cons]
  have hleft := (List.getElem?_eq_some_iff.mp hentry).1
  have hcount : ∀ side,
      Closing.countBefore (closings ++ [.next (trades.map Trade.kind) closings direction]) side
          (trades ++ [trade]).length =
        Closing.countBefore closings side trades.length + if side = direction then 1 else 0 := by
    intro side
    rw [List.length_append, List.length_singleton, Closing.countBefore_concat,
      hmatching.countBefore_succ]
    simp [Closing.next, eq_comm]
  constructor
  case fifo =>
    rw [List.map_append, List.map_singleton, hkind]
    apply hmatching.fifo.close
    rwa [hlength, ← length_entries]
  case makes =>
    rw [ofTrades_concat, Waiting.closed_exit hkind, hqueue]
    refine List.rel_append (hmatching.makes.imp fun _ _ hmakes => hmakes.append [trade]) ?_
    refine .cons ⟨entry, trade, ?_, ?_, rfl⟩ .nil
    · rw [← getElem?_idxOfNth] at hentry
      rw [Closing.next, hlength]
      rwa [List.getElem?_append_left (List.getElem?_eq_some_iff.mp hentry).1]
    · rw [Closing.next, hlength]
      exact List.getElem?_concat_length
  case count_le =>
    intro side
    rw [hcount, entries_concat_exit hkind]
    by_cases hside : side = direction
    · rw [if_pos hside, hside]
      exact hleft
    · rw [if_neg hside]
      exact hmatching.count_le side
  case queue_eq =>
    intro side
    rw [after_concat, Waiting.queue_take_exit hkind, hcount, entries_concat_exit hkind,
      hmatching.queue_eq]
    by_cases hside : side = direction
    · rw [if_pos hside, if_pos hside, List.tail_drop]
    · rw [if_neg hside, if_neg hside, Nat.add_zero]

end Matching

theorem exists_matching (trades : List (Trade α)) : ∃ closings, Matching trades closings := by
  induction trades using List.reverseRecOn with
  | nil =>
      refine ⟨[], .nil, .nil, fun direction => Nat.zero_le _, fun direction => ?_⟩
      cases direction <;> rfl
  | append_singleton trades trade ih =>
      obtain ⟨closings, hmatching⟩ := ih
      obtain ⟨direction, hentry | hexit⟩ := Direction.exists_kind trade.kind
      · exact ⟨closings, hmatching.enter hentry⟩
      · cases hqueue : (Waiting.none.after trades).queue direction with
        | nil => exact ⟨closings, hmatching.skip hexit hqueue⟩
        | cons entry rest => exact ⟨_, hmatching.close hexit hqueue⟩

/-! ### Each direction by itself -/

namespace Waiting

variable {waiting other : Waiting α} {trade : Trade α} {direction : Direction}

omit [Scalar α] in
theorem queue_take_congr (hqueue : waiting.queue direction = other.queue direction) (trade : Trade α) :
    (waiting.take trade).queue direction = (other.take trade).queue direction := by
  obtain ⟨side, hentry | hexit⟩ := Direction.exists_kind trade.kind
  · rw [queue_take_entry hentry, queue_take_entry hentry, hqueue]
  · rw [queue_take_exit hexit, queue_take_exit hexit, hqueue]

omit [Scalar α] in
theorem queue_take_of_not_concerns (hother : ¬direction.concerns trade = true) :
    (waiting.take trade).queue direction = waiting.queue direction := by
  obtain ⟨side, hentry | hexit⟩ := Direction.exists_kind trade.kind
  · rw [queue_take_entry hentry, if_neg fun hsame => hother ((Direction.concerns_entry hentry).mpr hsame),
      List.append_nil]
  · rw [queue_take_exit hexit, if_neg fun hsame => hother ((Direction.concerns_exit hexit).mpr hsame)]

theorem direction_of_mem_closed {side : Direction} (hkind : trade.kind = side.exitKind)
    {trip : RoundTrip α} (hmem : trip ∈ waiting.closed trade) : trip.direction = side := by
  rw [closed_exit hkind, Option.mem_toList, Option.map_eq_some_iff] at hmem
  obtain ⟨entry, _, rfl⟩ := hmem
  rfl

theorem filter_closed (hqueue : waiting.queue direction = other.queue direction) (trade : Trade α) :
    ((waiting.closed trade).filter fun trip => trip.direction = direction) =
      if direction.concerns trade then other.closed trade else [] := by
  obtain ⟨side, hentry | hexit⟩ := Direction.exists_kind trade.kind
  · rw [closed_entry hentry, closed_entry hentry, List.filter_nil, ite_self]
  · rw [if_congr (Direction.concerns_exit hexit) rfl rfl]
    split_ifs with hside
    · subst hside
      have hclosed : waiting.closed trade = other.closed trade := by
        rw [closed_exit hexit, closed_exit hexit, hqueue]
      rw [← hclosed, List.filter_eq_self]
      exact fun trip hmem => decide_eq_true (direction_of_mem_closed hexit hmem)
    · rw [List.filter_eq_nil_iff]
      intro trip hmem hsame
      exact hside ((of_decide_eq_true hsame).symm.trans (direction_of_mem_closed hexit hmem))

/-- What waits in the other direction makes no difference. -/
theorem filter_matched (hqueue : waiting.queue direction = other.queue direction)
    (trades : List (Trade α)) :
    ((waiting.matched trades).filter fun trip => trip.direction = direction) =
      other.matched (trades.filter direction.concerns) := by
  induction trades generalizing waiting other with
  | nil => rfl
  | cons trade rest ih =>
      rw [matched_cons, List.filter_append, filter_closed hqueue]
      by_cases hconcerns : direction.concerns trade = true
      · rw [if_pos hconcerns, List.filter_cons_of_pos hconcerns, matched_cons,
          ih (queue_take_congr hqueue trade)]
      · rw [if_neg hconcerns, List.filter_cons_of_neg hconcerns, List.nil_append]
        exact ih ((queue_take_of_not_concerns hconcerns).trans hqueue)

end Waiting

namespace RoundTrip

/-- The first exit comes too early, and the last one finds no purchase left. -/
example :
    let trade : Nat × Trade.Kind → Trade Rat := fun (day, kind) => ⟨⟨day⟩, kind, 1, 1, 1, 0, 0, .cash⟩
    (ofTrades (List.map trade [(0, .sell), (1, .buy), (2, .shortSell), (3, .buy), (4, .sell),
      (5, .coverShort), (6, .sell), (7, .sell)])).map (fun trip => (trip.entryDate, trip.exitDate)) =
      [(⟨1⟩, ⟨4⟩), (⟨2⟩, ⟨5⟩), (⟨3⟩, ⟨6⟩)] := by decide

end RoundTrip

end Backtest
