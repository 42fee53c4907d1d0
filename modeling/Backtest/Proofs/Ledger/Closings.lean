import Mathlib.Data.List.Induction
import Mathlib.Data.List.Sort
import Backtest.Proofs.Ledger.Pairing

/-!
# Which exits close which entries

An exit closes an entry exactly if more entries of its direction stand before it than exits that have
closed one, and the exits that close an entry take the entries of their direction in turn. These counts
leave one matching only, whatever the trades are. It uses no trade twice and puts every entry before its
exit. One more trade adds a closing at the end or none.
-/

namespace Backtest

variable {α : Type}

namespace Direction

theorem entryKind_injective : Function.Injective entryKind := by
  intro first second hkind
  cases first <;> cases second <;> first | rfl | cases hkind

theorem exitKind_injective : Function.Injective exitKind := by
  intro first second hkind
  cases first <;> cases second <;> first | rfl | cases hkind

theorem entryKind_ne_exitKind (direction other : Direction) : direction.entryKind ≠ other.exitKind := by
  cases direction <;> cases other <;> simp [entryKind, exitKind]

theorem exists_kind (kind : Trade.Kind) :
    ∃ direction : Direction, kind = direction.entryKind ∨ kind = direction.exitKind := by
  cases kind with
  | buy => exact ⟨.long, .inl rfl⟩
  | sell => exact ⟨.long, .inr rfl⟩
  | shortSell => exact ⟨.short, .inl rfl⟩
  | coverShort => exact ⟨.short, .inr rfl⟩

/-- The trade enters or leaves a position of the direction. -/
def concerns (direction : Direction) (trade : Trade α) : Bool :=
  trade.kind = direction.entryKind || trade.kind = direction.exitKind

theorem concerns_entry {direction side : Direction} {trade : Trade α}
    (hkind : trade.kind = side.entryKind) : direction.concerns trade = true ↔ direction = side := by
  simp [concerns, hkind, entryKind_ne_exitKind, entryKind_injective.eq_iff, eq_comm]

theorem concerns_exit {direction side : Direction} {trade : Trade α}
    (hkind : trade.kind = side.exitKind) : direction.concerns trade = true ↔ direction = side := by
  simp [concerns, hkind, (entryKind_ne_exitKind _ _).symm, exitKind_injective.eq_iff, eq_comm]

end Direction

/-- An exit and the entry that it closes, by their places among the trades. -/
structure Closing where
  direction : Direction
  entry : Nat
  exit : Nat

namespace Closing

def places (closing : Closing) : List Nat := [closing.entry, closing.exit]

/-- How many exits of a direction before a place close an entry. -/
def countBefore (closings : List Closing) (direction : Direction) (place : Nat) : Nat :=
  closings.countP fun closing => closing.direction = direction ∧ closing.exit < place

/-- The next exit after some trades closes the first entry that is left of its direction. -/
def next (kinds : List Trade.Kind) (closings : List Closing) (direction : Direction) : Closing where
  direction
  entry := kinds.idxOfNth direction.entryKind (countBefore closings direction kinds.length)
  exit := kinds.length

/-- The round trip is that of the trades at the two places. -/
def Makes [Scalar α] (trades : List (Trade α)) (closing : Closing) (trip : RoundTrip α) : Prop :=
  ∃ entry exit, trades[closing.entry]? = some entry ∧ trades[closing.exit]? = some exit ∧
    trip = .close closing.direction entry exit

end Closing

/-- Which exits among some trades close an entry, and which one each of them closes. -/
structure Fifo (kinds : List Trade.Kind) (closings : List Closing) : Prop where
  exit_kind : ∀ closing ∈ closings, kinds[closing.exit]? = some closing.direction.exitKind
  exits_ascend : closings.Pairwise fun first second => first.exit < second.exit
  closes_iff : ∀ direction place, kinds[place]? = some (Direction.exitKind direction) →
    ((∃ closing ∈ closings, closing.exit = place) ↔
      Closing.countBefore closings direction place < kinds.countBefore direction.entryKind place)
  entry_eq : ∀ closing ∈ closings, closing.entry =
    kinds.idxOfNth closing.direction.entryKind
      (Closing.countBefore closings closing.direction closing.exit)

variable {kinds : List Trade.Kind} {closings : List Closing} {direction : Direction} {place : Nat}

namespace Closing

theorem countBefore_concat (closings : List Closing) (last : Closing) (direction : Direction)
    (place : Nat) :
    countBefore (closings ++ [last]) direction place = countBefore closings direction place +
      if last.direction = direction ∧ last.exit < place then 1 else 0 := by
  simp [countBefore, List.countP_append, List.countP_singleton]

theorem countBefore_eq_countP_filter (closings : List Closing) (direction : Direction) (place : Nat) :
    countBefore closings direction place =
      (closings.filter fun closing => closing.exit < place).countP fun closing =>
        closing.direction = direction := by
  simp [countBefore, List.countP_filter]

theorem countBefore_mono {later : Nat} (hle : place ≤ later) :
    countBefore closings direction place ≤ countBefore closings direction later := by
  apply List.countP_mono_left
  intro closing _ hbefore
  simp only [decide_eq_true_eq] at hbefore ⊢
  exact ⟨hbefore.1, by omega⟩

/-- The closing itself is one more before every later place. -/
theorem countBefore_lt_countBefore {closing : Closing} (hmem : closing ∈ closings)
    (hlt : closing.exit < place) :
    countBefore closings closing.direction closing.exit <
      countBefore closings closing.direction place := by
  obtain ⟨front, back, rfl⟩ := List.append_of_mem hmem
  have hfront : countBefore front closing.direction closing.exit ≤
      countBefore front closing.direction place := countBefore_mono hlt.le
  have hback : countBefore back closing.direction closing.exit ≤
      countBefore back closing.direction place := countBefore_mono hlt.le
  have hnew : countBefore (front ++ closing :: back) closing.direction place =
      countBefore front closing.direction place + (countBefore back closing.direction place + 1) := by
    simp [countBefore, hlt]
  have hold : countBefore (front ++ closing :: back) closing.direction closing.exit =
      countBefore front closing.direction closing.exit +
        countBefore back closing.direction closing.exit := by
    simp [countBefore]
  omega

end Closing

theorem idxOfNth_append_left {kind : Trade.Kind} {later : List Trade.Kind} {rank : Nat}
    (hrank : rank < kinds.count kind) : (kinds ++ later).idxOfNth kind rank = kinds.idxOfNth kind rank := by
  induction kinds generalizing rank with
  | nil => simp at hrank
  | cons first rest ih => grind

theorem countBefore_append_left {kind : Trade.Kind} {later : List Trade.Kind}
    (hplace : place ≤ kinds.length) :
    (kinds ++ later).countBefore kind place = kinds.countBefore kind place := by
  rw [List.countBefore_eq_count_take, List.countBefore_eq_count_take,
    List.take_append_of_le_length hplace]

theorem place_cases {kind last : Trade.Kind} (hkind : (kinds ++ [last])[place]? = some kind) :
    (place < kinds.length ∧ kinds[place]? = some kind) ∨ (place = kinds.length ∧ last = kind) := by
  rcases Nat.lt_trichotomy place kinds.length with hlt | rfl | hgt
  · rw [List.getElem?_append_left hlt] at hkind
    exact .inl ⟨hlt, hkind⟩
  · simp at hkind
    exact .inr ⟨rfl, hkind⟩
  · rw [List.getElem?_eq_none (by simp; omega)] at hkind
    cases hkind

namespace Fifo

/-! ### What follows from the counts -/

theorem countBefore_lt (hfifo : Fifo kinds closings) {closing : Closing} (hmem : closing ∈ closings) :
    Closing.countBefore closings closing.direction closing.exit <
      kinds.countBefore closing.direction.entryKind closing.exit :=
  (hfifo.closes_iff _ _ (hfifo.exit_kind closing hmem)).mp ⟨closing, hmem, rfl⟩

theorem countBefore_lt_count (hfifo : Fifo kinds closings) {closing : Closing}
    (hmem : closing ∈ closings) :
    Closing.countBefore closings closing.direction closing.exit <
      kinds.count closing.direction.entryKind :=
  (hfifo.countBefore_lt hmem).trans_le List.countBefore_le_count

theorem entry_kind (hfifo : Fifo kinds closings) {closing : Closing} (hmem : closing ∈ closings) :
    kinds[closing.entry]? = some closing.direction.entryKind := by
  have hplace := List.idxOfNth_lt_length_of_lt_count (hfifo.countBefore_lt_count hmem)
  rw [hfifo.entry_eq closing hmem, List.getElem?_eq_getElem hplace, List.getElem_idxOfNth_eq]

theorem exit_lt_length (hfifo : Fifo kinds closings) {closing : Closing} (hmem : closing ∈ closings) :
    closing.exit < kinds.length :=
  (List.getElem?_eq_some_iff.mp (hfifo.exit_kind closing hmem)).1

theorem entry_lt_exit (hfifo : Fifo kinds closings) {closing : Closing} (hmem : closing ∈ closings) :
    closing.entry < closing.exit := by
  by_contra hafter
  have hcount : kinds.countBefore closing.direction.entryKind closing.entry =
      Closing.countBefore closings closing.direction closing.exit := by
    rw [hfifo.entry_eq closing hmem]
    exact List.countBefore_idxOfNth_of_lt_count (hfifo.countBefore_lt_count hmem)
  have hmono : kinds.countBefore closing.direction.entryKind closing.exit ≤
      kinds.countBefore closing.direction.entryKind closing.entry :=
    List.countPBefore_mono (not_lt.mp hafter)
  have hlt := hfifo.countBefore_lt hmem
  omega

theorem entry_ne_exit (hfifo : Fifo kinds closings) {closing other : Closing}
    (hmem : closing ∈ closings) (hother : other ∈ closings) : closing.entry ≠ other.exit := by
  intro hsame
  have hentry := hfifo.entry_kind hmem
  rw [hsame, hfifo.exit_kind other hother, Option.some_inj] at hentry
  exact Direction.entryKind_ne_exitKind _ _ hentry.symm

theorem entry_ne_entry (hfifo : Fifo kinds closings) {closing other : Closing}
    (hmem : closing ∈ closings) (hother : other ∈ closings) (hlt : closing.exit < other.exit) :
    closing.entry ≠ other.entry := by
  intro hsame
  have hkind : closing.direction = other.direction := by
    apply Direction.entryKind_injective
    apply Option.some_inj.mp
    rw [← hfifo.entry_kind hmem, hsame, hfifo.entry_kind hother]
  -- Entries of one direction are taken in turn, and the later exit has its own turn.
  have hturn := Closing.countBefore_lt_countBefore hmem hlt
  rw [hfifo.entry_eq closing hmem, hfifo.entry_eq other hother, ← hkind,
    List.idxOfNth_eq_idxOfNth_iff_of_left_lt_count (hfifo.countBefore_lt_count hmem)] at hsame
  exact hturn.ne hsame

/-- No trade is used twice. -/
theorem places_nodup (hfifo : Fifo kinds closings) : (closings.flatMap Closing.places).Nodup := by
  rw [List.nodup_flatMap]
  refine ⟨fun closing hmem => ?_, ?_⟩
  · have hlt := hfifo.entry_lt_exit hmem
    simp [Closing.places, hlt.ne]
  · refine hfifo.exits_ascend.imp_of_mem fun {first second} hfirst hsecond hlt => ?_
    simp only [Function.onFun, Closing.places, List.disjoint_cons_left, List.mem_cons,
      List.not_mem_nil, or_false, not_or, List.disjoint_nil_left, and_true]
    refine ⟨⟨hfifo.entry_ne_entry hfirst hsecond hlt, hfifo.entry_ne_exit hfirst hsecond⟩, ?_, hlt.ne⟩
    exact (hfifo.entry_ne_exit hsecond hfirst).symm

/-! ### There is one matching only -/

/-- Whether an exit closes an entry, and which one, is decided by the exits before it. -/
theorem mem_of_filter_eq {others : List Closing} (hfifo : Fifo kinds closings)
    (hothers : Fifo kinds others) {closing : Closing} (hmem : closing ∈ closings)
    (hbefore : (closings.filter fun other => other.exit < closing.exit) =
      others.filter fun other => other.exit < closing.exit) :
    closing ∈ others := by
  have hcount : Closing.countBefore closings closing.direction closing.exit =
      Closing.countBefore others closing.direction closing.exit := by
    rw [Closing.countBefore_eq_countP_filter, hbefore, ← Closing.countBefore_eq_countP_filter]
  have hkind := hfifo.exit_kind closing hmem
  have hcloses := hfifo.countBefore_lt hmem
  rw [hcount] at hcloses
  obtain ⟨other, hother, hexit⟩ := (hothers.closes_iff _ _ hkind).mpr hcloses
  have hdirection : closing.direction = other.direction := by
    apply Direction.exitKind_injective
    apply Option.some_inj.mp
    rw [← hkind, ← hexit, hothers.exit_kind other hother]
  have hentry : closing.entry = other.entry := by
    rw [hfifo.entry_eq closing hmem, hothers.entry_eq other hother, hcount, hdirection, hexit]
  have hsame : closing = other := by
    cases closing
    cases other
    simp_all
  exact hsame ▸ hother

theorem mem_of_exit_lt_succ {others : List Closing} (hfifo : Fifo kinds closings)
    (hothers : Fifo kinds others)
    (hbefore : (closings.filter fun closing => closing.exit < place) =
      others.filter fun closing => closing.exit < place)
    {closing : Closing} (hmem : closing ∈ closings) (hlt : closing.exit < place + 1) :
    closing ∈ others := by
  rcases Nat.lt_succ_iff_lt_or_eq.mp hlt with hlt | rfl
  · have hbelow : closing ∈ closings.filter fun other => other.exit < place :=
      List.mem_filter.mpr ⟨hmem, decide_eq_true hlt⟩
    exact List.mem_of_mem_filter (hbefore ▸ hbelow)
  · exact hfifo.mem_of_filter_eq hothers hmem hbefore

theorem filter_exit_lt_eq {others : List Closing} (hfifo : Fifo kinds closings)
    (hothers : Fifo kinds others) (place : Nat) :
    (closings.filter fun closing => closing.exit < place) =
      others.filter fun closing => closing.exit < place := by
  induction place with
  | zero => simp
  | succ place ih =>
      apply (hfifo.exits_ascend.filter _).eq_of_mem_iff (hothers.exits_ascend.filter _)
      intro closing
      rw [List.mem_filter, List.mem_filter, decide_eq_true_eq]
      constructor
      · rintro ⟨hmem, hlt⟩
        exact ⟨hfifo.mem_of_exit_lt_succ hothers ih hmem hlt, hlt⟩
      · rintro ⟨hmem, hlt⟩
        exact ⟨hothers.mem_of_exit_lt_succ hfifo ih.symm hmem hlt, hlt⟩

theorem unique {others : List Closing} (hfifo : Fifo kinds closings) (hothers : Fifo kinds others) :
    closings = others := by
  have hall : ∀ {some : List Closing}, Fifo kinds some →
      (some.filter fun closing => closing.exit < kinds.length) = some := fun hsome =>
    List.filter_eq_self.mpr fun closing hmem => decide_eq_true (hsome.exit_lt_length hmem)
  rw [← hall hfifo, filter_exit_lt_eq hfifo hothers, hall hothers]

/-! ### One more trade -/

theorem nil : Fifo [] [] where
  exit_kind := by simp
  exits_ascend := .nil
  closes_iff direction place hkind := by simp at hkind
  entry_eq := by simp

theorem entry_eq_concat (hfifo : Fifo kinds closings) (kind : Trade.Kind) {closing : Closing}
    (hmem : closing ∈ closings) :
    closing.entry = (kinds ++ [kind]).idxOfNth closing.direction.entryKind
      (Closing.countBefore closings closing.direction closing.exit) := by
  rw [hfifo.entry_eq closing hmem]
  exact (idxOfNth_append_left (hfifo.countBefore_lt_count hmem)).symm

/-- The trade is no exit, or all entries of its direction are closed already. -/
theorem skip (hfifo : Fifo kinds closings) {kind : Trade.Kind}
    (hnone : ∀ direction : Direction, kind = direction.exitKind →
      kinds.count direction.entryKind ≤ Closing.countBefore closings direction kinds.length) :
    Fifo (kinds ++ [kind]) closings where
  exit_kind closing hmem := by
    rw [List.getElem?_append_left (hfifo.exit_lt_length hmem)]
    exact hfifo.exit_kind closing hmem
  exits_ascend := hfifo.exits_ascend
  closes_iff direction place hkind := by
    rcases place_cases hkind with ⟨hplace, hkind⟩ | ⟨rfl, hlast⟩
    · rw [countBefore_append_left hplace.le]
      exact hfifo.closes_iff direction place hkind
    · rw [countBefore_append_left le_rfl, List.countBefore_eq_count_take, List.take_length]
      refine iff_of_false ?_ (hnone direction hlast).not_gt
      rintro ⟨closing, hmem, hexit⟩
      exact (hfifo.exit_lt_length hmem).ne hexit
  entry_eq closing hmem := hfifo.entry_eq_concat kind hmem

theorem countBefore_concat_next (closings : List Closing) (direction other : Direction)
    (hplace : place ≤ kinds.length) :
    Closing.countBefore (closings ++ [.next kinds closings direction]) other place =
      Closing.countBefore closings other place := by
  have hlast : ¬((Closing.next kinds closings direction).direction = other ∧
      (Closing.next kinds closings direction).exit < place) := fun hboth => hboth.2.not_ge hplace
  rw [Closing.countBefore_concat, if_neg hlast, Nat.add_zero]

/-- The trade is an exit, and an entry of its direction is left to be closed. -/
theorem close (hfifo : Fifo kinds closings) {direction : Direction}
    (hleft : Closing.countBefore closings direction kinds.length < kinds.count direction.entryKind) :
    Fifo (kinds ++ [direction.exitKind]) (closings ++ [.next kinds closings direction]) := by
  constructor
  case exit_kind =>
    intro closing hmem
    rcases List.mem_append.mp hmem with hmem | hmem
    · rw [List.getElem?_append_left (hfifo.exit_lt_length hmem)]
      exact hfifo.exit_kind closing hmem
    · rw [List.mem_singleton.mp hmem]
      exact List.getElem?_concat_length
  case exits_ascend =>
    refine List.pairwise_append.mpr ⟨hfifo.exits_ascend, List.pairwise_singleton _ _, ?_⟩
    intro closing hmem other hother
    rw [List.mem_singleton.mp hother]
    exact hfifo.exit_lt_length hmem
  case closes_iff =>
    intro other place hkind
    rcases place_cases hkind with ⟨hplace, hkind⟩ | ⟨rfl, hsame⟩
    · rw [countBefore_append_left hplace.le, countBefore_concat_next closings direction other hplace.le,
        ← hfifo.closes_iff other place hkind]
      simp [Closing.next, hplace.ne']
    · obtain rfl : direction = other := Direction.exitKind_injective hsame
      rw [countBefore_append_left le_rfl, countBefore_concat_next closings direction direction le_rfl,
        List.countBefore_eq_count_take, List.take_length]
      exact iff_of_true ⟨_, List.mem_append_right _ (List.mem_singleton_self _), rfl⟩ hleft
  case entry_eq =>
    intro closing hmem
    rcases List.mem_append.mp hmem with hmem | hmem
    · rw [countBefore_concat_next closings _ _ (hfifo.exit_lt_length hmem).le]
      exact hfifo.entry_eq_concat _ hmem
    · have hcount : Closing.countBefore (closings ++ [.next kinds closings direction]) direction
          kinds.length = Closing.countBefore closings direction kinds.length :=
        countBefore_concat_next closings direction direction le_rfl
      rw [List.mem_singleton.mp hmem]
      simp only [Closing.next] at hcount ⊢
      rw [hcount, idxOfNth_append_left hleft]

end Fifo

end Backtest
