import Backtest.Proofs.Aggregate.Alignment
import Backtest.Proofs.Vote.Reach

/-!
# Signals combined by a vote

On every date that all signals have, a vote is read with what the strategies hold there. It may ask for a
strategy that is not among them; then the date is spent in cash and counted. Where the vote holds, the
strategies that it mentions decide on the direction, each of them once however often it is mentioned, and
those that are not there have no say. What a strategy holds that the vote does not mention makes no
difference.
-/

namespace Backtest

/-- The signals have one name and the same dates, and the same positions if the vote mentions them. -/
structure NamedSignal.AgreeFor (vote : Vote) (first second : NamedSignal) : Prop where
  name_eq : first.name = second.name
  dates_eq : first.positions.dates = second.positions.dates
  positions_eq : first.name ∈ vote.strategies → first.positions = second.positions

namespace Aggregate

variable {signals others : List NamedSignal} {vote : Vote} {date : Date}

/-- What a strategy holds on a date, if it is among the signals and has the date. -/
def heldOn (signals : List NamedSignal) (date : Date) (name : String) : Option Position :=
  (signals.find? fun signal => signal.name = name).bind fun signal => signal.positions.get? date

/-- On the date the vote asks for a strategy that is not among the signals. -/
def AsksForStranger (signals : List NamedSignal) (vote : Vote) (date : Date) : Prop :=
  ∃ name ∈ vote.reached (heldOn signals date), name ∉ signals.map NamedSignal.name

instance (signals : List NamedSignal) (vote : Vote) (date : Date) :
    Decidable (AsksForStranger signals vote date) :=
  inferInstanceAs (Decidable (∃ name ∈ vote.reached (heldOn signals date), name ∉ signals.map _))

/-- How many of the strategies that the vote mentions hold a position on the date. -/
def ballots (signals : List NamedSignal) (vote : Vote) (date : Date) (position : Position) : Nat :=
  signals.countP fun signal =>
    signal.name ∈ vote.strategies ∧ signal.positions.get? date = some position

/-- The position that the vote takes on a date, if it can be decided. -/
def decision? (signals : List NamedSignal) (vote : Vote) (date : Date) : Option Position :=
  match vote.eval (heldOn signals date) with
  | .error _ => none
  | .ok false => some .cash
  | .ok true =>
    some (if ballots signals vote date .long < ballots signals vote date .short then .short else .long)

/-! ### What the strategies hold -/

theorem heldOn_eq_some_iff (hnames : (signals.map NamedSignal.name).Nodup) {name : String}
    {position : Position} :
    heldOn signals date name = some position ↔
      ∃ signal ∈ signals, signal.name = name ∧ signal.positions.get? date = some position := by
  have hkeys : (signals.map fun signal => (signal.name, signal)).map Prod.fst =
      signals.map NamedSignal.name := by simp
  have hfound (signal : NamedSignal) : (signals.find? fun signal => signal.name = name) = some signal ↔
      signal ∈ signals ∧ signal.name = name := by
    have hlookup : (signals.map fun signal => (signal.name, signal)).lookup name = some signal ↔
        (name, signal) ∈ signals.map fun signal => (signal.name, signal) :=
      lookup_eq_some_iff_mem (hkeys ▸ hnames)
    rw [lookup_map_prod, Option.map_id'] at hlookup
    rw [hlookup, List.mem_map]
    simp only [Prod.mk.injEq]
    constructor
    · rintro ⟨other, hother, hname, rfl⟩
      exact ⟨hother, hname⟩
    · rintro ⟨hsignal, hname⟩
      exact ⟨signal, hsignal, hname, rfl⟩
  rw [heldOn, Option.bind_eq_some_iff]
  simp only [hfound, and_assoc]

/-- On a date that all signals have, only the strangers have no position. -/
theorem heldOn_eq_none_iff (hdate : date ∈ (axis signals).dates) {name : String} :
    heldOn signals date name = none ↔ name ∉ signals.map NamedSignal.name := by
  have hheld : ∀ signal ∈ signals, signal.positions.get? date ≠ none := by
    intro signal hsignal
    rw [Ne, Series.get?_eq_none_iff, not_not]
    exact (mem_axis_iff (List.ne_nil_of_mem hsignal)).mp hdate signal hsignal
  rw [heldOn, List.mem_map]
  cases hfound : signals.find? fun signal => signal.name = name with
  | none => simpa using hfound
  | some signal =>
      have hsignal := List.mem_of_find?_eq_some hfound
      have hname : signal.name = name := by simpa using List.find?_some hfound
      exact iff_of_false (hheld signal hsignal) (not_not.mpr ⟨signal, hsignal, hname⟩)

/-- The row of a date says what the strategies hold there. -/
theorem positionOn_row (hdate : date ∈ (axis signals).dates) :
    positionOn (signals.map NamedSignal.name)
        (signals.map fun signal => (signal.positions.get? date).getD .cash) =
      heldOn signals date := by
  funext name
  rw [positionOn, List.zip_map', lookup_map_prod, heldOn]
  cases hfound : signals.find? fun signal => signal.name = name with
  | none => rfl
  | some signal =>
      have hsignal := List.mem_of_find?_eq_some hfound
      have hmem := (mem_axis_iff (List.ne_nil_of_mem hsignal)).mp hdate signal hsignal
      obtain ⟨position, hposition⟩ := Series.mem_dates_iff.mp hmem
      rw [Option.map_some, Option.bind_some, hposition, Option.getD_some]

/-! ### What the vote makes of it -/

/-- Counting the names with a position is counting the signals with it, since no name comes twice. -/
theorem count_filterMap_heldOn (hnames : (signals.map NamedSignal.name).Nodup) (position : Position) :
    (vote.strategies.filterMap (heldOn signals date)).count position =
      ballots signals vote date position := by
  have hmentioned : (vote.strategies.filter fun name => heldOn signals date name == some position).Perm
      ((signals.filter fun signal =>
        signal.name ∈ vote.strategies ∧ signal.positions.get? date = some position).map
          NamedSignal.name) := by
    have hnodup : vote.strategies.Nodup := NameTable.nodup_names _
    refine (List.perm_ext_iff_of_nodup (hnodup.filter _)
      (hnames.sublist (List.filter_sublist.map _))).mpr fun name => ?_
    simp only [List.mem_filter, beq_iff_eq, heldOn_eq_some_iff hnames, List.mem_map, decide_eq_true_eq]
    constructor
    · rintro ⟨hname, signal, hsignal, rfl, hposition⟩
      exact ⟨signal, ⟨hsignal, hname, hposition⟩, rfl⟩
    · rintro ⟨signal, ⟨hsignal, hname, hposition⟩, rfl⟩
      exact ⟨hname, signal, hsignal, rfl, hposition⟩
  rw [List.count_filterMap, ballots, List.countP_eq_length_filter, List.countP_eq_length_filter,
    hmentioned.length_eq, List.length_map]

theorem customPosition?_row (hnames : (signals.map NamedSignal.name).Nodup)
    (hdate : date ∈ (axis signals).dates) :
    customPosition? vote (signals.map NamedSignal.name)
        (signals.map fun signal => (signal.positions.get? date).getD .cash) =
      decision? signals vote date := by
  rw [customPosition?, positionOn_row hdate, decision?]
  cases vote.eval (heldOn signals date) with
  | error name => rfl
  | ok value =>
      cases value with
      | false => rfl
      | true => simp only [Tally.of, count_filterMap_heldOn hnames]

theorem decision?_eq_none_iff (hdate : date ∈ (axis signals).dates) :
    decision? signals vote date = none ↔ AsksForStranger signals vote date := by
  have hasks : AsksForStranger signals vote date ↔ ∃ name, vote.eval (heldOn signals date) = .error name := by
    rw [Vote.exists_eval_eq_error_iff, AsksForStranger]
    simp only [heldOn_eq_none_iff hdate]
  rw [hasks, decision?]
  cases vote.eval (heldOn signals date) with
  | error name => simp
  | ok value => cases value <;> simp

theorem decision?_eq_cash_iff :
    decision? signals vote date = some .cash ↔ vote.eval (heldOn signals date) = .ok false := by
  rw [decision?]
  cases vote.eval (heldOn signals date) with
  | error name => simp
  | ok value =>
      cases value with
      | false => simp
      | true => split_ifs <;> simp

theorem map_rows_customPosition? (hnames : (signals.map NamedSignal.name).Nodup) :
    (rows signals).map (customPosition? vote (signals.map NamedSignal.name)) =
      .onAxis (axis signals) (decision? signals vote) := by
  have hrows : (rows signals).map (customPosition? vote (signals.map NamedSignal.name)) =
      .onAxis (axis signals) fun date => customPosition? vote (signals.map NamedSignal.name)
        (signals.map fun signal => (signal.positions.get? date).getD .cash) :=
    Series.map_onAxis _ _ _
  rw [hrows]
  exact Series.onAxis_congr fun date hdate => customPosition?_row hnames hdate

/-! ### Strategies that are not mentioned -/

section Congr

variable (hagree : List.Forall₂ (NamedSignal.AgreeFor vote) others signals)

include hagree

theorem names_of_agreeFor : others.map NamedSignal.name = signals.map NamedSignal.name :=
  map_eq_map_iff_forall₂.mpr (hagree.imp fun _ _ hsignals => hsignals.name_eq)

theorem axis_of_agreeFor : axis others = axis signals := by
  refine Series.commonAxis_congr ?_
  rw [List.forall₂_map_left_iff, List.forall₂_map_right_iff]
  exact hagree.imp fun _ _ hsignals => hsignals.dates_eq

theorem heldOn_of_agreeFor {name : String} (hname : name ∈ vote.strategies) :
    heldOn others date name = heldOn signals date name := by
  rw [heldOn, heldOn]
  induction hagree with
  | nil => rfl
  | @cons other signal _ _ hsignals _ ih =>
      by_cases hfound : other.name = name
      · have hpositions := hsignals.positions_eq (hfound ▸ hname)
        simp [← hsignals.name_eq, hfound, hpositions]
      · simpa [← hsignals.name_eq, hfound] using ih

theorem ballots_of_agreeFor (position : Position) :
    ballots others vote date position = ballots signals vote date position := by
  rw [ballots, ballots]
  induction hagree with
  | nil => rfl
  | @cons other signal _ _ hsignals _ ih =>
      rw [List.countP_cons, List.countP_cons, ih, ← hsignals.name_eq]
      by_cases hname : other.name ∈ vote.strategies
      · rw [hsignals.positions_eq hname]
      · simp [hname]

theorem decision?_of_agreeFor : decision? others vote date = decision? signals vote date := by
  have heval : vote.eval (heldOn others date) = vote.eval (heldOn signals date) :=
    Vote.eval_congr fun _ => heldOn_of_agreeFor hagree
  simp only [decision?, heval, ballots_of_agreeFor hagree]

end Congr

/-! ### Combining -/

variable {α : Type} {expression : String}

/-- How a vote combines signals, date by date. -/
structure DecidedBy (vote : Vote) (signals : List NamedSignal) (combination : Combination α) : Prop where
  mem_dates : ∀ date, date ∈ combination.positions.dates ↔
    ∀ signal ∈ signals, date ∈ signal.positions.dates
  cash_iff : ∀ date ∈ combination.positions.dates,
    (combination.positions.get? date = some .cash ↔
      vote.eval (heldOn signals date) = .ok false ∨ AsksForStranger signals vote date)
  direction : ∀ date ∈ combination.positions.dates, combination.positions.get? date ≠ some .cash →
    combination.positions.get? date = some
      (if ballots signals vote date .long < ballots signals vote date .short then .short else .long)
  recovered_eq : combination.recovered =
    combination.positions.dates.countP fun date => AsksForStranger signals vote date
  recovered_eq_zero : (∀ name ∈ vote.strategies, name ∈ signals.map NamedSignal.name) →
    combination.recovered = 0

/-- The combination that a vote makes of signals. -/
def voted (α : Type) (signals : List NamedSignal) (vote : Vote) : Combination α where
  method := "custom"
  strategies := signals.map NamedSignal.name
  positions := .onAxis (axis signals) fun date => (decision? signals vote date).getD .cash
  weights := none
  scores := none
  recovered := (axis signals).dates.countP fun date => (decision? signals vote date).isNone

theorem combine_eq_voted [Scalar α] (hvote : Vote.parse expression = .ok vote) (hsome : signals ≠ [])
    (hnames : (signals.map NamedSignal.name).Nodup) :
    combine signals (.custom expression : Method α) = .ok (voted α signals vote) := by
  rw [combine_eq_of_nodup hsome hnames, combineRows, hvote]
  simp only [Except.mapError, ok_bind, map_rows_customPosition? hnames, Series.map_onAxis,
    Series.values_onAxis, List.countP_map]
  rfl

theorem recovered_voted (α : Type) (signals : List NamedSignal) (vote : Vote) :
    (voted α signals vote).recovered =
      (axis signals).dates.countP fun date => AsksForStranger signals vote date := by
  refine List.countP_congr fun date hdate => ?_
  rw [Option.isNone_iff_eq_none, decide_eq_true_iff, decision?_eq_none_iff hdate]

theorem voted_decidedBy (hsome : signals ≠ []) : DecidedBy vote signals (voted α signals vote) := by
  have hdates : (voted α signals vote).positions.dates = (axis signals).dates := Series.dates_onAxis _ _
  have hget : ∀ date ∈ (axis signals).dates, (voted α signals vote).positions.get? date =
      some ((decision? signals vote date).getD .cash) := fun _ => Series.get?_onAxis
  constructor
  · intro date
    rw [hdates, mem_axis_iff hsome]
  · intro date hdate
    rw [hdates] at hdate
    rw [hget date hdate, ← decision?_eq_cash_iff, ← decision?_eq_none_iff hdate]
    cases decision? signals vote date with
    | none => simp
    | some position => simp
  · intro date hdate hposition
    rw [hdates] at hdate
    rw [hget date hdate] at hposition ⊢
    rw [decision?] at hposition ⊢
    cases heval : vote.eval (heldOn signals date) with
    | error name => simp [heval] at hposition
    | ok value =>
        cases value with
        | false => simp [heval] at hposition
        | true => rfl
  · rw [recovered_voted, hdates]
  · intro hknown
    rw [recovered_voted, List.countP_eq_zero]
    rintro date _ hasks
    obtain ⟨name, hreached, hstranger⟩ := of_decide_eq_true hasks
    exact hstranger (hknown name (Vote.mem_strategies_of_mem_reached hreached))

/-- **Signals combined by a vote.** A vote that can be read combines signals under distinct names, as soon
as there are any. On every date that all signals have, the combination is in cash exactly where the vote
does not hold or asks for a strategy that is not among them. Elsewhere it is short if more of the
strategies that the vote mentions are short than long, and otherwise long. The dates on which a stranger
was asked for are counted. Changing what strategies hold that the vote does not mention changes nothing,
as long as they keep their dates. -/
theorem combine_by_vote [Scalar α] (hvote : Vote.parse expression = .ok vote)
    (hnames : (signals.map NamedSignal.name).Nodup) :
    ((∃ combination, combine signals (.custom expression : Method α) = .ok combination) ↔
        signals ≠ []) ∧
      (∀ combination, combine signals (.custom expression : Method α) = .ok combination →
        DecidedBy vote signals combination) ∧
      ∀ others, List.Forall₂ (NamedSignal.AgreeFor vote) others signals →
        combine others (.custom expression : Method α) = combine signals (.custom expression) := by
  refine ⟨?_, fun combination hcombine => ?_, fun others hagree => ?_⟩
  · rw [exists_combine_iff]
    exact ⟨And.left, fun hsome => ⟨hsome, hnames, vote, hvote⟩⟩
  · obtain ⟨hsome, _⟩ := of_combine hcombine
    rw [combine_eq_voted hvote hsome hnames] at hcombine
    cases hcombine
    exact voted_decidedBy hsome
  · by_cases hnone : signals = []
    · subst hnone
      rw [List.forall₂_nil_right_iff.mp hagree]
    · have hsome : others ≠ [] := by
        rintro rfl
        exact hnone (List.forall₂_nil_left_iff.mp hagree)
      have hsame := names_of_agreeFor hagree
      rw [combine_eq_voted hvote hsome (hsame ▸ hnames), combine_eq_voted hvote hnone hnames]
      simp only [voted, hsame, axis_of_agreeFor hagree, decision?_of_agreeFor hagree]

namespace Sample

/-- `revert` in cash throughout. -/
def idle : NamedSignal := { revert with positions := revert.positions.map fun _ => .cash }

end Sample

/-- On the last date `trend` is not long, and the vote goes on to a strategy that is not there. -/
theorem combine_by_vote_sample :
    let signals := [Sample.trend, Sample.revert]
    let expression := "trend == 1 OR ghost == 1"
    ∃ vote, Vote.parse expression = .ok vote ∧ (signals.map NamedSignal.name).Nodup ∧
      List.Forall₂ (NamedSignal.AgreeFor vote) [Sample.trend, Sample.idle] signals ∧
      ∃ combination, combine [Sample.trend, Sample.idle] (.custom expression : Method Rat) =
          .ok combination ∧
        DecidedBy vote signals combination ∧ combination.recovered = 1 ∧
          combination.positions.entries = [(⟨0⟩, .long), (⟨4⟩, .cash)] := by
  intro signals expression
  let vote : Vote := .or (.atom ⟨"trend", .long⟩) (.atom ⟨"ghost", .long⟩)
  have hvote : Vote.parse expression = .ok vote := by decide +kernel
  have hnames : (signals.map NamedSignal.name).Nodup := by decide
  have hmentioned : vote.strategies = ["ghost", "trend"] := by decide +kernel
  have hagree : List.Forall₂ (NamedSignal.AgreeFor vote) [Sample.trend, Sample.idle] signals := by
    refine .cons ⟨rfl, rfl, fun _ => rfl⟩ (.cons ⟨rfl, Series.dates_map _ _, fun hname => ?_⟩ .nil)
    rw [hmentioned] at hname
    exact absurd hname (by decide)
  obtain ⟨_, hdecided, hsame⟩ := combine_by_vote (α := Rat) hvote hnames
  have hcombine : succeedsWith (fun combination : Combination Rat => combination.recovered = 1 ∧
      combination.positions.entries = [(⟨0⟩, .long), (⟨4⟩, .cash)])
      (combine signals (.custom expression)) = true := by
    decide +kernel
  obtain ⟨combination, hcombination, htest⟩ := exists_of_succeedsWith hcombine
  refine ⟨vote, hvote, hnames, hagree, combination, ?_, hdecided _ hcombination, ?_⟩
  · rw [hsame _ hagree, hcombination]
  · exact of_decide_eq_true htest

end Aggregate

end Backtest
