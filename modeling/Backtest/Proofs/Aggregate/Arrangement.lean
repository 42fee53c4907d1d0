import Backtest.Proofs.Aggregate.Alignment
import Backtest.Proofs.Scalar.Exact

/-!
# Signals in another order

The order of the strategies makes no difference to what they are combined to. Whatever belongs to a
strategy (its name, its share, its position on a day) goes along when the strategies change places, and a
method reads nothing but how many of them hold a position, what their weighted positions add up to, or
which position stands beside a name. Adding up in another order is exact on rational scalars only.
-/

namespace Backtest

/-- Labels that go along with the items when these are put in another order. -/
def MovedWith {β γ : Type} (items items' : List β) (labels labels' : List γ) : Prop :=
  ∃ label : β → γ, labels = items.map label ∧ labels' = items'.map label

namespace MovedWith

variable {β γ δ ε : Type} {items items' : List β} {labels labels' : List γ} {others others' : List δ}

theorem perm (hlabels : MovedWith items items' labels labels') (hperm : items'.Perm items) :
    labels'.Perm labels := by
  obtain ⟨label, rfl, rfl⟩ := hlabels
  exact hperm.map label

theorem length_eq (hlabels : MovedWith items items' labels labels') : labels.length = items.length := by
  obtain ⟨label, rfl, _⟩ := hlabels
  exact List.length_map _

theorem map (hlabels : MovedWith items items' labels labels') (f : γ → δ) :
    MovedWith items items' (labels.map f) (labels'.map f) := by
  obtain ⟨label, rfl, rfl⟩ := hlabels
  exact ⟨f ∘ label, List.map_map, List.map_map⟩

theorem zipWith (hlabels : MovedWith items items' labels labels')
    (hothers : MovedWith items items' others others') (f : γ → δ → ε) :
    MovedWith items items' (labels.zipWith f others) (labels'.zipWith f others') := by
  obtain ⟨label, rfl, rfl⟩ := hlabels
  obtain ⟨other, rfl, rfl⟩ := hothers
  refine ⟨fun item => f (label item) (other item), ?_, ?_⟩
  · rw [List.zipWith_map, List.zipWith_self]
  · rw [List.zipWith_map, List.zipWith_self]

end MovedWith

/-- The same combination with the names and the shares of the strategies in their other order. -/
structure Combination.MovedWith {α β : Type} (items items' : List β) (combination other : Combination α) :
    Prop where
  method_eq : other.method = combination.method
  positions_eq : other.positions = combination.positions
  scores_eq : other.scores = combination.scores
  recovered_eq : other.recovered = combination.recovered
  strategies : Backtest.MovedWith items items' combination.strategies other.strategies
  weights : Option.Rel (Backtest.MovedWith items items') combination.weights other.weights

namespace Aggregate

variable {α β : Type} [Scalar α] {items items' : List β} {names names' : List String}
  {row row' : List Position}

/-! ### Rows -/

theorem Tally.of_perm (hperm : row'.Perm row) : Tally.of row' = Tally.of row := by
  simp only [Tally.of, hperm.count_eq]

theorem majorityStep_perm (hperm : row'.Perm row) (threshold exit : α) (held : Position) :
    majorityStep threshold exit held row' = majorityStep threshold exit held row := by
  have hlong : (longShare row' : α) = longShare row := by
    rw [longShare, longShare, Tally.of_perm hperm, hperm.length_eq]
  have hshort : (shortShare row' : α) = shortShare row := by
    rw [shortShare, shortShare, Tally.of_perm hperm, hperm.length_eq]
  simp only [majorityStep, hlong, hshort]

theorem positionOn_moved (hperm : items'.Perm items) (hnames : MovedWith items items' names names')
    (hdistinct : names.Nodup) (hrow : MovedWith items items' row row') :
    positionOn names' row' = positionOn names row := by
  have hzip : (names'.zip row').Perm (names.zip row) := (hnames.zipWith hrow Prod.mk).perm hperm
  have hlength : names.length = row.length := hnames.length_eq.trans hrow.length_eq.symm
  funext name
  exact lookup_perm hzip (by rwa [List.map_fst_zip hlength.le]) name

theorem customPosition?_moved (hperm : items'.Perm items) (hnames : MovedWith items items' names names')
    (hdistinct : names.Nodup) (vote : Vote) (hrow : MovedWith items items' row row') :
    customPosition? vote names' row' = customPosition? vote names row := by
  simp only [customPosition?, positionOn_moved hperm hnames hdistinct hrow]

/-! ### Weights -/

theorem givenWeights_moved (hnames : MovedWith items items' names names')
    (weights : Option (Weights α)) :
    MovedWith items items' (givenWeights names weights) (givenWeights names' weights) := by
  cases weights with
  | none => exact hnames.map _
  | some weights => exact hnames.map _

theorem sum_perm {terms terms' : List Rat} (hperm : terms'.Perm terms) :
    Scalar.sum terms' = Scalar.sum terms := by
  rw [Scalar.sum_rat, Scalar.sum_rat, hperm.sum_eq]

theorem score_moved (hperm : items'.Perm items) {shares shares' : List (String × Rat)}
    (hshares : MovedWith items items' shares shares') (hrow : MovedWith items items' row row') :
    score shares' row' = score shares row :=
  sum_perm ((hrow.zipWith hshares _).perm hperm)

theorem exists_normalizedWeights_moved (hperm : items'.Perm items)
    (hnames : MovedWith items items' names names') {weights : Option (Weights Rat)}
    {shares : List (String × Rat)} (hshares : normalizedWeights names weights = .ok shares) :
    ∃ shares', normalizedWeights names' weights = .ok shares' ∧
      MovedWith items items' shares shares' := by
  obtain ⟨⟨hgood, htotal⟩, rfl⟩ := normalizedWeights_eq_ok_iff.mp hshares
  have hgiven := givenWeights_moved hnames weights
  have hsame := sum_perm ((hgiven.map Prod.snd).perm hperm)
  refine ⟨_, normalizedWeights_eq_ok_iff.mpr ⟨⟨?_, ?_⟩, rfl⟩, ?_⟩
  · exact fun entry hentry => hgood entry ((hgiven.perm hperm).mem_iff.mp hentry)
  · rwa [hsame]
  · rw [hsame]
    exact hgiven.map _

/-! ### Combining -/

variable {signals shuffled : List NamedSignal}

theorem rows_moved (hperm : shuffled.Perm signals) :
    (rows signals).Pointwise (MovedWith signals shuffled) (rows shuffled) := by
  rw [rows, rows, Series.commonAxis_perm (hperm.map NamedSignal.positions)]
  exact Series.pointwise_onAxis fun date _ => ⟨_, rfl, rfl⟩

theorem exists_combineRows_moved (hperm : items'.Perm items)
    (hnames : MovedWith items items' names names') (hdistinct : names.Nodup)
    {rows rows' : Series (List Position)} (hrows : rows.Pointwise (MovedWith items items') rows')
    {method : Method Rat} {combination : Combination Rat}
    (hcombine : combineRows names rows method = .ok combination) :
    ∃ other, combineRows names' rows' method = .ok other ∧
      combination.MovedWith items items' other := by
  cases method with
  | weighted weights =>
      obtain ⟨shares, hshares, hresult⟩ := bind_eq_ok_iff.mp hcombine
      cases hresult
      obtain ⟨shares', hshares', hmoved⟩ := exists_normalizedWeights_moved hperm hnames hshares
      have hscores : rows.map (score shares) = rows'.map (score shares') :=
        (hrows.map fun _ _ hrow => (score_moved hperm hmoved hrow).symm).eq
      refine ⟨_, bind_eq_ok_iff.mpr ⟨shares', hshares', rfl⟩, ?_⟩
      rw [← hscores]
      exact ⟨rfl, rfl, rfl, rfl, hnames, .some hmoved⟩
  | majority threshold exitThreshold =>
      cases threshold with
      | none =>
          cases hcombine
          have hpositions : (rows.map fun row => (Tally.of row).plurality) =
              rows'.map fun row => (Tally.of row).plurality :=
            (hrows.map fun _ _ hrow => by rw [Tally.of_perm (hrow.perm hperm)]).eq
          exact ⟨_, rfl, rfl, hpositions.symm, rfl, rfl, hnames, .none⟩
      | some threshold =>
          obtain ⟨_, hcheck, hresult⟩ := bind_eq_ok_iff.mp hcombine
          cases hresult
          refine ⟨_, bind_eq_ok_iff.mpr ⟨(), hcheck, rfl⟩, rfl, ?_, rfl, rfl, hnames, .none⟩
          -- The position that the majority remembers is the same after every row.
          refine (hrows.scan (fun held held' row row' hheld hrow => ?_) rfl).eq.symm
          rw [hheld, majorityStep_perm (hrow.perm hperm)]
  | custom expression =>
      obtain ⟨vote, hvote, hresult⟩ := bind_eq_ok_iff.mp hcombine
      cases hresult
      have hdecided : rows.map (customPosition? vote names) = rows'.map (customPosition? vote names') :=
        (hrows.map fun _ _ hrow => (customPosition?_moved hperm hnames hdistinct vote hrow).symm).eq
      refine ⟨_, bind_eq_ok_iff.mpr ⟨vote, hvote, rfl⟩, ?_⟩
      rw [← hdecided]
      exact ⟨rfl, rfl, rfl, rfl, hnames, .none⟩

/-- **The order of the strategies.** When signals are combined, so are the same signals in every other
order. The combined positions, the scores and the number of days that could not be decided are the same,
and the names and the shares of the strategies go along with the signals. -/
theorem combine_perm {method : Method Rat} {combination : Combination Rat}
    (hperm : shuffled.Perm signals) (hcombine : combine signals method = .ok combination) :
    ∃ other, combine shuffled method = .ok other ∧ combination.MovedWith signals shuffled other := by
  obtain ⟨hsome, hdistinct⟩ := of_combine hcombine
  have hsome' : shuffled ≠ [] := by
    rintro rfl
    exact hsome (List.nil_perm.mp hperm)
  have hdistinct' : (shuffled.map NamedSignal.name).Nodup :=
    (hperm.map NamedSignal.name).nodup_iff.mpr hdistinct
  rw [combine_eq_of_nodup hsome hdistinct] at hcombine
  rw [combine_eq_of_nodup hsome' hdistinct']
  exact exists_combineRows_moved hperm ⟨NamedSignal.name, rfl, rfl⟩ hdistinct (rows_moved hperm) hcombine

namespace Sample

/-- Two parts in three for the strategy whose name comes last. -/
def twoToOne : Weights Rat where
  entries := [("revert", 1), ("trend", 2)]
  ascending := by decide

end Sample

theorem combine_perm_sample :
    let signals := [Sample.trend, Sample.revert]
    let shuffled := [Sample.revert, Sample.trend]
    shuffled.Perm signals ∧
      ∀ method ∈ [Method.weighted (some Sample.twoToOne), .custom "revert == 1 AND absent == 0"],
        ∃ combination other, combine signals method = .ok combination ∧
          combine shuffled method = .ok other ∧ combination.MovedWith signals shuffled other := by
  intro signals shuffled
  have hperm : shuffled.Perm signals := .swap _ _ _
  refine ⟨hperm, fun method hmethod => ?_⟩
  have hcombine : succeedsWith (fun _ => true) (combine signals method) = true := by
    revert method
    decide +kernel
  obtain ⟨combination, hcombination, _⟩ := exists_of_succeedsWith hcombine
  obtain ⟨other, hother, hmoved⟩ := combine_perm hperm hcombination
  exact ⟨combination, other, hcombination, hother, hmoved⟩

end Aggregate

end Backtest
