import Backtest.Proofs.Aggregate.Symmetry

/-!
# Days on which all strategies agree

Where all strategies hold the same position, so does their combination, by weights as well as by a
majority. The shares of the weights make one, so the score of such a day is the position itself; and a
majority has all of the votes, whatever position it held before. There is one exception: a majority that
may be kept without a single vote stays where it is while all strategies are in cash.
-/

namespace Backtest.Aggregate

/-- The method takes a position that all strategies hold. -/
def Method.Follows (position : Position) : Method Rat → Prop
  | .weighted _ => True
  | .majority none _ => True
  | .majority (some threshold) exitThreshold =>
    position ≠ .cash ∨ 0 < exitThreshold.getD (threshold / ((2 : Nat) : Rat))
  | .custom _ => False

variable {n : Nat} {position : Position} {threshold exit : Rat}

/-! ### Votes -/

theorem count_replicate_of_ne {other : Position} (hother : other ≠ position) (n : Nat) :
    (List.replicate n position).count other = 0 := by
  rw [List.count_replicate, if_neg (by simpa using hother.symm)]

theorem plurality_replicate (hsome : 0 < n) (position : Position) :
    (Tally.of (List.replicate n position)).plurality = position := by
  cases position <;> simp [Tally.plurality, Tally.of, List.count_replicate, hsome]

theorem voteShare_replicate_self (hsome : 0 < n) (position : Position) :
    voteShare position (List.replicate n position) = 1 := by
  rw [voteShare, List.count_replicate_self, List.length_replicate, div_self (Nat.cast_ne_zero.mpr hsome.ne')]

theorem voteShare_replicate_of_ne {other : Position} (hother : other ≠ position) (n : Nat) :
    voteShare other (List.replicate n position) = 0 := by
  rw [voteShare, count_replicate_of_ne hother, Nat.cast_zero, zero_div]

/-- All votes for a direction enter it, for no threshold is above one. -/
theorem enters_replicate (hsome : 0 < n) (hposition : position ≠ .cash) (hthreshold : threshold ≤ 1) :
    Enters threshold position (List.replicate n position) := by
  have hopposite : position.opposite ≠ position := by
    cases position with
    | long | short => decide
    | cash => exact absurd rfl hposition
  refine ⟨?_, ?_⟩
  · rwa [voteShare_replicate_self hsome]
  · rwa [count_replicate_of_ne hopposite, List.count_replicate_self]

theorem majorityStep_replicate (hsome : 0 < n) (hthreshold : threshold ≤ 1)
    (hfollows : position ≠ .cash ∨ 0 < exit) (held : Position) :
    majorityStep threshold exit held (List.replicate n position) = position := by
  by_cases hposition : position = .cash
  · subst hposition
    have hexit : 0 < exit := hfollows.resolve_left (not_not.mpr rfl)
    -- Nobody votes for a direction, so none is entered, and none is kept.
    have hleft (direction : Position) (hdirection : direction ≠ .cash) :
        majorityStep threshold exit held (List.replicate n .cash) ≠ direction := by
      rw [ne_eq, majorityStep_eq_iff hdirection]
      rintro (henters | ⟨_, hkeeps⟩)
      · have hmore := henters.2
        rw [count_replicate_of_ne hdirection] at hmore
        exact absurd hmore (Nat.not_lt_zero _)
      · have hshare := hkeeps.2
        rw [voteShare_replicate_of_ne hdirection] at hshare
        exact absurd hexit (not_lt.mpr hshare)
    cases hstep : majorityStep threshold exit held (List.replicate n .cash) with
    | long => exact absurd hstep (hleft .long (by decide))
    | cash => rfl
    | short => exact absurd hstep (hleft .short (by decide))
  · exact (majorityStep_eq_iff hposition).mpr (.inl (enters_replicate hsome hposition hthreshold))

/-! ### Weights -/

theorem score_replicate (given : List (String × Rat)) (position : Position) :
    score given (List.replicate given.length position) =
      (given.map Prod.snd).sum * (position.sign : Rat) := by
  induction given with
  | nil => simp
  | cons share given ih =>
      rw [List.length_cons, List.replicate_succ, score_cons, ih, List.map_cons, List.sum_cons, add_mul]

theorem positionOfScore_sign (position : Position) : positionOfScore (position.sign : Rat) = position := by
  rw [positionOfScore, scoreThreshold_rat]
  cases position <;> norm_num [Position.sign]

/-! ### Combining -/

theorem combineRows_follows {names : List String} (hsome : names ≠ []) {method : Method Rat}
    {rows : Series (List Position)} {combination : Combination Rat}
    (hcombine : combineRows names rows method = .ok combination) :
    rows.Pointwise (fun row combined => ∀ position, method.Follows position →
      row = List.replicate names.length position → combined = position) combination.positions := by
  have hlength : 0 < names.length := List.length_pos_of_ne_nil hsome
  cases method with
  | weighted weights =>
      obtain ⟨given, hgiven, hresult⟩ := bind_eq_ok_iff.mp hcombine
      obtain ⟨hweighable, rfl⟩ := normalizedWeights_rat_iff.mp hgiven
      cases hresult
      rw [Series.map_map]
      refine Series.pointwise_map ?_ rows
      intro row position _ hrow
      have hshares : (shares names weights).length = names.length := List.length_map _
      rw [Function.comp_apply, hrow, ← hshares, score_replicate, sum_shares hweighable, one_mul,
        positionOfScore_sign]
  | majority threshold exitThreshold =>
      cases threshold with
      | none =>
          cases hcombine
          show rows.Pointwise _ (rows.map fun row => (Tally.of row).plurality)
          refine Series.pointwise_map ?_ rows
          intro row position _ hrow
          rw [hrow, plurality_replicate hlength]
      | some threshold =>
          obtain ⟨_, hcheck, hresult⟩ := bind_eq_ok_iff.mp hcombine
          cases hresult
          obtain ⟨⟨_, hthreshold⟩, _⟩ := checkThresholds_eq_ok_iff.mp hcheck
          refine Series.pointwise_scan ?_ Position.cash rows
          intro held row position hfollows hrow
          rw [hrow, majorityStep_replicate hlength hthreshold hfollows]
  | custom expression =>
      obtain ⟨vote, _, hresult⟩ := bind_eq_ok_iff.mp hcombine
      cases hresult
      rw [Series.map_map]
      exact Series.pointwise_map (fun _ _ hfollows => hfollows.elim) rows

variable {signals : List NamedSignal} {date : Date}

theorem get?_rows_of_agree (hsome : signals ≠ [])
    (hagree : ∀ signal ∈ signals, signal.positions.get? date = some position) :
    (rows signals).get? date = some (List.replicate (signals.map NamedSignal.name).length position) := by
  have hdate : date ∈ (axis signals).dates := (mem_axis_iff hsome).mpr fun signal hsignal =>
    Series.mem_dates_iff.mpr ⟨position, hagree signal hsignal⟩
  have hrow : (signals.map fun signal => (signal.positions.get? date).getD .cash) =
      signals.map fun _ => position :=
    List.map_congr_left fun signal hsignal => by rw [hagree signal hsignal, Option.getD_some]
  rw [rows, ← axis, Series.get?_onAxis hdate, hrow, List.map_const', List.length_map]

theorem get?_combine_of_agree {method : Method Rat} {combination : Combination Rat}
    (hcombine : combine signals method = .ok combination) (hfollows : method.Follows position)
    (hagree : ∀ signal ∈ signals, signal.positions.get? date = some position) :
    combination.positions.get? date = some position := by
  obtain ⟨⟨hsome, _⟩, hrows⟩ := combine_eq_ok_iff.mp hcombine
  have hcombined := combineRows_follows (by simpa using hsome) hrows
  obtain ⟨combined, hget, hposition⟩ := hcombined.exists_of_get? (get?_rows_of_agree hsome hagree)
  rw [hget, hposition position hfollows rfl]

theorem weighable_singleton {weights : Option (Weights Rat)} {name : String}
    (hweight : 0 < weightOf weights name) : Weighable [name] weights := by
  refine ⟨?_, ?_⟩
  · rw [List.forall_mem_singleton]
    exact hweight.le
  · simpa [totalWeight] using hweight

/-- **Unanimity.** Signals under distinct names and a method that is usable for them are combined, and on a
date on which all signals hold one position the combination holds it too, whatever came before. Only a
majority that is kept without votes may hold something else while all are in cash. A single signal of any
positive weight is its own combination. -/
theorem combine_unanimous :
    (∀ (signals : List NamedSignal) (method : Method Rat), signals ≠ [] →
      (signals.map NamedSignal.name).Nodup → method.Usable (signals.map NamedSignal.name) →
      ∃ combination, combine signals method = .ok combination ∧
        ∀ date position, method.Follows position →
          (∀ signal ∈ signals, signal.positions.get? date = some position) →
          combination.positions.get? date = some position) ∧
    ∀ (signal : NamedSignal) (weights : Option (Weights Rat)), 0 < weightOf weights signal.name →
      ∃ combination, combine [signal] (.weighted weights) = .ok combination ∧
        combination.positions = signal.positions := by
  constructor
  · intro signals method hsome hnames husable
    obtain ⟨combination, hcombine⟩ := exists_combine_iff.mpr ⟨hsome, hnames, husable⟩
    exact ⟨combination, hcombine, fun date position => get?_combine_of_agree hcombine⟩
  · intro signal weights hweight
    have husable := usable_iff_weighable.mpr (weighable_singleton hweight)
    obtain ⟨combination, hcombine⟩ :=
      exists_combine_iff.mpr ⟨List.cons_ne_nil signal [], List.nodup_singleton _, husable⟩
    have hdates : combination.positions.dates = signal.positions.dates :=
      dates_of_combine (by simp) hcombine
    refine ⟨combination, hcombine, Series.eq_of_get?_eq hdates fun date hdate => ?_⟩
    obtain ⟨position, hposition⟩ := Series.mem_dates_iff.mp (hdates ▸ hdate)
    rw [hposition]
    exact get?_combine_of_agree hcombine trivial (by simpa using hposition)

namespace Sample

/-- Both are long on the first date, and both are in cash on the last one. -/
def agreeing : List NamedSignal :=
  [⟨"trend", ⟨[(⟨0⟩, .long), (⟨2⟩, .long), (⟨3⟩, .cash)], by decide⟩⟩,
    ⟨"revert", ⟨[(⟨0⟩, .long), (⟨2⟩, .short), (⟨3⟩, .cash)], by decide⟩⟩]

end Sample

theorem combine_unanimous_sample :
    let method : Method Rat := .majority (some (1 / 2)) none
    method.Usable (Sample.agreeing.map NamedSignal.name) ∧
      ∃ combination, combine Sample.agreeing method = .ok combination ∧
        combination.positions.get? ⟨0⟩ = some .long ∧ combination.positions.get? ⟨3⟩ = some .cash := by
  intro method
  have husable : method.Usable (Sample.agreeing.map NamedSignal.name) :=
    ⟨by decide +kernel, by decide +kernel⟩
  have hexit : 0 < (none : Option Rat).getD (1 / 2 / ((2 : Nat) : Rat)) := by norm_num
  obtain ⟨combination, hcombine, hfollows⟩ :=
    combine_unanimous.1 Sample.agreeing method (List.cons_ne_nil _ _) (by decide) husable
  refine ⟨husable, combination, hcombine, ?_, ?_⟩
  · exact hfollows ⟨0⟩ .long (.inl (by decide)) (by decide)
  · exact hfollows ⟨3⟩ .cash (.inr hexit) (by decide)

/-- With an exit threshold of zero a position is kept without votes. -/
example : majorityStep (1 / 2 : Rat) 0 .long [.cash, .cash] = .long := by decide +kernel

end Backtest.Aggregate
