import Backtest.Proofs.Condition.Printing
import Backtest.Proofs.Condition.Truth
import Backtest.Proofs.Strategy.Readiness

/-!
# What a strategy's formulas mean

What a strategy holds on a date can be said from the truth of its formulas on this date alone. Which
formulas have a say depends on the kind of the strategy and on whether it gives a long formula; the others
make no difference, and need not even be formulas.
-/

namespace Backtest

variable {conditions : ConditionSet} {dates : List Date} {date : Date}

/-- The text is a formula over the conditions, and it is true on the date. -/
def ConditionSet.saysOn (conditions : ConditionSet) (date : Date) (text : String) : Bool :=
  match Condition.parse conditions.names text with
  | .ok condition => condition.holds (conditions.holdsOn date)
  | .error _ => false

theorem Condition.get?_evalText {text : String} {series : Series Bool}
    (heval : evalText conditions text = .ok series) (hdate : date ∈ series.dates) :
    series.get? date = some (conditions.saysOn date text) := by
  simp only [evalText, parseOver, bind_eq_ok_iff, mapError_eq_ok_iff] at heval
  obtain ⟨condition, hparse, heval⟩ := heval
  rw [get?_eval heval hdate, ConditionSet.saysOn, hparse]

namespace Strategy

variable {strategy other : Strategy} {positions : Series Position}

/-- The field is not blank, and its formula is true on the date. -/
def fieldHolds (conditions : ConditionSet) (date : Date) (field : Option String) : Bool :=
  (Text.nonBlank? field).any (conditions.saysOn date)

/-- The position that the formulas of a strategy call for on a date. -/
def positionOn (strategy : Strategy) (conditions : ConditionSet) (date : Date) : Position :=
  let holds (field : Option String) : Bool := fieldHolds conditions date field
  match strategy.kind, Text.nonBlank? strategy.long with
  | .longCash, some _ => if holds strategy.long && !holds strategy.cash then .long else .cash
  | .longCash, none => if holds strategy.expression then .long else .cash
  | .longShort, _ =>
    if holds strategy.long then .long else if holds strategy.short then .short else .cash

/-- The strategies differ in fields that strategies of their kind do not use, and in nothing else. A field
is the same if it is blank in both. -/
structure SameRules (strategy other : Strategy) : Prop where
  name_eq : other.name = strategy.name
  kind_eq : other.kind = strategy.kind
  long_eq : Text.nonBlank? other.long = Text.nonBlank? strategy.long
  cash_eq : strategy.kind = .longCash → (Text.nonBlank? strategy.long).isSome = true →
    Text.nonBlank? other.cash = Text.nonBlank? strategy.cash
  short_eq : strategy.kind = .longShort → Text.nonBlank? other.short = Text.nonBlank? strategy.short
  expression_eq : strategy.kind = .longCash → Text.nonBlank? strategy.long = none →
    Text.nonBlank? other.expression = Text.nonBlank? strategy.expression

/-! ### Truth on a date -/

theorem get?_longWhere {entry : Series Bool} {truth : Bool} (hentry : entry.get? date = some truth) :
    (longWhere entry).get? date = some (if truth then .long else .cash) := by
  rw [longWhere, Series.get?_map, hentry, Option.map_some]

theorem get?_of_join {refusal : Error} {change : Bool → Bool → Position} {left right : Series Bool}
    (hjoin : (if left.sameAxis right then .ok (left.zipWith change right) else .error refusal) =
      Except.ok positions)
    {truth truth' : Bool} (hleft : left.get? date = some truth) (hright : right.get? date = some truth') :
    positions.get? date = some (change truth truth') := by
  split_ifs at hjoin with haxis
  cases hjoin
  rw [Series.get?_zipWith change (of_decide_eq_true haxis), hleft, hright]
  rfl

theorem fieldHolds_of_some {field : Option String} {text : String}
    (htext : Text.nonBlank? field = some text) :
    fieldHolds conditions date field = conditions.saysOn date text := by
  rw [fieldHolds, htext, Option.any_some]

theorem fieldHolds_of_none {field : Option String} (hblank : Text.nonBlank? field = none) :
    fieldHolds conditions date field = false := by
  rw [fieldHolds, hblank, Option.any_none]

theorem get?_positions (haligned : conditions.Aligned dates)
    (hpositions : strategy.positions conditions = .ok positions) (hdate : date ∈ dates) :
    positions.get? date = some (strategy.positionOn conditions date) := by
  have hholds : ∀ {text : String} {series : Series Bool},
      Condition.evalText conditions text = .ok series →
        series.get? date = some (conditions.saysOn date text) := by
    intro text series heval
    refine Condition.get?_evalText heval ?_
    rwa [Condition.dates_of_evalText haligned heval]
  have hcomplete := complete_of_positions hpositions
  rw [positions_eq, entryText?] at hpositions
  unfold positionsFrom at hpositions
  unfold positionOn
  -- The cases are those of the positions: the kind, and which formulas are given.
  cases hkind : strategy.kind with
  | longCash =>
      cases hlong : Text.nonBlank? strategy.long with
      | none =>
          cases hexpression : Text.nonBlank? strategy.expression with
          | none => simp [hlong, hexpression] at hpositions
          | some text =>
              simp only [hkind, hlong, hexpression] at hpositions
              obtain ⟨entry, hentry, hresult⟩ := bind_eq_ok_iff.mp hpositions
              cases hresult
              simp only [fieldHolds_of_some hexpression]
              exact get?_longWhere (hholds hentry)
      | some long =>
          simp only [fieldHolds_of_some hlong]
          cases hcash : Text.nonBlank? strategy.cash with
          | none =>
              simp only [hkind, hlong, hcash] at hpositions
              obtain ⟨entry, hentry, hresult⟩ := bind_eq_ok_iff.mp hpositions
              cases hresult
              simp only [fieldHolds_of_none hcash, Bool.not_false, Bool.and_true]
              exact get?_longWhere (hholds hentry)
          | some cash =>
              simp only [hkind, hlong, hcash] at hpositions
              obtain ⟨entry, hentry, hrest⟩ := bind_eq_ok_iff.mp hpositions
              obtain ⟨exit, hexit, hjoin⟩ := bind_eq_ok_iff.mp hrest
              simp only [fieldHolds_of_some hcash]
              exact get?_of_join hjoin (hholds hentry) (hholds hexit)
  | longShort =>
      cases hlong : Text.nonBlank? strategy.long with
      | none => exact absurd hcomplete (not_complete_of_none hlong (Or.inl hkind))
      | some long =>
          cases hshort : Text.nonBlank? strategy.short with
          | none =>
              have hsome := hcomplete.short hkind
              rw [hshort] at hsome
              cases hsome
          | some short =>
              simp only [hkind, hlong, hshort] at hpositions
              obtain ⟨entry, hentry, hrest⟩ := bind_eq_ok_iff.mp hpositions
              obtain ⟨other, hother, hjoin⟩ := bind_eq_ok_iff.mp hrest
              simp only [fieldHolds_of_some hlong, fieldHolds_of_some hshort]
              exact get?_of_join hjoin (hholds hentry) (hholds hother)

/-! ### Formulas that are not used -/

theorem SameRules.symm (hsame : SameRules strategy other) : SameRules other strategy where
  name_eq := hsame.name_eq.symm
  kind_eq := hsame.kind_eq.symm
  long_eq := hsame.long_eq.symm
  cash_eq hkind hlong := (hsame.cash_eq (hsame.kind_eq ▸ hkind) (hsame.long_eq ▸ hlong)).symm
  short_eq hkind := (hsame.short_eq (hsame.kind_eq ▸ hkind)).symm
  expression_eq hkind hlong :=
    (hsame.expression_eq (hsame.kind_eq ▸ hkind) (hsame.long_eq ▸ hlong)).symm

theorem SameRules.entryText?_eq (hsame : SameRules strategy other)
    (hentry : strategy.kind = .longCash ∨ (Text.nonBlank? strategy.long).isSome = true) :
    other.entryText? = strategy.entryText? := by
  rw [entryText?, entryText?, hsame.long_eq]
  cases hlong : Text.nonBlank? strategy.long with
  | some long => rfl
  | none =>
      rcases hentry with hkind | hsome
      · rw [hsame.expression_eq hkind hlong]
      · rw [hlong] at hsome
        cases hsome

theorem SameRules.positionsFrom_eq (hsame : SameRules strategy other) (entry : Series Bool) :
    other.positionsFrom conditions entry = strategy.positionsFrom conditions entry := by
  unfold positionsFrom
  rw [hsame.kind_eq, hsame.long_eq, hsame.name_eq]
  cases hkind : strategy.kind with
  | longCash =>
      cases hlong : Text.nonBlank? strategy.long with
      | none => rfl
      | some long => simp only [hsame.cash_eq hkind (by rw [hlong]; rfl)]
  | longShort =>
      rw [hsame.short_eq hkind]
      cases Text.nonBlank? strategy.long with
      | none => rfl
      | some long => rfl

theorem SameRules.positions_eq_positions (hsame : SameRules strategy other)
    (hentry : strategy.kind = .longCash ∨ (Text.nonBlank? strategy.long).isSome = true) :
    other.positions conditions = strategy.positions conditions := by
  rw [positions_eq, positions_eq, hsame.entryText?_eq hentry, funext hsame.positionsFrom_eq,
    hsame.name_eq]

/-- A strategy that has positions gives the formula that decides its entries. -/
theorem SameRules.positions_eq_ok (hsame : SameRules strategy other)
    (hpositions : strategy.positions conditions = .ok positions) :
    other.positions conditions = .ok positions := by
  rw [hsame.positions_eq_positions, hpositions]
  exact (complete_of_positions hpositions).entry.symm.imp_left And.left

/-- **A strategy means what its formulas say of the day.** Over conditions on common dates a strategy that
gives readable formulas where its kind needs them has positions on these dates. On each date it holds what
the truth of its formulas on that date calls for. Strategies with the same rules have the same positions,
whatever they give in the fields that are not used, and fail for the same reason unless a long formula is
missing where both sides are needed. -/
theorem positions_follow_rules (haligned : conditions.Aligned dates) (strategy : Strategy) :
    ((∃ positions, strategy.positions conditions = .ok positions) ↔
      strategy.Ready conditions.names) ∧
    (∀ positions, strategy.positions conditions = .ok positions → positions.dates = dates ∧
      ∀ date ∈ dates, positions.get? date = some (strategy.positionOn conditions date)) ∧
    ∀ other, SameRules strategy other →
      (∀ positions, other.positions conditions = .ok positions ↔
        strategy.positions conditions = .ok positions) ∧
      (strategy.kind = .longCash ∨ (Text.nonBlank? strategy.long).isSome = true →
        other.positions conditions = strategy.positions conditions) := by
  refine ⟨exists_positions_iff haligned, fun positions hpositions => ?_, fun other hsame => ?_⟩
  · exact ⟨dates_of_positions haligned hpositions,
      fun date hdate => get?_positions haligned hpositions hdate⟩
  · exact ⟨fun positions => ⟨hsame.symm.positions_eq_ok, hsame.positions_eq_ok⟩,
      hsame.positions_eq_positions⟩

namespace Sample

/-- Prices rise on the first two of three days, and steeply on the second. -/
def rise : ConditionSet where
  entries := [("steep", ⟨[(⟨0⟩, false), (⟨1⟩, true), (⟨2⟩, false)], by decide⟩),
    ("up", ⟨[(⟨0⟩, true), (⟨1⟩, true), (⟨2⟩, false)], by decide⟩)]
  ascending := by decide

theorem rise_aligned : rise.Aligned [⟨0⟩, ⟨1⟩, ⟨2⟩] := by
  intro name series hseries
  have hentry : (name, series) ∈ rise.entries := NameTable.get?_eq_some_iff.mp hseries
  simp only [rise, List.mem_cons, List.not_mem_nil, or_false, Prod.mk.injEq] at hentry
  rcases hentry with ⟨rfl, rfl⟩ | ⟨rfl, rfl⟩ <;> rfl

theorem parse_rise : ∀ text ∈ ["up", "steep"],
    ∃ condition, Condition.parse rise.names text = .ok condition := by
  intro text htext
  have hname : Condition.isName text = true ∧ text ∈ rise.names := by
    revert text
    decide
  exact ⟨.atom text, Condition.parse_name hname.1 hname.2⟩

/-- It goes long when prices rise, but not steeply. -/
def careful (short expression : Option String) : Strategy :=
  ⟨"careful", .longCash, some "up", some "steep", short, expression⟩

end Sample

theorem positions_follow_rules_sample :
    Sample.rise.Aligned [⟨0⟩, ⟨1⟩, ⟨2⟩] ∧
    SameRules (Sample.careful none none) (Sample.careful (some "((") (some "unheard of")) ∧
    ∃ positions,
      (Sample.careful (some "((") (some "unheard of")).positions Sample.rise = .ok positions ∧
      positions.dates = [⟨0⟩, ⟨1⟩, ⟨2⟩] ∧
      [⟨0⟩, ⟨1⟩, ⟨2⟩].map positions.get? = [some .long, some .cash, some .cash] := by
  have hsame : SameRules (Sample.careful none none) (Sample.careful (some "((") (some "unheard of")) :=
    ⟨rfl, rfl, rfl, fun _ _ => rfl, nofun, nofun⟩
  obtain ⟨hready, hmeaning, hrules⟩ :=
    positions_follow_rules Sample.rise_aligned (Sample.careful none none)
  obtain ⟨positions, hpositions⟩ := hready.mpr ⟨⟨.inl rfl, nofun⟩, Sample.parse_rise⟩
  obtain ⟨hdates, hheld⟩ := hmeaning positions hpositions
  refine ⟨Sample.rise_aligned, hsame, positions, ((hrules _ hsame).1 positions).mpr hpositions, hdates, ?_⟩
  rw [List.map_congr_left hheld]
  decide +kernel

end Strategy

end Backtest
