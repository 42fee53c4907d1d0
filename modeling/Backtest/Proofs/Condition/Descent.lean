import Backtest.Proofs.Condition.Language
import Backtest.Proofs.Formula.Depth

/-!
# Parsing conditions by recursive descent

The parser keeps its open levels in a list. Written as one procedure for every phrase of the grammar,
it would keep them in the calls that have not come back, and nothing in that program bounds the number
of these calls, or says that its loops end. Here is that program. It runs on fuel, and it records every
call for a formula and every token that it takes. On tokens within the limits it comes back, with the
answer of the parser, from as much fuel as three calls for each token need. The parser's state is the
invariant: a call for a formula is made where the parser has just opened a level, so there are never
more open calls than the parser has levels.
-/

namespace Backtest.Condition

open Formula

/-! ### The program -/

/-- So many calls for a formula have not come back, and so many tokens have been taken. -/
structure Moment where
  active : Nat
  position : Nat
deriving DecidableEq, Repr

/-- The place in the tokens, and the moments when a call began or a token was taken, the last one
first. -/
structure Trail where
  position : Nat
  moments : List Moment
deriving DecidableEq, Repr

namespace Trail

def start : Trail := ⟨0, []⟩

def enter (trail : Trail) (active : Nat) : Trail :=
  { trail with moments := ⟨active, trail.position⟩ :: trail.moments }

def move (trail : Trail) (active : Nat) : Trail :=
  ⟨trail.position + 1, ⟨active, trail.position + 1⟩ :: trail.moments⟩

end Trail

/-- A procedure that reads on from a trail. It does not come back if its fuel, a bound on the calls
inside each other, is used up. -/
abbrev Reader (τ : Type) := ExceptT Refusal (StateT Trail Option) τ

def outOfFuel {τ : Type} : Reader τ := fun _ => none

/-- What the procedures read: the tokens of a text of `length` bytes. -/
structure Descent where
  available : List String
  length : Nat
  tokens : List (Located (Token String))

namespace Descent

def peek (descent : Descent) : Reader (Option (Located (Token String))) := do
  return descent.tokens[(← get).position]?

def advance (descent : Descent) (active : Nat) : Reader (Option (Located (Token String))) := do
  let next ← descent.peek
  if next.isSome then modify (·.move active)
  return next

/-- Takes the next token if it is the wanted one. -/
def consume (descent : Descent) (active : Nat) (wanted : Token String) : Reader Bool := do
  match ← descent.peek with
  | none => return false
  | some next =>
    if next.token = wanted then
      modify (·.move active)
      return true
    else return false

def unexpected (descent : Descent) (wanted : String) : Option (Located (Token String)) → Refusal
  | some ⟨token, position⟩ => ⟨.expected wanted (some (token.text id)), position⟩
  | none => ⟨.expected wanted none, descent.length⟩

def expectClosing (descent : Descent) (active : Nat) : Reader Unit := do
  match ← descent.advance active with
  | some ⟨.closing, _⟩ => return
  | found => throw (descent.unexpected "')'" found)

mutual

/-- The calls for a formula that have not come back are `active` with this one. -/
def formula (descent : Descent) : Nat → Nat → Reader Condition
  | 0, _ => outOfFuel
  | fuel + 1, active => do
    modify (·.enter active)
    let left ← descent.conjunction fuel active
    descent.disjuncts fuel active left
termination_by structural fuel => fuel

/-- The loop over the disjuncts behind the first. -/
def disjuncts (descent : Descent) : Nat → Nat → Condition → Reader Condition
  | 0, _, _ => outOfFuel
  | fuel + 1, active, left => do
    if ← descent.consume active .disjunction then
      let right ← descent.conjunction fuel active
      descent.disjuncts fuel active (.or left right)
    else return left
termination_by structural fuel => fuel

def conjunction (descent : Descent) : Nat → Nat → Reader Condition
  | 0, _ => outOfFuel
  | fuel + 1, active => do
    let left ← descent.primary fuel active
    descent.conjuncts fuel active left
termination_by structural fuel => fuel

/-- The loop over the conjuncts behind the first. -/
def conjuncts (descent : Descent) : Nat → Nat → Condition → Reader Condition
  | 0, _, _ => outOfFuel
  | fuel + 1, active, left => do
    if ← descent.consume active .conjunction then
      let right ← descent.primary fuel active
      descent.conjuncts fuel active (.and left right)
    else return left
termination_by structural fuel => fuel

def primary (descent : Descent) : Nat → Nat → Reader Condition
  | 0, _ => outOfFuel
  | fuel + 1, active => do
    match ← descent.advance active with
    | some ⟨.word name, position⟩ =>
      if descent.available.contains name then return .atom name
      else throw ⟨.unknownCondition name, position⟩
    | some ⟨.opening, _⟩ =>
      let inner ← descent.formula fuel (active + 1)
      descent.expectClosing active
      return inner
    | found => throw (descent.unexpected "condition or '('" found)
termination_by structural fuel => fuel

end

/-- A formula with nothing behind it. -/
def whole (descent : Descent) (fuel : Nat) : Reader Condition := do
  let condition ← descent.formula fuel 1
  match ← descent.peek with
  | some ⟨token, position⟩ => throw ⟨.afterFormula (token.text id), position⟩
  | none => return condition

end Descent

/-! ### Trails -/

/-- A trail through `count` tokens goes forward only, and never into more calls than the limits on
nesting allow. -/
structure Trail.Sound (count : Nat) (trail : Trail) : Prop where
  position_le : trail.position ≤ count
  moment_le : ∀ moment ∈ trail.moments,
    moment.active ≤ maxDepth + 1 ∧ moment.position ≤ trail.position
  ordered : (trail.moments.map Moment.position).Pairwise (· ≥ ·)

namespace Trail.Sound

variable {count active : Nat} {trail : Trail}

theorem start : Trail.start.Sound count := ⟨Nat.zero_le count, List.forall_mem_nil _, .nil⟩

theorem position_ge (htrail : trail.Sound count) {position : Nat}
    (hposition : position ∈ trail.moments.map Moment.position) : position ≤ trail.position := by
  obtain ⟨moment, hmoment, rfl⟩ := List.mem_map.mp hposition
  exact (htrail.moment_le moment hmoment).2

theorem enter (htrail : trail.Sound count) (hactive : active ≤ maxDepth + 1) :
    (trail.enter active).Sound count where
  position_le := htrail.position_le
  moment_le := List.forall_mem_cons.mpr ⟨⟨hactive, Nat.le_refl _⟩, htrail.moment_le⟩
  ordered := .cons (fun _ => htrail.position_ge) htrail.ordered

theorem move (htrail : trail.Sound count) (hactive : active ≤ maxDepth + 1)
    (hposition : trail.position < count) : (trail.move active).Sound count where
  position_le := hposition
  moment_le := by
    refine List.forall_mem_cons.mpr ⟨⟨hactive, Nat.le_refl _⟩, fun moment hmoment => ?_⟩
    obtain ⟨hmoment, hbefore⟩ := htrail.moment_le moment hmoment
    exact ⟨hmoment, Nat.le_succ_of_le hbefore⟩
  ordered := .cons (fun _ hposition => Nat.le_succ_of_le (htrail.position_ge hposition)) htrail.ordered

end Trail.Sound

namespace Descent

variable {descent : Descent} {τ σ : Type} {active : Nat} {trail : Trail}

/-! ### Procedures that come back -/

/-- The procedure comes back from a sound trail, with a value and a place as described, or with the
refusal of the parser. -/
def Serves (descent : Descent) (reader : Reader τ) (trail : Trail) (reached : τ → Nat → Prop) : Prop :=
  ∃ outcome last, reader.run.run trail = some (outcome, last) ∧ last.Sound descent.tokens.length ∧
    match outcome with
    | .ok value => trail.position ≤ last.position ∧ reached value last.position
    | .error refusal =>
      ofTokens (operands descent.available) descent.length descent.tokens = .error refusal

namespace Serves

theorem bind {reader : Reader τ} {next : τ → Reader σ} {middle : τ → Nat → Prop}
    {reached : σ → Nat → Prop} (hreader : descent.Serves reader trail middle)
    (hnext : ∀ value last, last.Sound descent.tokens.length → trail.position ≤ last.position →
      middle value last.position → descent.Serves (next value) last reached) :
    descent.Serves (reader >>= next) trail reached := by
  obtain ⟨outcome, between, hrun, hbetween, houtcome⟩ := hreader
  cases outcome with
  | error refusal =>
      refine ⟨.error refusal, between, ?_, hbetween, houtcome⟩
      rw [ExceptT.run_bind, StateT.run_bind, hrun]
      rfl
  | ok value =>
      obtain ⟨hforward, hmiddle⟩ := houtcome
      obtain ⟨outcome, last, hlater, hlast, houtcome⟩ := hnext value between hbetween hforward hmiddle
      refine ⟨outcome, last, ?_, hlast, ?_⟩
      · rw [ExceptT.run_bind, StateT.run_bind, hrun]
        exact hlater
      · cases outcome with
        | error refusal => exact houtcome
        | ok result => exact ⟨hforward.trans houtcome.1, houtcome.2⟩

theorem of_pure {value : τ} {reached : τ → Nat → Prop} (htrail : trail.Sound descent.tokens.length)
    (hreached : reached value trail.position) : descent.Serves (pure value) trail reached :=
  ⟨.ok value, trail, rfl, htrail, Nat.le_refl _, hreached⟩

theorem of_throw {refusal : Refusal} {reached : τ → Nat → Prop}
    (htrail : trail.Sound descent.tokens.length)
    (hrefusal : ofTokens (operands descent.available) descent.length descent.tokens = .error refusal) :
    descent.Serves (throw refusal) trail reached :=
  ⟨.error refusal, trail, rfl, htrail, hrefusal⟩

theorem of_enter (htrail : trail.Sound descent.tokens.length) (hactive : active ≤ maxDepth + 1) :
    descent.Serves (modify (·.enter active)) trail fun _ position => position = trail.position :=
  ⟨.ok (), trail.enter active, rfl, htrail.enter hactive, Nat.le_refl _, rfl⟩

theorem of_move (htrail : trail.Sound descent.tokens.length) (hactive : active ≤ maxDepth + 1)
    {next : Located (Token String)} (hnext : descent.tokens[trail.position]? = some next) :
    descent.Serves (modify (·.move active)) trail fun _ position => position = trail.position + 1 := by
  obtain ⟨hposition, _⟩ := List.getElem?_eq_some_iff.mp hnext
  exact ⟨.ok (), trail.move active, rfl, htrail.move hactive hposition, Nat.le_succ _, rfl⟩

theorem of_peek (htrail : trail.Sound descent.tokens.length) :
    descent.Serves descent.peek trail fun found position =>
      found = descent.tokens[trail.position]? ∧ position = trail.position :=
  ⟨.ok _, trail, rfl, htrail, Nat.le_refl _, rfl, rfl⟩

end Serves

/-- What `advance` finds at a place, and the place behind it. -/
inductive Advanced (descent : Descent) (count : Nat) : Option (Located (Token String)) → Nat → Prop
  | none {behind : Nat} (hend : descent.tokens[count]? = none) (hbehind : behind = count) :
      Advanced descent count none behind
  | some {next : Located (Token String)} {behind : Nat} (hnext : descent.tokens[count]? = some next)
      (hbehind : behind = count + 1) : Advanced descent count (some next) behind

theorem of_advanced_some {count behind : Nat} {next : Located (Token String)}
    (hadvanced : descent.Advanced count (some next) behind) :
    descent.tokens[count]? = some next ∧ behind = count + 1 := by
  obtain _ | ⟨hnext, hbehind⟩ := hadvanced
  exact ⟨hnext, hbehind⟩

/-- What `consume` answers at a place, and the place behind it. -/
inductive Consumed (descent : Descent) (wanted : Token String) (count : Nat) : Bool → Nat → Prop
  | no {behind : Nat} (hother : ∀ next, descent.tokens[count]? = some next → next.token ≠ wanted)
      (hbehind : behind = count) : Consumed descent wanted count false behind
  | yes {next : Located (Token String)} {behind : Nat} (hnext : descent.tokens[count]? = some next)
      (hwanted : next.token = wanted) (hbehind : behind = count + 1) :
      Consumed descent wanted count true behind

theorem serves_advance (htrail : trail.Sound descent.tokens.length) (hactive : active ≤ maxDepth + 1) :
    descent.Serves (descent.advance active) trail (descent.Advanced trail.position) := by
  refine (Serves.of_peek htrail).bind ?_
  rintro found last hlast _ ⟨rfl, hposition⟩
  rw [← hposition]
  cases hnext : descent.tokens[last.position]? with
  | none => exact .of_pure hlast (.none hnext rfl)
  | some next =>
      refine (Serves.of_move hlast hactive hnext).bind fun _ behind hbehind _ hmoved => ?_
      exact .of_pure hbehind (.some hnext hmoved)

theorem serves_consume (htrail : trail.Sound descent.tokens.length) (hactive : active ≤ maxDepth + 1)
    (wanted : Token String) :
    descent.Serves (descent.consume active wanted) trail (descent.Consumed wanted trail.position) := by
  refine (Serves.of_peek htrail).bind ?_
  rintro found last hlast _ ⟨rfl, hposition⟩
  rw [← hposition]
  cases hnext : descent.tokens[last.position]? with
  | none => exact .of_pure hlast (.no (by simp [hnext]) rfl)
  | some next =>
      by_cases hwanted : next.token = wanted
      · simp only [if_pos hwanted]
        refine (Serves.of_move hlast hactive hnext).bind fun _ behind hbehind _ hmoved => ?_
        exact .of_pure hbehind (.yes hnext hwanted hmoved)
      · simp only [if_neg hwanted]
        exact .of_pure hlast (.no (by simpa [hnext] using hwanted) rfl)

/-! ### The phrases -/

/-- The parser holds the state behind so many tokens. -/
def Holds (descent : Descent) (count : Nat) (state : State Empty String) : Prop :=
  State.Holds (operands descent.available) descent.tokens count state

/-- The parser is behind a finished conjunction. -/
inductive Conjoined (descent : Descent) (disjuncts : Option Condition) (outer : List (Level String)) :
    Condition → Nat → Prop
  | intro {conjuncts : Option Condition} {operand : Condition} {count : Nat}
      (hstate : descent.Holds count ⟨⟨disjuncts, conjuncts⟩, outer, .connective operand⟩)
      (hconjunction : ∀ next, descent.tokens[count]? = some next → next.token ≠ .conjunction) :
      Conjoined descent disjuncts outer (Level.conjunctionWith ⟨disjuncts, conjuncts⟩ operand) count

/-- The parser is behind a finished formula. -/
inductive Finished (descent : Descent) (outer : List (Level String)) : Condition → Nat → Prop
  | intro {level : Level String} {operand : Condition} {count : Nat}
      (hstate : descent.Holds count ⟨level, outer, .connective operand⟩)
      (hconjunction : ∀ next, descent.tokens[count]? = some next → next.token ≠ .conjunction)
      (hdisjunction : ∀ next, descent.tokens[count]? = some next → next.token ≠ .disjunction) :
      Finished descent outer (level.formulaWith operand) count

theorem Holds.active_le {level : Level String} {outer : List (Level String)}
    {stage : Stage Empty String} {count : Nat} (hstate : descent.Holds count ⟨level, outer, stage⟩)
    (hlimits : checkLimits descent.tokens = .ok ()) : outer.length + 1 ≤ maxDepth + 1 :=
  Nat.succ_le_succ (State.Holds.length_outer_le hstate hlimits)

theorem Holds.behind {state after : State Empty String} {count position : Nat}
    {next : Located (Token String)} (hstate : descent.Holds count state)
    (hnext : descent.tokens[count]? = some next) (hposition : position = count + 1)
    (hstep : state.step (operands descent.available) next.token = .ok after) :
    descent.Holds position after := by
  subst hposition
  exact hstate.step hnext hstep

/-- What does not fit is the refusal of the parser, be it a token or the end of the text. -/
theorem Holds.refuses {state : State Empty String} {count behind : Nat} {wanted : String}
    {found : Option (Located (Token String))} (hstate : descent.Holds count state)
    (hfound : descent.Advanced count found behind)
    (hend : state.finish (operands descent.available) = .error (.expected wanted none))
    (hstep : ∀ next, found = some next → state.step (operands descent.available) next.token =
      .error (State.expected (operands descent.available) wanted next.token)) :
    ofTokens (operands descent.available) descent.length descent.tokens =
      .error (descent.unexpected wanted found) := by
  cases hfound with
  | none hnone =>
      rw [hstate.ofTokens_eq_finish hnone, hend]
      rfl
  | some hnext => exact hstate.ofTokens_eq_error hnext (hstep _ rfl)

section Phrases

variable {level : Level String} {outer : List (Level String)} {fuel : Nat}

theorem serves_expectClosing {inner : Condition} (htrail : trail.Sound descent.tokens.length)
    (hactive : active ≤ maxDepth + 1)
    (hinner : descent.Finished (level :: outer) inner trail.position) :
    descent.Serves (descent.expectClosing active) trail fun _ position =>
      descent.Holds position ⟨level, outer, .connective inner⟩ := by
  obtain ⟨hstate, hconjunction, hdisjunction⟩ := hinner
  refine (serves_advance htrail hactive).bind fun found last hlast _ hfound => ?_
  rcases found with _ | ⟨token, position⟩
  · exact .of_throw hlast (hstate.refuses hfound rfl (by simp))
  obtain ⟨hnext, hbehind⟩ := of_advanced_some hfound
  cases token with
  | closing => exact .of_pure hlast (hstate.behind hnext hbehind rfl)
  | conjunction => exact absurd rfl (hconjunction _ hnext)
  | disjunction => exact absurd rfl (hdisjunction _ hnext)
  | word | opening =>
      refine .of_throw hlast (hstate.refuses hfound rfl ?_)
      rintro _ ⟨⟩
      rfl

/-- The fuel is enough for every phrase that is read where the parser expects it: a token that is
still to be read takes three calls at most, one for each kind of phrase. -/
structure Suffices (descent : Descent) (fuel : Nat) : Prop where
  formula {trail : Trail} {outer : List (Level String)} (htrail : trail.Sound descent.tokens.length)
    (hfuel : 3 * (descent.tokens.length - trail.position) + 3 ≤ fuel)
    (hstate : descent.Holds trail.position ⟨Level.fresh, outer, .operand⟩) :
    descent.Serves (descent.formula fuel (outer.length + 1)) trail (descent.Finished outer)
  disjuncts {trail : Trail} {level : Level String} {outer : List (Level String)} {operand : Condition}
    (htrail : trail.Sound descent.tokens.length)
    (hfuel : 3 * (descent.tokens.length - trail.position) + 1 ≤ fuel)
    (hstate : descent.Holds trail.position ⟨level, outer, .connective operand⟩)
    (hconjunction : ∀ next, descent.tokens[trail.position]? = some next → next.token ≠ .conjunction) :
    descent.Serves (descent.disjuncts fuel (outer.length + 1) (level.formulaWith operand)) trail
      (descent.Finished outer)
  conjunction {trail : Trail} {disjuncts : Option Condition} {outer : List (Level String)}
    (htrail : trail.Sound descent.tokens.length)
    (hfuel : 3 * (descent.tokens.length - trail.position) + 2 ≤ fuel)
    (hstate : descent.Holds trail.position ⟨⟨disjuncts, none⟩, outer, .operand⟩) :
    descent.Serves (descent.conjunction fuel (outer.length + 1)) trail
      (descent.Conjoined disjuncts outer)
  conjuncts {trail : Trail} {disjuncts conjuncts : Option Condition} {outer : List (Level String)}
    {operand : Condition} (htrail : trail.Sound descent.tokens.length)
    (hfuel : 3 * (descent.tokens.length - trail.position) + 1 ≤ fuel)
    (hstate : descent.Holds trail.position ⟨⟨disjuncts, conjuncts⟩, outer, .connective operand⟩) :
    descent.Serves (descent.conjuncts fuel (outer.length + 1)
      (Level.conjunctionWith ⟨disjuncts, conjuncts⟩ operand)) trail (descent.Conjoined disjuncts outer)
  primary {trail : Trail} {level : Level String} {outer : List (Level String)}
    (htrail : trail.Sound descent.tokens.length)
    (hfuel : 3 * (descent.tokens.length - trail.position) + 1 ≤ fuel)
    (hstate : descent.Holds trail.position ⟨level, outer, .operand⟩) :
    descent.Serves (descent.primary fuel (outer.length + 1)) trail fun tree position =>
      descent.Holds position ⟨level, outer, .connective tree⟩

theorem suffices_zero : descent.Suffices 0 where
  formula _ hfuel := absurd hfuel (by omega)
  disjuncts _ hfuel := absurd hfuel (by omega)
  conjunction _ hfuel := absurd hfuel (by omega)
  conjuncts _ hfuel := absurd hfuel (by omega)
  primary _ hfuel := absurd hfuel (by omega)

variable (hlimits : checkLimits descent.tokens = .ok ()) (hsuffices : descent.Suffices fuel)
include hsuffices

theorem serves_conjunction {disjuncts : Option Condition} (htrail : trail.Sound descent.tokens.length)
    (hfuel : 3 * (descent.tokens.length - trail.position) + 2 ≤ fuel + 1)
    (hstate : descent.Holds trail.position ⟨⟨disjuncts, none⟩, outer, .operand⟩) :
    descent.Serves (descent.conjunction (fuel + 1) (outer.length + 1)) trail
      (descent.Conjoined disjuncts outer) := by
  rw [conjunction]
  refine (hsuffices.primary htrail (by omega) hstate).bind fun left last hlast hforward hleft => ?_
  exact hsuffices.conjuncts hlast (by omega) hleft

include hlimits

theorem serves_formula (htrail : trail.Sound descent.tokens.length)
    (hfuel : 3 * (descent.tokens.length - trail.position) + 3 ≤ fuel + 1)
    (hstate : descent.Holds trail.position ⟨Level.fresh, outer, .operand⟩) :
    descent.Serves (descent.formula (fuel + 1) (outer.length + 1)) trail (descent.Finished outer) := by
  rw [formula]
  refine (Serves.of_enter htrail (hstate.active_le hlimits)).bind fun _ between hbetween _ hentered => ?_
  rw [← hentered] at hfuel hstate
  refine (hsuffices.conjunction hbetween (by omega) hstate).bind fun left last hlast hforward hleft => ?_
  obtain ⟨hstate, hconjunction⟩ := hleft
  exact hsuffices.disjuncts hlast (by omega) hstate hconjunction

theorem serves_disjuncts {operand : Condition} (htrail : trail.Sound descent.tokens.length)
    (hfuel : 3 * (descent.tokens.length - trail.position) + 1 ≤ fuel + 1)
    (hstate : descent.Holds trail.position ⟨level, outer, .connective operand⟩)
    (hconjunction : ∀ next, descent.tokens[trail.position]? = some next → next.token ≠ .conjunction) :
    descent.Serves (descent.disjuncts (fuel + 1) (outer.length + 1) (level.formulaWith operand)) trail
      (descent.Finished outer) := by
  rw [disjuncts]
  refine (serves_consume htrail (hstate.active_le hlimits) .disjunction).bind
    fun answer between hbetween _ hanswer => ?_
  have hwithin := hbetween.position_le
  cases hanswer with
  | no hother hbehind =>
      refine .of_pure hbetween ?_
      rw [hbehind]
      exact .intro hstate hconjunction hother
  | @yes next _ hnext hwanted hbehind =>
      have hdue : descent.Holds between.position
          ⟨⟨some (level.formulaWith operand), none⟩, outer, .operand⟩ :=
        hstate.behind hnext hbehind (by rw [hwanted]; rfl)
      refine (hsuffices.conjunction hbetween (by omega) hdue).bind
        fun right last hlast hforward hright => ?_
      obtain ⟨hstate, hconjunction⟩ := hright
      exact hsuffices.disjuncts hlast (by omega) hstate hconjunction

theorem serves_conjuncts {disjuncts conjuncts : Option Condition} {operand : Condition}
    (htrail : trail.Sound descent.tokens.length)
    (hfuel : 3 * (descent.tokens.length - trail.position) + 1 ≤ fuel + 1)
    (hstate : descent.Holds trail.position ⟨⟨disjuncts, conjuncts⟩, outer, .connective operand⟩) :
    descent.Serves (descent.conjuncts (fuel + 1) (outer.length + 1)
      (Level.conjunctionWith ⟨disjuncts, conjuncts⟩ operand)) trail
      (descent.Conjoined disjuncts outer) := by
  rw [Descent.conjuncts]
  refine (serves_consume htrail (hstate.active_le hlimits) .conjunction).bind
    fun answer between hbetween _ hanswer => ?_
  have hwithin := hbetween.position_le
  cases hanswer with
  | no hother hbehind =>
      refine .of_pure hbetween ?_
      rw [hbehind]
      exact .intro hstate hother
  | @yes next _ hnext hwanted hbehind =>
      have hdue : descent.Holds between.position ⟨⟨disjuncts,
          some (Level.conjunctionWith ⟨disjuncts, conjuncts⟩ operand)⟩, outer, .operand⟩ :=
        hstate.behind hnext hbehind (by rw [hwanted]; rfl)
      refine (hsuffices.primary hbetween (by omega) hdue).bind fun right last hlast hforward hright => ?_
      exact hsuffices.conjuncts hlast (by omega) hright

theorem serves_primary (htrail : trail.Sound descent.tokens.length)
    (hfuel : 3 * (descent.tokens.length - trail.position) + 1 ≤ fuel + 1)
    (hstate : descent.Holds trail.position ⟨level, outer, .operand⟩) :
    descent.Serves (descent.primary (fuel + 1) (outer.length + 1)) trail fun tree position =>
      descent.Holds position ⟨level, outer, .connective tree⟩ := by
  have hactive := hstate.active_le hlimits
  rw [primary]
  refine (serves_advance htrail hactive).bind fun found last hlast _ hfound => ?_
  have hwithin := hlast.position_le
  rcases found with _ | ⟨token, position⟩
  · exact .of_throw hlast (hstate.refuses hfound rfl (by simp))
  obtain ⟨hnext, hbehind⟩ := of_advanced_some hfound
  cases token with
  | word name =>
      by_cases hname : descent.available.contains name = true
      · have hword : (operands descent.available).start name = .ok (.inr name) := if_pos hname
        simp only [if_pos hname]
        refine .of_pure hlast (hstate.behind hnext hbehind ?_)
        simp only [State.step, hword]
        rfl
      · have hword : (operands descent.available).start name = .error (.unknownCondition name) :=
          if_neg hname
        simp only [if_neg hname]
        refine .of_throw hlast (hstate.ofTokens_eq_error hnext ?_)
        simp only [State.step, hword]
        rfl
  | opening =>
      have hopened : descent.Holds last.position ⟨Level.fresh, level :: outer, .operand⟩ :=
        hstate.behind hnext hbehind rfl
      refine (hsuffices.formula hlast (by omega) hopened).bind fun inner between hbetween _ hinner => ?_
      refine (serves_expectClosing hbetween hactive hinner).bind fun _ closed hclosed _ hstate => ?_
      exact .of_pure hclosed hstate
  | conjunction | disjunction | closing =>
      refine .of_throw hlast (hstate.refuses hfound rfl ?_)
      rintro _ ⟨⟩
      rfl

omit hsuffices

theorem suffices_all (fuel : Nat) : descent.Suffices fuel := by
  -- Every procedure calls the others with one unit of fuel less.
  induction fuel with
  | zero => exact suffices_zero
  | succ fuel ih =>
      exact ⟨serves_formula hlimits ih, serves_disjuncts hlimits ih, serves_conjunction ih,
        serves_conjuncts hlimits ih, serves_primary hlimits ih⟩

end Phrases

theorem serves_whole (descent : Descent) (hlimits : checkLimits descent.tokens = .ok ()) {fuel : Nat}
    (hfuel : 3 * descent.tokens.length + 3 ≤ fuel) :
    descent.Serves (descent.whole fuel) .start fun tree _ =>
      ofTokens (operands descent.available) descent.length descent.tokens = .ok tree := by
  refine ((suffices_all hlimits fuel).formula .start hfuel .start).bind
    fun tree last hlast _ hfinished => ?_
  obtain ⟨hstate, hconjunction, hdisjunction⟩ := hfinished
  refine (Serves.of_peek hlast).bind ?_
  rintro found behind hbehind _ ⟨rfl, _⟩
  cases hnext : descent.tokens[last.position]? with
  | none =>
      refine .of_pure hbehind ?_
      rw [hstate.ofTokens_eq_finish hnext]
      rfl
  | some next =>
      obtain ⟨token, position⟩ := next
      refine .of_throw hbehind (hstate.ofTokens_eq_error hnext ?_)
      cases token with
      | conjunction => exact absurd rfl (hconjunction _ hnext)
      | disjunction => exact absurd rfl (hdisjunction _ hnext)
      | word | opening | closing => rfl

/-! ### More fuel -/

/-- Where the first procedure comes back, the second comes back in the same way. -/
def Extends (first second : Reader τ) : Prop :=
  ∀ trail result, first.run.run trail = some result → second.run.run trail = some result

theorem Extends.refl (reader : Reader τ) : Extends reader reader := fun _ _ hresult => hresult

theorem Extends.trans {first second third : Reader τ} (hfirst : Extends first second)
    (hsecond : Extends second third) : Extends first third :=
  fun trail result hresult => hsecond trail result (hfirst trail result hresult)

theorem Extends.of_outOfFuel (reader : Reader τ) : Extends outOfFuel reader :=
  fun _ _ hresult => absurd hresult (by rintro ⟨⟩)

theorem Extends.bind {first second : Reader τ} {next later : τ → Reader σ}
    (hreader : Extends first second) (hnext : ∀ value, Extends (next value) (later value)) :
    Extends (first >>= next) (second >>= later) := by
  intro trail result hresult
  rw [ExceptT.run_bind, StateT.run_bind] at hresult ⊢
  obtain ⟨⟨outcome, between⟩, hrun, hrest⟩ := Option.bind_eq_some_iff.mp hresult
  refine Option.bind_eq_some_iff.mpr ⟨_, hreader trail _ hrun, ?_⟩
  cases outcome with
  | error refusal => exact hrest
  | ok value => exact hnext value between result hrest

/-- With one unit of fuel more, every procedure that comes back still does so in the same way. -/
structure Steady (descent : Descent) (fuel : Nat) : Prop where
  formula (active : Nat) : Extends (descent.formula fuel active) (descent.formula (fuel + 1) active)
  disjuncts (active : Nat) (left : Condition) :
    Extends (descent.disjuncts fuel active left) (descent.disjuncts (fuel + 1) active left)
  conjunction (active : Nat) :
    Extends (descent.conjunction fuel active) (descent.conjunction (fuel + 1) active)
  conjuncts (active : Nat) (left : Condition) :
    Extends (descent.conjuncts fuel active left) (descent.conjuncts (fuel + 1) active left)
  primary (active : Nat) : Extends (descent.primary fuel active) (descent.primary (fuel + 1) active)

theorem Steady.succ {fuel : Nat} (hsteady : descent.Steady fuel) : descent.Steady (fuel + 1) where
  formula active := .bind (.refl _) fun _ =>
    .bind (hsteady.conjunction active) fun left => hsteady.disjuncts active left
  disjuncts active left := by
    refine .bind (.refl _) fun answer => ?_
    cases answer with
    | false => exact .refl _
    | true => exact .bind (hsteady.conjunction active) fun right => hsteady.disjuncts active _
  conjunction active := .bind (hsteady.primary active) fun left => hsteady.conjuncts active left
  conjuncts active left := by
    refine .bind (.refl _) fun answer => ?_
    cases answer with
    | false => exact .refl _
    | true => exact .bind (hsteady.primary active) fun right => hsteady.conjuncts active _
  primary active := by
    refine .bind (.refl _) fun found => ?_
    rcases found with _ | ⟨token, position⟩
    · exact .refl _
    cases token with
    | opening => exact .bind (hsteady.formula (active + 1)) fun inner => .refl _
    | word | conjunction | disjunction | closing => exact .refl _

theorem steady (descent : Descent) (fuel : Nat) : descent.Steady fuel := by
  induction fuel with
  | zero =>
      exact ⟨fun _ => .of_outOfFuel _, fun _ _ => .of_outOfFuel _, fun _ => .of_outOfFuel _,
        fun _ _ => .of_outOfFuel _, fun _ => .of_outOfFuel _⟩
  | succ fuel ih => exact ih.succ

theorem whole_extends (descent : Descent) {fuel more : Nat} (hle : fuel ≤ more) :
    Extends (descent.whole fuel) (descent.whole more) := by
  induction more, hle using Nat.le_induction with
  | base => exact .refl _
  | succ more _ ih => exact ih.trans (.bind ((descent.steady more).formula 1) fun _ => .refl _)

end Descent

/-! ### The bounds -/

variable {tokens : List (Located (Token String))}

theorem length_atoms_le {available : List String} {length : Nat} {condition : Condition}
    (hlimits : checkLimits tokens = .ok ())
    (hcondition : ofTokens (operands available) length tokens = .ok condition) :
    condition.atoms.length ≤ 25 := by
  have hatoms := (ofTokens_eq_ok_iff.mp hcondition).two_mul_length_atoms_le
    fun words name hreads => by simp [(reads_iff.mp hreads).1]
  have hlength : tokens.length ≤ 50 := (checkLimits_eq_ok_iff_none.mp hlimits).1
  rw [List.length_map] at hatoms
  omega

/-- **Bounded recursion.** On tokens within the limits, whether their parentheses match or not, the
descent comes back with the answer of the parser, and fuel beyond three calls for each token changes
nothing. At no moment are more than 7 calls for a formula open, the place never goes back and never past
the last token, the parser never holds more than 7 levels, and a tree has at most 25 leaves. -/
theorem descent_bounded (hlimits : checkLimits tokens = .ok ()) (available : List String)
    (length : Nat) :
    (∃ last : Trail,
      (∀ fuel, 3 * tokens.length + 3 ≤ fuel →
        (Descent.whole ⟨available, length, tokens⟩ fuel).run.run .start =
          some (ofTokens (operands available) length tokens, last)) ∧
      (∀ moment ∈ last.moments, moment.active ≤ 7 ∧ moment.position ≤ tokens.length) ∧
      (last.moments.map Moment.position).Pairwise (· ≥ ·)) ∧
    (∀ front state, front <+: tokens.map Located.token →
      State.start.after (operands available) front = .ok state → state.outer.length + 1 ≤ 7) ∧
    ∀ condition, ofTokens (operands available) length tokens = .ok condition →
      condition.atoms.length ≤ 25 := by
  refine ⟨?_, fun front state hfront hstate => ?_, fun condition => length_atoms_le hlimits⟩
  · obtain ⟨outcome, last, hrun, hlast, houtcome⟩ :=
      Descent.serves_whole ⟨available, length, tokens⟩ hlimits (Nat.le_refl _)
    refine ⟨last, fun fuel hfuel => ?_, fun moment hmoment => ?_, hlast.ordered⟩
    · rw [Descent.whole_extends _ hfuel _ _ hrun]
      cases outcome with
      | error refusal => rw [houtcome]
      | ok tree => rw [houtcome.2]
    · obtain ⟨hactive, hposition⟩ := hlast.moment_le moment hmoment
      exact ⟨hactive, hposition.trans hlast.position_le⟩
  · exact Nat.succ_le_succ (State.length_outer_le hlimits hfront hstate)

namespace Sample

/-- The tokens of `((((((up)`. -/
def unclosed : List (Located (Token String)) :=
  (List.range 6).map (⟨.opening, ·⟩) ++ [⟨.word "up", 6⟩, ⟨.closing, 8⟩]

end Sample

theorem descent_bounded_unclosed :
    checkLimits Sample.unclosed = .ok () ∧
      (∃ last : Trail,
        (Descent.whole ⟨["up"], 9, Sample.unclosed⟩ 27).run.run .start =
          some (.error ⟨.expected "')'" none, 9⟩, last) ∧
        (∀ moment ∈ last.moments, moment.active ≤ 7 ∧ moment.position ≤ 8) ∧ ⟨7, 6⟩ ∈ last.moments) ∧
      ∃ state, State.start.after (operands ["up"]) (List.replicate 6 .opening) = .ok state ∧
        state.outer.length + 1 = 7 := by
  have hlimits : checkLimits Sample.unclosed = .ok () := by decide
  have hdeepest : ((Descent.whole ⟨["up"], 9, Sample.unclosed⟩ 27).run.run .start).map
      (fun result => result.2.moments.contains ⟨7, 6⟩) = some true := rfl
  obtain ⟨⟨last, hrun, hmoments, _⟩, _⟩ := descent_bounded hlimits ["up"] 9
  rw [hrun 27 (by decide)] at hdeepest
  exact ⟨hlimits, ⟨last, hrun 27 (by decide), hmoments, by simpa using hdeepest⟩, _, rfl, rfl⟩

end Backtest.Condition
