import Backtest.Proofs.Formula.Limits
import Backtest.Proofs.Formula.Parsing

/-!
# The size of what the parser holds

The levels that the parser keeps are the parentheses that are open, and the level of the whole text. On
tokens within the limits there are never more of them than the limits allow, whether or not the
parentheses match in the end. The operands of a formula, too, are bounded by its tokens.
-/

namespace Backtest.Formula

variable {ω π β : Type} {language : Operands ω π β}

/-! ### Levels -/

namespace State

variable {state next : State π β} {token : Token ω} {tokens : List (Token ω)}

theorem length_outer_of_afterOperand {operand : Formula β}
    (hnext : state.afterOperand language operand token = .ok next) :
    next.outer.length + closings [token] = state.outer.length + openings [token] := by
  obtain ⟨level, outer, stage⟩ := state
  cases token with
  | conjunction | disjunction =>
      cases hnext
      rfl
  | closing =>
      cases outer with
      | nil => cases hnext
      | cons level outer =>
          cases hnext
          rfl
  | word | opening => cases outer <;> cases hnext

@[simp]
theorem take_outer (state : State π β) (result : π ⊕ β) : (state.take result).outer = state.outer := by
  cases result <;> rfl

/-- A step opens a level for an opening parenthesis and leaves one for a closing parenthesis. -/
theorem length_outer_of_step (hnext : state.step language token = .ok next) :
    next.outer.length + closings [token] = state.outer.length + openings [token] := by
  cases hstage : state.stage with
  | operand =>
      cases token with
      | word word =>
          simp only [step, hstage] at hnext
          obtain ⟨result, _, rfl⟩ := map_eq_ok_iff.mp hnext
          simp
      | opening =>
          simp only [step, hstage] at hnext
          cases hnext
          rfl
      | conjunction | disjunction | closing =>
          simp only [step, hstage] at hnext
          cases hnext
  | within progress =>
      cases token with
      | word word =>
          simp only [step, hstage] at hnext
          cases hresume : language.resume progress word with
          | none =>
              rw [hresume] at hnext
              cases hnext
          | some result =>
              rw [hresume] at hnext
              cases hnext
              simp
      | opening | conjunction | disjunction | closing =>
          simp only [step, hstage] at hnext
          cases hnext
  | connective operand =>
      simp only [step, hstage] at hnext
      exact length_outer_of_afterOperand hnext

theorem length_outer_of_after (hnext : state.after language tokens = .ok next) :
    next.outer.length + closings tokens = state.outer.length + openings tokens := by
  induction tokens generalizing state with
  | nil =>
      cases hnext
      rfl
  | cons token rest ih =>
      obtain ⟨middle, hstep, hrest⟩ := after_cons_eq_ok_iff.mp hnext
      have hfirst := length_outer_of_step hstep
      have hlater := ih hrest
      rw [← List.singleton_append, closings_append, openings_append]
      omega

theorem run_append {first : List (Located (Token ω))}
    (hfirst : state.after language (first.map Located.token) = .ok next) (length : Nat)
    (second : List (Located (Token ω))) :
    state.run language length (first ++ second) = next.run language length second := by
  induction first generalizing state with
  | nil =>
      cases hfirst
      rfl
  | cons located rest ih =>
      obtain ⟨middle, hstep, hrest⟩ := after_cons_eq_ok_iff.mp hfirst
      rw [List.cons_append, run, hstep]
      exact ih hrest

theorem length_outer_le {located : List (Located (Token ω))} (hlimits : checkLimits located = .ok ())
    (htokens : tokens <+: located.map Located.token)
    (hstate : start.after language tokens = .ok state) : state.outer.length ≤ maxDepth := by
  have hlevels := length_outer_of_after hstate
  have hdepth := depth_le_of_firstTooDeep?_eq_none (Nat.zero_le _)
    (checkLimits_eq_ok_iff_none.mp hlimits).2 htokens
  have hstart : (start : State π β).outer.length = 0 := rfl
  omega

end State

/-! ### Operands -/

/-- Between two operands there is a connective, so the operands are at most every other token. -/
theorem Derives.two_mul_length_atoms_le {operand : List ω → β → Prop} {phrase : Phrase}
    {tokens : List (Token ω)} {tree : Formula β} (hderives : Derives operand phrase tokens tree)
    (hoperand : ∀ words value, operand words value → words ≠ []) :
    2 * tree.atoms.length ≤ tokens.length + 1 := by
  induction hderives with
  | @operand words value hwords =>
      have hpositive := List.length_pos_iff.mpr (hoperand words value hwords)
      simp only [atoms, List.length_singleton, List.length_map]
      omega
  | group _ ih =>
      simp only [List.length_cons, List.length_append, List.length_nil]
      omega
  | ofPrimary _ ih => exact ih
  | ofConjunction _ ih => exact ih
  | and _ _ ihleft ihright | or _ _ ihleft ihright =>
      simp only [atoms, List.length_cons, List.length_append]
      omega

/-! ### Between two tokens -/

/-- The parser has read `count` of the tokens and holds the state. -/
def State.Holds (language : Operands ω π β) (located : List (Located (Token ω))) (count : Nat)
    (state : State π β) : Prop :=
  State.start.after language ((located.take count).map Located.token) = .ok state

namespace State.Holds

variable {located : List (Located (Token ω))} {count length : Nat} {state next : State π β}
  {token : Located (Token ω)}

theorem start : Holds language located 0 State.start := State.after_nil

theorem step (hstate : Holds language located count state) (htoken : located[count]? = some token)
    (hstep : state.step language token.token = .ok next) : Holds language located (count + 1) next := by
  rw [Holds, List.take_add_one, htoken, List.map_append, State.after_append hstate]
  exact State.after_cons_eq_ok_iff.mpr ⟨next, hstep, State.after_nil⟩

theorem length_outer_le (hstate : Holds language located count state)
    (hlimits : checkLimits located = .ok ()) : state.outer.length ≤ maxDepth :=
  State.length_outer_le hlimits ((List.take_prefix count located).map Located.token) hstate

theorem ofTokens_eq (hstate : Holds language located count state) :
    ofTokens language length located = state.run language length (located.drop count) := by
  have hrun := State.run_append hstate length (located.drop count)
  rwa [List.take_append_drop] at hrun

theorem ofTokens_eq_error (hstate : Holds language located count state)
    (htoken : located[count]? = some token) {fault : Fault}
    (hstep : state.step language token.token = .error fault) :
    ofTokens language length located = .error ⟨fault, token.position⟩ := by
  obtain ⟨hcount, rfl⟩ := List.getElem?_eq_some_iff.mp htoken
  rw [hstate.ofTokens_eq, List.drop_eq_getElem_cons hcount, State.run, hstep]

theorem ofTokens_eq_finish (hstate : Holds language located count state)
    (hend : located[count]? = none) :
    ofTokens language length located =
      (state.finish language).mapError fun fault => ⟨fault, length⟩ := by
  rw [hstate.ofTokens_eq, List.drop_eq_nil_of_le (List.getElem?_eq_none_iff.mp hend), State.run]

end State.Holds

end Backtest.Formula
