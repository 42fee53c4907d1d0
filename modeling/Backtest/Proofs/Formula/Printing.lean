import Mathlib.Tactic.Ring
import Backtest.Proofs.Formula.Limits

/-!
# The tokens of a printed formula

A formula is printed with a pair of parentheses for every connective. So its text is a primary of the
grammar, whose one tree is the formula itself. How many tokens there are depends on the number of
connectives alone, and how many parentheses are open at once on the height alone, which is how the two
limits are read off a tree.
-/

namespace Backtest.Formula

variable {ω β : Type}

/-- The tokens of a formula's text, when `words` gives the words of an atom. -/
def printed (words : β → List ω) : Formula β → List (Token ω)
  | atom value => (words value).map .word
  | and left right =>
    .opening :: (left.printed words ++ .conjunction :: right.printed words ++ [.closing])
  | or left right =>
    .opening :: (left.printed words ++ .disjunction :: right.printed words ++ [.closing])

/-! ### The tree -/

theorem derives_printed {operand : List ω → β → Prop} {words : β → List ω} {formula : Formula β}
    (hatoms : ∀ value ∈ formula.atoms, operand (words value) value) :
    Derives operand .primary (formula.printed words) formula := by
  induction formula with
  | atom value => exact .operand (hatoms value (List.mem_singleton.mpr rfl))
  | and left right ihleft ihright =>
      have hleft := ihleft fun value hvalue => hatoms value (List.mem_append_left _ hvalue)
      have hright := ihright fun value hvalue => hatoms value (List.mem_append_right _ hvalue)
      exact .group (.ofConjunction (.and (.ofPrimary hleft) hright))
  | or left right ihleft ihright =>
      have hleft := ihleft fun value hvalue => hatoms value (List.mem_append_left _ hvalue)
      have hright := ihright fun value hvalue => hatoms value (List.mem_append_right _ hvalue)
      exact .group (.or (.ofConjunction (.ofPrimary hleft)) (.ofPrimary hright))

theorem balanced_printed (words : β → List ω) (formula : Formula β) :
    Balanced (formula.printed words) := by
  have hderives : Derives (fun spelled value => spelled = words value) .primary
      (formula.printed words) formula :=
    derives_printed fun _ _ => rfl
  exact hderives.balanced

/-! ### The number of tokens -/

/-- There is one atom more than there are connectives. -/
theorem length_printed {words : β → List ω} {size : Nat} (hsize : ∀ value, (words value).length = size)
    (formula : Formula β) :
    (formula.printed words).length = size + (size + 3) * formula.connectives := by
  induction formula with
  | atom value => simp [printed, connectives, hsize]
  | and left right ihleft ihright | or left right ihleft ihright =>
      simp only [printed, connectives, List.length_cons, List.length_append, List.length_nil, ihleft,
        ihright]
      ring

/-! ### Open parentheses -/

section Nesting

variable {bound : Nat} {first second tokens : List (Token ω)}

theorem nestsWithin_append_iff (hfirst : Balanced first) :
    NestsWithin bound (first ++ second) ↔ NestsWithin bound first ∧ NestsWithin bound second := by
  constructor
  · intro hboth
    refine ⟨fun start hstart => hboth start (hstart.trans (List.prefix_append first second)), ?_⟩
    intro start hstart
    have hle := hboth (first ++ start) ((List.prefix_append_right_inj first).mpr hstart)
    rw [openings_append, closings_append, hfirst.closings_eq] at hle
    omega
  · rintro ⟨hleft, hright⟩ start ⟨tail, htail⟩
    rcases List.append_eq_append_iff.mp htail with ⟨middle, rfl, _⟩ | ⟨rest, rfl, hrest⟩
    · exact hleft start (List.prefix_append start middle)
    · have hle := hright rest ⟨tail, hrest.symm⟩
      rw [openings_append, closings_append, hfirst.closings_eq]
      omega

theorem nestsWithin_of_not_opening (hplain : ∀ token ∈ tokens, token.isOpening = false) :
    NestsWithin bound tokens := by
  intro start hstart
  have hnone : openings start = 0 := by
    refine List.countP_eq_zero.mpr fun token htoken => ?_
    rw [hplain token (hstart.subset htoken)]
    exact Bool.false_ne_true
  omega

/-- One pair of parentheses takes one level of the bound. -/
theorem nestsWithin_group_iff (htokens : Balanced tokens) :
    NestsWithin bound (.opening :: (tokens ++ [.closing])) ↔
      1 ≤ bound ∧ NestsWithin (bound - 1) tokens := by
  constructor
  · intro hgroup
    have hone : 1 ≤ bound := by simpa using hgroup [.opening] (by simp)
    refine ⟨hone, fun start hstart => ?_⟩
    have hprefix : Token.opening :: start <+: .opening :: (tokens ++ [.closing]) :=
      List.cons_prefix_cons.mpr ⟨rfl, hstart.trans (List.prefix_append ..)⟩
    have hle : openings start + 1 ≤ closings start + bound := by simpa using hgroup _ hprefix
    omega
  · rintro ⟨hone, hinner⟩ start hstart
    rcases List.prefix_cons_iff.mp hstart with rfl | ⟨rest, rfl, hrest⟩
    · simp
    suffices hle : openings rest + 1 ≤ closings rest + bound by simpa using hle
    rcases List.prefix_concat_iff.mp hrest with rfl | hrest
    · simp [htokens.closings_eq]
    · have hle := hinner rest hrest
      omega

theorem nestsWithin_connected_iff {connective : Token ω} (hopening : connective.isOpening = false)
    (hclosing : connective.isClosing = false) (hfirst : Balanced first) (hsecond : Balanced second) :
    NestsWithin bound (.opening :: (first ++ connective :: second ++ [.closing])) ↔
      1 ≤ bound ∧ NestsWithin (bound - 1) first ∧ NestsWithin (bound - 1) second := by
  have hconnective : Balanced [connective] := .singleton hopening hclosing
  have hplain : NestsWithin (bound - 1) [connective] :=
    nestsWithin_of_not_opening (List.forall_mem_singleton.mpr hopening)
  rw [← List.singleton_append (l := second),
    nestsWithin_group_iff (hfirst.append (hconnective.append hsecond)), nestsWithin_append_iff hfirst,
    nestsWithin_append_iff hconnective, and_iff_right hplain]

end Nesting

theorem height_pos (formula : Formula β) : 0 < formula.height := by
  cases formula <;> simp only [height] <;> omega

theorem nestsWithin_printed_iff (words : β → List ω) {bound : Nat} (formula : Formula β) :
    NestsWithin bound (formula.printed words) ↔ formula.height ≤ bound + 1 := by
  induction formula generalizing bound with
  | atom value =>
      refine iff_of_true (nestsWithin_of_not_opening fun token htoken => ?_) (by simp [height])
      obtain ⟨word, _, rfl⟩ := List.mem_map.mp htoken
      rfl
  | and left right ihleft ihright | or left right ihleft ihright =>
      have hleft := balanced_printed words left
      have hright := balanced_printed words right
      rw [printed, nestsWithin_connected_iff rfl rfl hleft hright, ihleft, ihright, height]
      have hpositive := left.height_pos
      omega

/-! ### The two limits -/

theorem checkLimits_printed_iff {words : β → List ω} {size : Nat}
    (hsize : ∀ value, (words value).length = size) {formula : Formula β}
    {located : List (Located (Token ω))} (hlocated : located.map Located.token = formula.printed words) :
    checkLimits located = .ok () ↔
      size + (size + 3) * formula.connectives ≤ 50 ∧ formula.height ≤ 7 := by
  have hlength : located.length = size + (size + 3) * formula.connectives := by
    rw [← List.length_map (f := Located.token), hlocated, length_printed hsize]
  rw [checkLimits_eq_ok_iff (hlocated ▸ balanced_printed words formula), hlocated,
    nestsWithin_printed_iff, hlength]
  rfl

end Backtest.Formula
