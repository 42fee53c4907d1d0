import Mathlib.Data.List.Infix
import Backtest.Formula
import Backtest.Formula.Token

/-!
# The grammar of formulas

What the tokens of a formula are, said without a parser. An operand is a list of words; which words
stand for which operand is left to the language. The two repetitions of the grammar are written with
the recursion on the left, so a derivation groups connectives of one kind from the left, and `AND` is
below `OR` in every derivation.

Parentheses are counted on the prefixes of a list of tokens. A derived list never closes more of them
than it opened, and in the end it has closed them all.
-/

namespace Backtest.Formula

/-- What a list of tokens is derived as. -/
inductive Phrase
  | formula
  | conjunction
  | primary

variable {ω β : Type}

inductive Derives (operand : List ω → β → Prop) : Phrase → List (Token ω) → Formula β → Prop
  | operand {words : List ω} {value : β} (hoperand : operand words value) :
      Derives operand .primary (words.map .word) (.atom value)
  | group {tokens : List (Token ω)} {tree : Formula β} (hinner : Derives operand .formula tokens tree) :
      Derives operand .primary (.opening :: (tokens ++ [.closing])) tree
  | ofPrimary {tokens : List (Token ω)} {tree : Formula β} (hprimary : Derives operand .primary tokens tree) :
      Derives operand .conjunction tokens tree
  | and {first second : List (Token ω)} {left right : Formula β}
      (hleft : Derives operand .conjunction first left)
      (hright : Derives operand .primary second right) :
      Derives operand .conjunction (first ++ .conjunction :: second) (.and left right)
  | ofConjunction {tokens : List (Token ω)} {tree : Formula β}
      (hconjunction : Derives operand .conjunction tokens tree) : Derives operand .formula tokens tree
  | or {first second : List (Token ω)} {left right : Formula β}
      (hleft : Derives operand .formula first left)
      (hright : Derives operand .conjunction second right) :
      Derives operand .formula (first ++ .disjunction :: second) (.or left right)

/-! ### Parentheses -/

@[simp]
def Token.isOpening : Token ω → Bool
  | .opening => true
  | _ => false

@[simp]
def Token.isClosing : Token ω → Bool
  | .closing => true
  | _ => false

def openings (tokens : List (Token ω)) : Nat := tokens.countP Token.isOpening

def closings (tokens : List (Token ω)) : Nat := tokens.countP Token.isClosing

/-- At no point are more than `bound` parentheses open. -/
def NestsWithin (bound : Nat) (tokens : List (Token ω)) : Prop :=
  ∀ start, start <+: tokens → openings start ≤ closings start + bound

structure Balanced (tokens : List (Token ω)) : Prop where
  closings_le : ∀ start, start <+: tokens → closings start ≤ openings start
  closings_eq : closings tokens = openings tokens

@[simp]
theorem openings_nil : openings ([] : List (Token ω)) = 0 := rfl

@[simp]
theorem closings_nil : closings ([] : List (Token ω)) = 0 := rfl

@[simp]
theorem openings_append (first second : List (Token ω)) :
    openings (first ++ second) = openings first + openings second :=
  List.countP_append

@[simp]
theorem closings_append (first second : List (Token ω)) :
    closings (first ++ second) = closings first + closings second :=
  List.countP_append

@[simp]
theorem openings_cons (token : Token ω) (rest : List (Token ω)) :
    openings (token :: rest) = openings rest + if token.isOpening then 1 else 0 :=
  List.countP_cons

@[simp]
theorem closings_cons (token : Token ω) (rest : List (Token ω)) :
    closings (token :: rest) = closings rest + if token.isClosing then 1 else 0 :=
  List.countP_cons

namespace Balanced

variable {first second tokens : List (Token ω)}

/-- A list without parentheses. -/
theorem of_plain (hplain : ∀ token ∈ tokens, token.isOpening = false ∧ token.isClosing = false) :
    Balanced tokens := by
  have hnone : ∀ start, start <+: tokens → closings start = 0 ∧ openings start = 0 := by
    intro start hstart
    constructor
    · refine List.countP_eq_zero.mpr fun token htoken => ?_
      rw [(hplain token (hstart.subset htoken)).2]
      exact Bool.false_ne_true
    · refine List.countP_eq_zero.mpr fun token htoken => ?_
      rw [(hplain token (hstart.subset htoken)).1]
      exact Bool.false_ne_true
  refine ⟨fun start hstart => ?_, ?_⟩
  · obtain ⟨hclosings, hopenings⟩ := hnone start hstart
    omega
  · obtain ⟨hclosings, hopenings⟩ := hnone tokens List.prefix_rfl
    omega

theorem singleton {token : Token ω} (hopening : token.isOpening = false)
    (hclosing : token.isClosing = false) : Balanced [token] :=
  .of_plain (List.forall_mem_singleton.mpr ⟨hopening, hclosing⟩)

theorem append (hfirst : Balanced first) (hsecond : Balanced second) : Balanced (first ++ second) := by
  refine ⟨fun start hstart => ?_, ?_⟩
  · obtain ⟨tail, htail⟩ := hstart
    rcases List.append_eq_append_iff.mp htail with ⟨middle, rfl, _⟩ | ⟨rest, rfl, hrest⟩
    · exact hfirst.closings_le start (List.prefix_append start middle)
    · have hclosed := hfirst.closings_eq
      have hle := hsecond.closings_le rest ⟨tail, hrest.symm⟩
      rw [closings_append, openings_append]
      omega
  · rw [closings_append, openings_append, hfirst.closings_eq, hsecond.closings_eq]

theorem group (hinner : Balanced tokens) : Balanced (.opening :: (tokens ++ [.closing])) := by
  refine ⟨fun start hstart => ?_, ?_⟩
  · rcases List.prefix_cons_iff.mp hstart with rfl | ⟨rest, rfl, hrest⟩
    · simp
    · suffices hle : closings rest ≤ openings rest + 1 by simpa using hle
      rcases List.prefix_concat_iff.mp hrest with rfl | hrest
      · simp [hinner.closings_eq]
      · exact Nat.le_succ_of_le (hinner.closings_le rest hrest)
  · simp [hinner.closings_eq]

end Balanced

namespace Derives

variable {operand : List ω → β → Prop} {phrase : Phrase} {tokens : List (Token ω)} {tree : Formula β}

theorem balanced (hderives : Derives operand phrase tokens tree) : Balanced tokens := by
  induction hderives with
  | operand =>
      refine .of_plain fun token htoken => ?_
      obtain ⟨word, _, rfl⟩ := List.mem_map.mp htoken
      exact ⟨rfl, rfl⟩
  | group _ ih => exact ih.group
  | ofPrimary _ ih => exact ih
  | and _ _ ihleft ihright =>
      rw [← List.singleton_append]
      exact ihleft.append ((Balanced.singleton rfl rfl).append ihright)
  | ofConjunction _ ih => exact ih
  | or _ _ ihleft ihright =>
      rw [← List.singleton_append]
      exact ihleft.append ((Balanced.singleton rfl rfl).append ihright)

/-- Languages with the same operands have the same formulas. -/
theorem mono {other : List ω → β → Prop} (hoperand : ∀ words value, operand words value → other words value)
    (hderives : Derives operand phrase tokens tree) : Derives other phrase tokens tree := by
  induction hderives with
  | operand hword => exact .operand (hoperand _ _ hword)
  | group _ ih => exact .group ih
  | ofPrimary _ ih => exact .ofPrimary ih
  | and _ _ ihleft ihright => exact .and ihleft ihright
  | ofConjunction _ ih => exact .ofConjunction ih
  | or _ _ ihleft ihright => exact .or ihleft ihright

/-- Every atom of the tree is an operand of the language. -/
theorem exists_operand_of_mem_atoms (hderives : Derives operand phrase tokens tree) {value : β}
    (hvalue : value ∈ tree.atoms) : ∃ words, operand words value := by
  induction hderives with
  | operand hword =>
      rw [atoms, List.mem_singleton] at hvalue
      subst hvalue
      exact ⟨_, hword⟩
  | group _ ih => exact ih hvalue
  | ofPrimary _ ih => exact ih hvalue
  | and _ _ ihleft ihright => exact (List.mem_append.mp hvalue).elim ihleft ihright
  | ofConjunction _ ih => exact ih hvalue
  | or _ _ ihleft ihright => exact (List.mem_append.mp hvalue).elim ihleft ihright

end Derives

end Backtest.Formula
