import Backtest.Formula.Parser
import Backtest.Proofs.Error.Stages
import Backtest.Proofs.Formula.Grammar

/-!
# The parser and the grammar

The parser accepts exactly the derived lists of tokens, and what it builds is the tree of the
derivation. What it holds between two tokens describes the tokens it has read: every level stands for
finished disjuncts and conjuncts with their connectives, and every level further out for an opening
parenthesis behind its own. Every step keeps this description, so an accepted list is derived. In the
other direction a derivation says what the parser holds after its tokens, from whatever it held before.
-/

namespace Backtest.Formula

variable {ω π β : Type} {language : Operands ω π β}

/-! ### Operands -/

/-- What a language makes of some words that it reads from the start of an operand. -/
inductive Operands.ReadsTo (language : Operands ω π β) : List ω → π ⊕ β → Prop
  | start {word : ω} {result : π ⊕ β} (hstart : language.start word = .ok result) :
      ReadsTo language [word] result
  | resume {words : List ω} {progress : π} {word : ω} {result : π ⊕ β}
      (hwords : ReadsTo language words (.inl progress))
      (hresume : language.resume progress word = some result) :
      ReadsTo language (words ++ [word]) result

/-- The words are an operand. -/
def Operands.Reads (language : Operands ω π β) (words : List ω) (value : β) : Prop :=
  language.ReadsTo words (.inr value)

/-! ### Several tokens -/

namespace State

/-- The state after some tokens, wherever they stand in a text. -/
def after (language : Operands ω π β) (state : State π β) (tokens : List (Token ω)) :
    Except Fault (State π β) :=
  tokens.foldlM (step language) state

variable {state next : State π β}

theorem after_nil : state.after language [] = .ok state := rfl

theorem after_cons {token : Token ω} (hstep : state.step language token = .ok next)
    (rest : List (Token ω)) : state.after language (token :: rest) = next.after language rest := by
  simp only [after, List.foldlM_cons, hstep]
  rfl

theorem after_cons_eq_ok_iff {token : Token ω} {rest : List (Token ω)} {last : State π β} :
    state.after language (token :: rest) = .ok last ↔
      ∃ next, state.step language token = .ok next ∧ next.after language rest = .ok last := by
  rw [after, List.foldlM_cons, bind_eq_ok_iff]
  rfl

theorem after_append {first : List (Token ω)} (hfirst : state.after language first = .ok next)
    (second : List (Token ω)) :
    state.after language (first ++ second) = next.after language second := by
  simp only [after, List.foldlM_append] at hfirst ⊢
  rw [hfirst]
  rfl

theorem run_eq_ok_iff {length : Nat} {located : List (Located (Token ω))} {tree : Formula β} :
    state.run language length located = .ok tree ↔
      ∃ last, state.after language (located.map Located.token) = .ok last ∧
        last.finish language = .ok tree := by
  induction located generalizing state with
  | nil =>
      rw [List.map_nil, run, after_nil, mapError_eq_ok_iff]
      simp
  | cons first rest ih =>
      rw [List.map_cons, run]
      cases hstep : state.step language first.token with
      | error fault =>
          simp only [after, List.foldlM_cons, hstep]
          simp [bind, Except.bind]
      | ok next => rw [after_cons hstep, ih]

end State

/-! ### What a state has read -/

/-- The tokens of what stands before the next connective, with the connective behind it. -/
inductive Joined (connective : Token ω) (derives : List (Token ω) → Formula β → Prop) :
    Option (Formula β) → List (Token ω) → Prop
  | none : Joined connective derives none []
  | some {tokens : List (Token ω)} {tree : Formula β} (htree : derives tokens tree) :
      Joined connective derives (some tree) (tokens ++ [connective])

structure Level.HasRead (operand : List ω → β → Prop) (level : Level β)
    (first second : List (Token ω)) : Prop where
  disjuncts : Joined .disjunction (Derives operand .formula) level.disjuncts first
  conjuncts : Joined .conjunction (Derives operand .conjunction) level.conjuncts second

inductive OuterRead (operand : List ω → β → Prop) : List (Level β) → List (Token ω) → Prop
  | none : OuterRead operand [] []
  | cons {level : Level β} {outer : List (Level β)} {before first second : List (Token ω)}
      (houter : OuterRead operand outer before) (hlevel : level.HasRead operand first second) :
      OuterRead operand (level :: outer) (before ++ (first ++ second) ++ [.opening])

def Stage.HasRead (language : Operands ω π β) : Stage π β → List (Token ω) → Prop
  | .operand, tokens => tokens = []
  | .within progress, tokens =>
    ∃ words, language.ReadsTo words (.inl progress) ∧ tokens = words.map .word
  | .connective tree, tokens => Derives language.Reads .primary tokens tree

def State.HasRead (language : Operands ω π β) (state : State π β) (tokens : List (Token ω)) : Prop :=
  ∃ before first second last, tokens = before ++ (first ++ second) ++ last ∧
    OuterRead language.Reads state.outer before ∧ state.level.HasRead language.Reads first second ∧
    state.stage.HasRead language last

namespace Level

variable {operand : List ω → β → Prop} {level : Level β} {first second last : List (Token ω)}
  {tree : Formula β}

theorem fresh_hasRead : (fresh : Level β).HasRead operand [] [] :=
  ⟨.none, .none⟩

theorem HasRead.conjunction (hlevel : level.HasRead operand first second)
    (hlast : Derives operand .primary last tree) :
    Derives operand .conjunction (second ++ last) (level.conjunctionWith tree) := by
  obtain ⟨disjuncts, conjuncts⟩ := level
  cases hlevel.conjuncts with
  | none => exact .ofPrimary hlast
  | some hleft =>
      rw [List.append_assoc, List.singleton_append]
      exact .and hleft hlast

theorem HasRead.formula (hlevel : level.HasRead operand first second)
    (hlast : Derives operand .primary last tree) :
    Derives operand .formula (first ++ (second ++ last)) (level.formulaWith tree) := by
  have hconjunction := hlevel.conjunction hlast
  obtain ⟨disjuncts, conjuncts⟩ := level
  cases hlevel.disjuncts with
  | none => exact .ofConjunction hconjunction
  | some hleft =>
      rw [List.append_assoc, List.singleton_append]
      exact .or hleft hconjunction

end Level

/-! ### Accepted lists are derived -/

namespace State

variable {state next : State π β} {tokens : List (Token ω)} {token : Token ω} {tree : Formula β}

theorem start_hasRead : (start : State π β).HasRead language [] :=
  ⟨[], [], [], [], rfl, .none, Level.fresh_hasRead, rfl⟩

/-- A word has been read on top of the tokens before the operand. -/
theorem take_hasRead {before first second : List (Token ω)} {words : List ω} {result : π ⊕ β}
    (houter : OuterRead language.Reads state.outer before)
    (hlevel : state.level.HasRead language.Reads first second)
    (hwords : language.ReadsTo words result) :
    (state.take result).HasRead language (before ++ (first ++ second) ++ words.map .word) := by
  cases result with
  | inl progress => exact ⟨before, first, second, _, rfl, houter, hlevel, words, hwords, rfl⟩
  | inr value => exact ⟨before, first, second, _, rfl, houter, hlevel, .operand hwords⟩

theorem afterOperand_hasRead {before first second last : List (Token ω)}
    (houter : OuterRead language.Reads state.outer before)
    (hlevel : state.level.HasRead language.Reads first second)
    (hlast : Derives language.Reads .primary last tree)
    (hnext : state.afterOperand language tree token = .ok next) :
    next.HasRead language (before ++ (first ++ second) ++ last ++ [token]) := by
  have hconjunction := hlevel.conjunction hlast
  have hformula := hlevel.formula hlast
  obtain ⟨level, outer, stage⟩ := state
  cases token with
  | conjunction =>
      cases hnext
      refine ⟨before, first, second ++ last ++ [.conjunction], [], ?_, houter,
        ⟨hlevel.disjuncts, .some hconjunction⟩, rfl⟩
      simp only [List.append_assoc, List.append_nil]
  | disjunction =>
      cases hnext
      refine ⟨before, first ++ (second ++ last) ++ [.disjunction], [], [], ?_, houter,
        ⟨.some hformula, .none⟩, rfl⟩
      simp only [List.append_assoc, List.append_nil]
  | closing =>
      cases houter with
      | none => cases hnext
      | @cons _ _ before first' second' houter hlevel' =>
          cases hnext
          refine ⟨before, first', second', .opening :: (first ++ (second ++ last) ++ [Token.closing]),
            ?_, houter, hlevel', .group hformula⟩
          simp only [List.append_assoc, List.cons_append, List.nil_append]
  | word | opening => cases outer <;> cases hnext

theorem step_hasRead (hstate : state.HasRead language tokens)
    (hnext : state.step language token = .ok next) : next.HasRead language (tokens ++ [token]) := by
  obtain ⟨before, first, second, last, rfl, houter, hlevel, hlast⟩ := hstate
  cases hstage : state.stage with
  | operand =>
      rw [hstage] at hlast
      cases hlast
      rw [List.append_nil]
      cases token with
      | word word =>
          simp only [step, hstage] at hnext
          cases hstart : language.start word with
          | error fault =>
              rw [hstart] at hnext
              cases hnext
          | ok result =>
              rw [hstart] at hnext
              cases hnext
              exact take_hasRead houter hlevel (.start hstart)
      | opening =>
          simp only [step, hstage] at hnext
          cases hnext
          refine ⟨_, [], [], [], ?_, .cons houter hlevel, Level.fresh_hasRead, rfl⟩
          simp only [List.append_nil]
      | conjunction | disjunction | closing =>
          simp only [step, hstage] at hnext
          cases hnext
  | within progress =>
      rw [hstage] at hlast
      obtain ⟨words, hwords, rfl⟩ := hlast
      cases token with
      | word word =>
          simp only [step, hstage] at hnext
          cases hresume : language.resume progress word with
          | none =>
              rw [hresume] at hnext
              cases hnext
          | some result =>
              rw [hresume] at hnext
              cases hnext
              have htaken := take_hasRead houter hlevel (.resume hwords hresume)
              rwa [List.map_append, List.map_singleton, ← List.append_assoc] at htaken
      | opening | conjunction | disjunction | closing =>
          simp only [step, hstage] at hnext
          cases hnext
  | connective operand =>
      rw [hstage] at hlast
      simp only [step, hstage] at hnext
      exact afterOperand_hasRead houter hlevel hlast hnext

theorem after_hasRead (hstate : state.HasRead language tokens) {rest : List (Token ω)}
    (hnext : state.after language rest = .ok next) : next.HasRead language (tokens ++ rest) := by
  induction rest generalizing state tokens with
  | nil =>
      cases hnext
      rwa [List.append_nil]
  | cons token rest ih =>
      obtain ⟨middle, hstep, hrest⟩ := after_cons_eq_ok_iff.mp hnext
      rw [List.append_cons]
      exact ih (step_hasRead hstate hstep) hrest

theorem HasRead.derives (hstate : state.HasRead language tokens)
    (hfinish : state.finish language = .ok tree) : Derives language.Reads .formula tokens tree := by
  obtain ⟨before, first, second, last, rfl, houter, hlevel, hlast⟩ := hstate
  obtain ⟨level, outer, stage⟩ := state
  cases stage with
  | operand => cases hfinish
  | within progress => cases hfinish
  | connective operand =>
      cases houter with
      | cons => cases hfinish
      | none =>
          cases hfinish
          rw [List.nil_append, List.append_assoc]
          exact hlevel.formula hlast

/-! ### Derived lists are accepted -/

theorem after_operand {words : List ω} {result : π ⊕ β} (hwords : language.ReadsTo words result)
    (level : Level β) (outer : List (Level β)) :
    State.after language ⟨level, outer, .operand⟩ (words.map .word) =
      .ok (State.take ⟨level, outer, .operand⟩ result) := by
  induction hwords with
  | @start word result hstart =>
      have hstep : State.step language ⟨level, outer, .operand⟩ (.word word) =
          .ok (State.take ⟨level, outer, .operand⟩ result) := by
        simp only [step, hstart]
        rfl
      rw [List.map_singleton, after_cons hstep, after_nil]
  | @resume words progress word result _ hresume ih =>
      have hstep : State.step language ⟨level, outer, .within progress⟩ (.word word) =
          .ok (State.take ⟨level, outer, .operand⟩ result) := by
        simp only [step, hresume]
        cases result <;> rfl
      rw [List.map_append, List.map_singleton, after_append ih]
      exact after_cons hstep []

/-- What the parser holds after the tokens of a derivation that it starts to read where an operand is
due. -/
def Accepts (language : Operands ω π β) (tokens : List (Token ω)) (tree : Formula β) : Phrase → Prop
  | .primary => ∀ level outer,
    State.after language ⟨level, outer, .operand⟩ tokens = .ok ⟨level, outer, .connective tree⟩
  | .conjunction => ∀ disjuncts outer, ∃ conjuncts operand,
    State.after language ⟨⟨disjuncts, none⟩, outer, .operand⟩ tokens =
        .ok ⟨⟨disjuncts, conjuncts⟩, outer, .connective operand⟩ ∧
      Level.conjunctionWith ⟨disjuncts, conjuncts⟩ operand = tree
  | .formula => ∀ outer, ∃ level operand,
    State.after language ⟨Level.fresh, outer, .operand⟩ tokens =
        .ok ⟨level, outer, .connective operand⟩ ∧
      level.formulaWith operand = tree

theorem accepts_of_derives {phrase : Phrase} (hderives : Derives language.Reads phrase tokens tree) :
    Accepts language tokens tree phrase := by
  induction hderives with
  | operand hwords =>
      intro level outer
      exact after_operand hwords level outer
  | @group tokens tree _ ih =>
      intro level outer
      obtain ⟨inner, operand, hinner, rfl⟩ := ih (level :: outer)
      have hopening : State.step language ⟨level, outer, .operand⟩ .opening =
          .ok ⟨Level.fresh, level :: outer, .operand⟩ := rfl
      have hclosing : State.step language ⟨inner, level :: outer, .connective operand⟩ .closing =
          .ok ⟨level, outer, .connective (inner.formulaWith operand)⟩ := rfl
      rw [after_cons hopening, after_append hinner, after_cons hclosing, after_nil]
  | ofPrimary _ ih =>
      intro disjuncts outer
      exact ⟨none, _, ih _ outer, rfl⟩
  | @and first second left right _ _ ihleft ihright =>
      intro disjuncts outer
      obtain ⟨conjuncts, operand, hleft, rfl⟩ := ihleft disjuncts outer
      refine ⟨some (Level.conjunctionWith ⟨disjuncts, conjuncts⟩ operand), right, ?_, rfl⟩
      have hconjunction : State.step language ⟨⟨disjuncts, conjuncts⟩, outer, .connective operand⟩
          .conjunction = .ok ⟨⟨disjuncts, some (Level.conjunctionWith ⟨disjuncts, conjuncts⟩ operand)⟩,
            outer, .operand⟩ := rfl
      rw [after_append hleft, after_cons hconjunction]
      exact ihright _ outer
  | ofConjunction _ ih =>
      intro outer
      obtain ⟨conjuncts, operand, hafter, rfl⟩ := ih none outer
      exact ⟨⟨none, conjuncts⟩, operand, hafter, rfl⟩
  | @or first second left right _ _ ihleft ihright =>
      intro outer
      obtain ⟨level, operand, hleft, rfl⟩ := ihleft outer
      obtain ⟨conjuncts, last, hright, rfl⟩ := ihright (some (level.formulaWith operand)) outer
      refine ⟨⟨some (level.formulaWith operand), conjuncts⟩, last, ?_, rfl⟩
      have hdisjunction : State.step language ⟨level, outer, .connective operand⟩ .disjunction =
          .ok ⟨⟨some (level.formulaWith operand), none⟩, outer, .operand⟩ := rfl
      rw [after_append hleft, after_cons hdisjunction, hright]

end State

/-! ### The two directions together -/

variable {tokens : List (Token ω)}

theorem ofTokens_eq_ok_iff {length : Nat} {located : List (Located (Token ω))} {tree : Formula β} :
    ofTokens language length located = .ok tree ↔
      Derives language.Reads .formula (located.map Located.token) tree := by
  rw [ofTokens, State.run_eq_ok_iff]
  constructor
  · rintro ⟨last, hafter, hfinish⟩
    have hread := State.after_hasRead State.start_hasRead hafter
    rw [List.nil_append] at hread
    exact hread.derives hfinish
  · intro hderives
    obtain ⟨level, operand, hafter, rfl⟩ := State.accepts_of_derives hderives []
    exact ⟨_, hafter, rfl⟩

theorem not_derives_nil {tree : Formula β} : ¬Derives language.Reads .formula [] tree := by
  intro hderives
  obtain ⟨level, operand, hafter, _⟩ := State.accepts_of_derives hderives []
  cases hafter

/-- A list of tokens has one tree at most: the parser finds it. -/
theorem Derives.unique {left right : Formula β} (hleft : Derives language.Reads .formula tokens left)
    (hright : Derives language.Reads .formula tokens right) : left = right := by
  obtain ⟨level, operand, hafter, rfl⟩ := State.accepts_of_derives hleft []
  obtain ⟨level', operand', hafter', rfl⟩ := State.accepts_of_derives hright []
  rw [hafter] at hafter'
  cases hafter'
  rfl

end Backtest.Formula
