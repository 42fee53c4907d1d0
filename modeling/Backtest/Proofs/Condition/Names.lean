import Backtest.Proofs.Condition.Language

/-!
# Names of conditions

A name is a word of the condition language that is no connective. The words of a text are names, so a
formula is read alike with all that is available and with the names among it.
-/

namespace Backtest.Condition

open Formula

/-- Letters, digits and underscores without a digit in front, and neither `AND` nor `OR`. -/
def isName (name : String) : Bool :=
  match name.toList with
  | [] => false
  | first :: others =>
    startsWord first && others.all continuesWord && name ≠ "AND" && name ≠ "OR"

theorem isName_iff {name : String} :
    isName name = true ↔ ∃ first others, name.toList = first :: others ∧ startsWord first = true ∧
      (∀ c ∈ others, continuesWord c = true) ∧ name ≠ "AND" ∧ name ≠ "OR" := by
  rw [isName]
  cases name.toList with
  | nil => simp
  | cons first others => simp [and_assoc]

theorem tokenOfWord_of_isName {name : String} (hname : isName name = true) :
    tokenOfWord name = .word name := by
  obtain ⟨_, _, _, _, _, hand, hor⟩ := isName_iff.mp hname
  rw [tokenOfWord, if_neg hand, if_neg hor]

/-- The words are a name that is available. -/
def IsOperand (available words : List String) (name : String) : Prop :=
  words = [name] ∧ name ∈ available ∧ isName name = true

/-! ### The words of a text -/

theorem isName_of_tokenOfWord {first : Char} {others : List Char} {name : String}
    (hfirst : startsWord first = true) (hothers : ∀ c ∈ others, continuesWord c = true)
    (hword : tokenOfWord (String.ofList (first :: others)) = .word name) : isName name = true := by
  rw [tokenOfWord] at hword
  split_ifs at hword with hand hor
  cases hword
  exact isName_iff.mpr ⟨first, others, String.toList_ofList, hfirst, hothers, hand, hor⟩

theorem isName_of_spells {text : List Char} {tokens : List (Token String)}
    (hspells : Spells text tokens) {name : String} (hname : .word name ∈ tokens) :
    isName name = true := by
  induction hspells with
  | done => cases hname
  | blank _ _ ih => exact ih hname
  | opening _ ih | closing _ ih =>
      rcases List.mem_cons.mp hname with hfirst | hrest
      · cases hfirst
      · exact ih hrest
  | word hfirst hothers _ _ ih =>
      rcases List.mem_cons.mp hname with hword | hrest
      · exact isName_of_tokenOfWord hfirst hothers hword.symm
      · exact ih hrest

/-! ### What is available -/

theorem reads_filter_iff {available words : List String} {name : String} :
    (operands (available.filter isName)).Reads words name ↔ IsOperand available words name := by
  rw [reads_iff, List.mem_filter, IsOperand]

variable {available : List String} {state : State Empty String}

theorem step_filter {token : Token String} (hwords : ∀ name, token = .word name → isName name = true) :
    state.step (operands (available.filter isName)) token = state.step (operands available) token := by
  obtain ⟨level, outer, stage⟩ := state
  cases stage with
  | operand =>
      cases token with
      | word name =>
          have hsame : (available.filter isName).contains name = available.contains name := by
            simp [hwords name rfl]
          simp only [State.step, operands, hsame]
      | opening | closing | conjunction | disjunction => rfl
  | within progress => exact progress.elim
  | connective operand => cases token <;> rfl

theorem run_filter {length : Nat} {located : List (Located (Token String))}
    (hwords : ∀ name, .word name ∈ located.map Located.token → isName name = true) :
    state.run (operands (available.filter isName)) length located =
      state.run (operands available) length located := by
  induction located generalizing state with
  | nil =>
      rw [State.run, State.run]
      rfl
  | cons first rest ih =>
      rw [List.map_cons] at hwords
      have hfirst : ∀ name, first.token = .word name → isName name = true := fun name hname =>
        hwords name (hname ▸ List.mem_cons_self)
      rw [State.run, State.run, step_filter hfirst]
      cases state.step (operands available) first.token with
      | error fault => rfl
      | ok next => exact ih fun name hname => hwords name (List.mem_cons_of_mem _ hname)

/-- What is left to do with a text that has been cut into tokens. -/
theorem parse_of_tokens {text : String} {located : List (Located (Token String))}
    (hblank : Text.isBlankText text = false) (hlocated : tokens text = .ok located) :
    parse available text =
      checkLimits located >>= fun _ => ofTokens (operands available) text.utf8ByteSize located := by
  rw [parse, if_neg (by simp [hblank]), hlocated]
  rfl

end Backtest.Condition
