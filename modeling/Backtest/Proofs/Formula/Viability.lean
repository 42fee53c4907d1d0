import Backtest.Proofs.Formula.Parsing

/-!
# Where a formula goes wrong

Tokens are viable when some formula begins with them. The parser stops at the first token that makes
them not viable, wherever in the formula it stands. It never stops too early, because what it has read
can always be completed: the operand that is due is supplied, and then every open parenthesis is closed.
It never stops too late, because a formula that began with the refused token would be accepted.
-/

namespace Backtest.Formula

variable {ω π β : Type}

/-- Some formula begins with the tokens. -/
def Viable (operand : List ω → β → Prop) (tokens : List (Token ω)) : Prop :=
  ∃ rest tree, Derives operand .formula (tokens ++ rest) tree

theorem Viable.mono {operand other : List ω → β → Prop}
    (hoperand : ∀ words value, operand words value → other words value) {tokens : List (Token ω)}
    (hviable : Viable operand tokens) : Viable other tokens := by
  obtain ⟨rest, tree, hderives⟩ := hviable
  exact ⟨rest, tree, hderives.mono hoperand⟩

/-- There is an operand, and every operand that has been begun can be finished. -/
structure Operands.Completable (language : Operands ω π β) : Prop where
  exists_operand : ∃ words value, language.Reads words value
  exists_rest : ∀ words progress, language.ReadsTo words (.inl progress) →
    ∃ more value, language.Reads (words ++ more) value

variable {language : Operands ω π β} {tokens : List (Token ω)} {token : Token ω}

/-! ### What has been read can be completed -/

theorem Stage.HasRead.exists_primary (hlanguage : language.Completable) {stage : Stage π β}
    (hstage : stage.HasRead language tokens) :
    ∃ rest tree, Derives language.Reads .primary (tokens ++ rest) tree := by
  cases stage with
  | operand =>
      obtain ⟨words, value, hwords⟩ := hlanguage.exists_operand
      cases hstage
      exact ⟨words.map .word, .atom value, .operand hwords⟩
  | within progress =>
      obtain ⟨words, hwords, rfl⟩ := hstage
      obtain ⟨more, value, hmore⟩ := hlanguage.exists_rest words progress hwords
      refine ⟨more.map .word, .atom value, ?_⟩
      rw [← List.map_append]
      exact .operand hmore
  | connective tree =>
      refine ⟨[], tree, ?_⟩
      rwa [List.append_nil]

/-- A formula inside open parentheses goes on to one around them. -/
theorem OuterRead.exists_formula {operand : List ω → β → Prop} {outer : List (Level β)}
    {before : List (Token ω)} (houter : OuterRead operand outer before) {tree : Formula β}
    (hinner : Derives operand .formula tokens tree) :
    ∃ rest whole, Derives operand .formula (before ++ tokens ++ rest) whole := by
  induction houter generalizing tokens tree with
  | none =>
      refine ⟨[], tree, ?_⟩
      rwa [List.nil_append, List.append_nil]
  | @cons level outer before first second _ hlevel ih =>
      obtain ⟨rest, whole, hwhole⟩ := ih (hlevel.formula (.group hinner))
      refine ⟨.closing :: rest, whole, ?_⟩
      simpa only [List.append_assoc, List.cons_append, List.nil_append] using hwhole

namespace State

variable {state : State π β}

theorem HasRead.viable (hlanguage : language.Completable) (hstate : state.HasRead language tokens) :
    Viable language.Reads tokens := by
  obtain ⟨before, first, second, last, rfl, houter, hlevel, hlast⟩ := hstate
  obtain ⟨missing, tree, hprimary⟩ := hlast.exists_primary hlanguage
  obtain ⟨rest, whole, hwhole⟩ := houter.exists_formula (hlevel.formula hprimary)
  refine ⟨missing ++ rest, whole, ?_⟩
  simpa only [List.append_assoc] using hwhole

/-! ### A refused token has no place -/

theorem not_viable_of_step {fault : Fault} (hstate : start.after language tokens = .ok state)
    (hstep : state.step language token = .error fault) :
    ¬Viable language.Reads (tokens ++ [token]) := by
  rintro ⟨rest, tree, hderives⟩
  obtain ⟨level, operand, hafter, _⟩ := accepts_of_derives hderives []
  rw [List.append_assoc, List.singleton_append] at hafter
  have hrefused : start.after language (tokens ++ token :: rest) = .error fault := by
    rw [after_append hstate, after, List.foldlM_cons, hstep, error_bind]
  exact absurd (hafter.symm.trans hrefused) (by simp)

/-! ### Runs that fail -/

/-- A run fails at a token that does not fit, or at the end of the text. -/
theorem of_run_eq_error {length : Nat} {located : List (Located (Token ω))} {refusal : Refusal}
    (hrun : state.run language length located = .error refusal) :
    (∃ before refused rest reached fault, located = before ++ refused :: rest ∧
      state.after language (before.map Located.token) = .ok reached ∧
      reached.step language refused.token = .error fault ∧ refusal = ⟨fault, refused.position⟩) ∨
    ∃ last fault, state.after language (located.map Located.token) = .ok last ∧
      refusal = ⟨fault, length⟩ := by
  induction located generalizing state with
  | nil =>
      rw [run] at hrun
      cases hfinish : state.finish language with
      | ok tree =>
          rw [hfinish] at hrun
          cases hrun
      | error fault =>
          rw [hfinish] at hrun
          cases hrun
          exact .inr ⟨state, fault, after_nil, rfl⟩
  | cons first rest ih =>
      rw [run] at hrun
      cases hstep : state.step language first.token with
      | error fault =>
          rw [hstep] at hrun
          cases hrun
          exact .inl ⟨[], first, rest, state, fault, rfl, after_nil, hstep, rfl⟩
      | ok next =>
          rw [hstep] at hrun
          rcases ih hrun with ⟨before, refused, later, reached, fault, rfl, hreached, hfault⟩ | hend
          · refine .inl ⟨first :: before, refused, later, reached, fault, rfl, ?_, hfault⟩
            rwa [List.map_cons, after_cons hstep]
          · refine .inr ?_
            rwa [List.map_cons, after_cons hstep]

end State

theorem exists_mem_of_ofTokens {length : Nat} {located : List (Located (Token ω))} {refusal : Refusal}
    (hrefusal : ofTokens language length located = .error refusal) :
    (∃ token ∈ located, token.position = refusal.position) ∨ refusal.position = length := by
  rcases State.of_run_eq_error hrefusal with ⟨before, refused, rest, _, _, rfl, _, _, rfl⟩ | ⟨_, _, _, rfl⟩
  · exact .inl ⟨refused, by simp, rfl⟩
  · exact .inr rfl

/-- The first token that no formula has in its place is where the tokens are refused. If every formula
can go on with all of them, they are refused at the end of the text. -/
theorem of_ofTokens_eq_error (hlanguage : language.Completable) {length : Nat}
    {located : List (Located (Token ω))} {refusal : Refusal}
    (hrefusal : ofTokens language length located = .error refusal) :
    (∃ before refused rest, located = before ++ refused :: rest ∧
      Viable language.Reads (before.map Located.token) ∧
      ¬Viable language.Reads (before.map Located.token ++ [refused.token]) ∧
      refusal.position = refused.position) ∨
    Viable language.Reads (located.map Located.token) ∧ refusal.position = length := by
  have hviable {tokens : List (Token ω)} {state : State π β}
      (hstate : State.start.after language tokens = .ok state) : Viable language.Reads tokens :=
    (State.after_hasRead State.start_hasRead hstate).viable hlanguage
  rcases State.of_run_eq_error hrefusal with
    ⟨before, refused, rest, reached, fault, hlocated, hreached, hstep, rfl⟩ | ⟨last, fault, hlast, rfl⟩
  · exact .inl ⟨before, refused, rest, hlocated, hviable hreached,
      State.not_viable_of_step hreached hstep, rfl⟩
  · exact .inr ⟨hviable hlast, rfl⟩

end Backtest.Formula
