import Backtest.Proofs.Condition.Language
import Backtest.Vote.Parser

/-!
# The vote language

An operand of a vote is a test of three words: the name of a strategy, the sign `==` and the value of a
position. The parser accepts those lists of tokens within the two limits that are derived from the grammar
over such tests, and no others. Every test of the tree has the name and the value that were read for it.
-/

namespace Backtest.Vote

open Formula

/-! ### Tests -/

/-- The words that have been read of a test. -/
def wordsRead : HalfTest ⊕ PositionTest → List Word
  | .inl (.named strategy) => [.name strategy]
  | .inl (.compared strategy) => [.name strategy, .equals]
  | .inr test => [.name test.strategy, .equals, .value test.position]

theorem eq_wordsRead_of_readsTo {words : List Word} {result : HalfTest ⊕ PositionTest}
    (hreads : operands.ReadsTo words result) : words = wordsRead result := by
  induction hreads with
  | @start word result hstart =>
      cases word with
      | name strategy =>
          cases hstart
          rfl
      | equals | value => cases hstart
  | @resume words progress word result _ hresume ih =>
      subst ih
      cases progress <;> cases word <;> cases hresume <;> rfl

theorem reads_iff {words : List Word} {test : PositionTest} :
    operands.Reads words test ↔ words = [.name test.strategy, .equals, .value test.position] := by
  refine ⟨eq_wordsRead_of_readsTo, ?_⟩
  rintro rfl
  have hname : operands.ReadsTo [.name test.strategy] (.inl (.named test.strategy)) := .start rfl
  have hsign : operands.ReadsTo [.name test.strategy, .equals] (.inl (.compared test.strategy)) :=
    .resume hname rfl
  exact .resume hsign rfl

/-! ### Votes -/

/-- The tokens are derived as a vote whose operands are a name, the sign and a value each. -/
def Derives (tokens : List (Token Word)) (vote : Vote) : Prop :=
  Formula.Derives (fun words test => words = [.name test.strategy, .equals, .value test.position])
    .formula tokens vote

theorem derives_iff {tokens : List (Token Word)} {vote : Vote} :
    Derives tokens vote ↔ Formula.Derives operands.Reads .formula tokens vote := by
  constructor
  · exact Formula.Derives.mono fun _ _ => reads_iff.mpr
  · exact Formula.Derives.mono fun _ _ => reads_iff.mp

/-! ### Blank texts -/

theorem startsValue_eq_true_iff {c : Char} : startsValue c = true ↔ c = '-' ∨ c.isDigit = true := by
  rw [startsValue, Bool.or_eq_true, decide_eq_true_eq]

theorem isDigit_iff {c : Char} : c.isDigit = true ↔ 48 ≤ c.toNat ∧ c.toNat ≤ 57 := by
  unfold Char.isDigit
  simp only [Bool.and_eq_true, decide_eq_true_eq, ge_iff_le, UInt32.le_iff_toNat_le]
  rfl

theorem startsValue_iff {c : Char} :
    startsValue c = true ↔ c.toNat = 45 ∨ 48 ≤ c.toNat ∧ c.toNat ≤ 57 := by
  rw [startsValue_eq_true_iff, isDigit_iff, ← Char.toNat_inj]
  rfl

theorem isBlank_of_startsValue {c : Char} (hstarts : startsValue c = true) : Text.isBlank c = false := by
  rw [startsValue_iff] at hstarts
  rw [← Bool.not_eq_true]
  intro hblank
  simp only [Text.isBlank, Bool.or_eq_true, Bool.and_eq_true, decide_eq_true_eq] at hblank
  omega

/-- A blank text has no tokens, if it can be cut into tokens at all. -/
theorem eq_nil_of_tokensFrom_blank {position : Nat} {text : List Char}
    {located : List (Located (Token Word))} (hblank : text.all Text.isBlank = true)
    (hlocated : tokensFrom position text = .ok located) : located = [] := by
  fun_induction tokensFrom position text generalizing located with
  | case1 =>
      cases hlocated
      rfl
  | case2 position c rest _ ih =>
      rw [List.all_cons, Bool.and_eq_true] at hblank
      exact ih hblank.2 hlocated
  | case3 | case4 | case5 => simp [Text.isBlank] at hblank
  | case6 | case8 | case10 => cases hlocated
  | case7 position c rest _ _ _ _ hstarts =>
      rw [List.all_cons, isBlank_of_startsValue hstarts] at hblank
      cases hblank
  | case9 position c rest _ _ _ _ _ hstarts =>
      rw [List.all_cons, Condition.isBlank_of_startsWord hstarts] at hblank
      cases hblank

/-! ### The two limits and the grammar -/

/-- **The vote language.** A text that falls into tokens is accepted when there are at most 50 of them, at
no point more than 6 parentheses are open, and the tokens are derived from the grammar over tests. The
result is the tree of the derivation, and the tokens have no second one. -/
theorem parse_eq_ok_iff_derives {text : String} {located : List (Located (Token Word))}
    (hlocated : tokens text = .ok located) :
    (∀ vote, parse text = .ok vote ↔
      located.length ≤ 50 ∧ NestsWithin 6 (located.map Located.token) ∧
        Derives (located.map Located.token) vote) ∧
    ∀ first second, Derives (located.map Located.token) first →
      Derives (located.map Located.token) second → first = second := by
  refine ⟨fun vote => ?_, fun first second hfirst hsecond => ?_⟩
  · rw [parse]
    split_ifs with hblank
    · refine iff_of_false (by simp) ?_
      rintro ⟨_, _, hderives⟩
      rw [eq_nil_of_tokensFrom_blank hblank hlocated] at hderives
      exact not_derives_nil (derives_iff.mp hderives)
    rw [hlocated, ok_bind]
    simp only [bind_eq_ok_iff, ofTokens_eq_ok_iff]
    constructor
    · rintro ⟨_, hlimits, hderives⟩
      obtain ⟨hlength, hnests⟩ := (checkLimits_eq_ok_iff hderives.balanced).mp hlimits
      exact ⟨hlength, hnests, derives_iff.mpr hderives⟩
    · rintro ⟨hlength, hnests, hderives⟩
      exact ⟨(), (checkLimits_eq_ok_iff hderives.balanced).mpr ⟨hlength, hnests⟩,
        derives_iff.mp hderives⟩
  · exact (derives_iff.mp hfirst).unique (derives_iff.mp hsecond)

theorem parse_eq_ok_iff_derives_sample :
    let text := "trend == 1 OR (mean == 0) AND mean == -1"
    let vote : Vote := .or (.atom ⟨"trend", .long⟩) (.and (.atom ⟨"mean", .cash⟩) (.atom ⟨"mean", .short⟩))
    ∃ located, tokens text = .ok located ∧ parse text = .ok vote ∧
      Derives (located.map Located.token) vote ∧
      ∀ other, Derives (located.map Located.token) other → other = vote := by
  intro text vote
  have hcut : succeedsWith (fun located => located.length = 13) (tokens text) = true := by
    decide +kernel
  obtain ⟨located, hlocated, _⟩ := exists_of_succeedsWith hcut
  obtain ⟨haccepts, hunique⟩ := parse_eq_ok_iff_derives hlocated
  have hparse : parse text = .ok vote := by decide +kernel
  obtain ⟨_, _, hderives⟩ := (haccepts vote).mp hparse
  exact ⟨located, hlocated, hparse, hderives, fun other hother => hunique other vote hother hderives⟩

end Backtest.Vote
