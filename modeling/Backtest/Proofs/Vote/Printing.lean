import Backtest.Proofs.Condition.Names
import Backtest.Proofs.Formula.Printing
import Backtest.Proofs.Vote.Spelling

/-!
# Reading printed votes

The text of a vote over names spells the tokens of the printed formula, three for each test, and these have
one tree. So a printed vote is read back unless it is over one of the two limits, and then it is refused:
7 connectives make 45 tokens, and a height of 7 makes 6 pairs of parentheses around one another.
-/

namespace Backtest.Vote

open Formula

/-- The words of a test. -/
def testWords (test : PositionTest) : List Word :=
  [.name test.strategy, .equals, .value test.position]

/-! ### The text and its tokens -/

theorem apart_of_stop {front rest : List Char} (hstop : ∀ c ∈ rest.head?, continuesName c = false) :
    Apart front rest := fun _ _ next hnext _ => hstop next hnext

theorem tokenOfName_of_isName {name : String} (hname : Condition.isName name = true) :
    tokenOfName name = .word (.name name) := by
  obtain ⟨_, _, _, _, _, hand, hor⟩ := Condition.isName_iff.mp hname
  rw [tokenOfName, if_neg hand, if_neg hor]

theorem spells_name {name : String} (hname : Condition.isName name = true) :
    Spells name.toList [.word (.name name)] := by
  obtain ⟨first, others, htext, hfirst, hothers, _⟩ := Condition.isName_iff.mp hname
  have hspells := @Spells.name first others [] [] hfirst hothers (by simp) .done
  rwa [List.append_nil, ← htext, String.ofList_toList, tokenOfName_of_isName hname] at hspells

/-- A position is written as `1`, `0` or `-1`. -/
theorem spells_position (position : Position) :
    Spells (toString position.sign).toList [.word (.value position)] := by
  cases position with
  | long => exact @Spells.value '1' [] [] .long [] (by decide) (by simp) (by simp) rfl .done
  | cash => exact @Spells.value '0' [] [] .cash [] (by decide) (by simp) (by simp) rfl .done
  | short =>
      have hdigits : ∀ c ∈ ['1'], c.isDigit = true := List.forall_mem_singleton.mpr rfl
      exact @Spells.value '-' ['1'] [] .short [] (by decide) hdigits (by simp) rfl .done

theorem spells_test {test : PositionTest} (hname : Condition.isName test.strategy = true) :
    Spells s!"{test.strategy} == {test.position.sign}".toList ((testWords test).map .word) := by
  have hsign := Spells.space (c := ' ') (by decide)
    (.equals (.space (c := ' ') (by decide) (spells_position test.position)))
  have htest := (spells_name hname).append (apart_of_stop (by simp; decide)) hsign
  have htext : s!"{test.strategy} == {test.position.sign}" =
      test.strategy ++ (" == " ++ toString test.position.sign) := String.append_assoc
  rw [htext, String.toList_append, String.toList_append]
  exact htest

/-- Two texts in parentheses with a connective between them. -/
theorem Spells.group {left right : List Char} {before after : List (Token Word)} (first : Char)
    (others : List Char) (hleft : Spells left before) (hright : Spells right after)
    (hfirst : startsName first = true) (hothers : others.all continuesName = true) :
    Spells ('(' :: (left ++ ' ' :: first :: (others ++ ' ' :: (right ++ [')']))))
      (.opening :: (before ++ tokenOfName (String.ofList (first :: others)) :: after ++ [.closing])) := by
  have hclosed := hright.append (apart_of_stop (by simp; decide)) (.closing .done)
  have hconnective := Spells.space (c := ' ') (by decide)
    (.name hfirst (List.all_eq_true.mp hothers) (by simp; decide) (.space (c := ' ') (by decide) hclosed))
  have hopened := Spells.opening (hleft.append (apart_of_stop (by simp; decide)) hconnective)
  simpa only [List.append_assoc, List.cons_append, List.nil_append] using hopened

theorem spells_render {vote : Vote}
    (hnames : ∀ test ∈ vote.atoms, Condition.isName test.strategy = true) :
    Spells vote.render.toList (vote.printed testWords) := by
  rw [render]
  induction vote with
  | atom test => exact spells_test (hnames test (List.mem_singleton.mpr rfl))
  | and left right ihleft ihright =>
      have hleft := ihleft fun test htest => hnames test (List.mem_append_left _ htest)
      have hright := ihright fun test htest => hnames test (List.mem_append_right _ htest)
      have hgroup := hleft.group 'A' ['N', 'D'] hright (by decide) (by decide)
      simpa [Formula.text, printed, tokenOfName] using hgroup
  | or left right ihleft ihright =>
      have hleft := ihleft fun test htest => hnames test (List.mem_append_left _ htest)
      have hright := ihright fun test htest => hnames test (List.mem_append_right _ htest)
      have hgroup := hleft.group 'O' ['R'] hright (by decide) (by decide)
      simpa [Formula.text, printed, tokenOfName] using hgroup

/-! ### The two limits -/

/-- What is left to do with a text that has been cut into tokens. -/
theorem parse_of_tokens {text : String} {located : List (Located (Token Word))}
    (hblank : Text.isBlankText text = false) (hlocated : tokens text = .ok located) :
    parse text = checkLimits located >>= fun _ => ofTokens operands text.utf8ByteSize located := by
  rw [parse, if_neg (by simp [hblank]), hlocated]
  rfl

theorem checkLimits_of_printed {vote : Vote} {located : List (Located (Token Word))}
    (hlocated : located.map Located.token = vote.printed testWords) :
    checkLimits located = .ok () ↔ vote.connectives ≤ 7 ∧ vote.height ≤ 7 := by
  have hwords : ∀ test, (testWords test).length = 3 := fun _ => rfl
  rw [checkLimits_printed_iff hwords hlocated]
  omega

/-- **Reading printed votes.** The text of a vote over names is read back as this vote when there are at
most 7 connectives and the height is at most 7. Otherwise it is refused. -/
theorem parse_rendered {vote : Vote}
    (hnames : ∀ test ∈ vote.atoms, Condition.isName test.strategy = true) :
    (vote.connectives ≤ 7 ∧ vote.height ≤ 7 → parse vote.render = .ok vote) ∧
    (¬(vote.connectives ≤ 7 ∧ vote.height ≤ 7) → ∃ refusal, parse vote.render = .error refusal) := by
  obtain ⟨located, hlocated, htokens⟩ := tokens_eq_ok_iff.mpr (spells_render hnames)
  have hderives : Derives (located.map Located.token) vote :=
    htokens ▸ .ofConjunction (.ofPrimary (derives_printed fun _ _ => rfl))
  have hblank : Text.isBlankText vote.render = false := by
    rw [← Bool.not_eq_true]
    intro hblank
    rw [eq_nil_of_tokensFrom_blank hblank hlocated] at hderives
    exact not_derives_nil (derives_iff.mp hderives)
  rw [parse_of_tokens hblank hlocated, ← checkLimits_of_printed htokens]
  constructor
  · intro hlimits
    rw [hlimits, ok_bind]
    exact ofTokens_eq_ok_iff.mpr (derives_iff.mp hderives)
  · intro hlimits
    cases hcheck : checkLimits located with
    | error refusal => exact ⟨refusal, error_bind _ _⟩
    | ok => exact absurd hcheck hlimits

namespace Sample

/-- Alternatives inside one another, `levels` deep. -/
def tower : Nat → Vote
  | 0 => .and (.atom ⟨"trend", .long⟩) (.atom ⟨"mean_2", .short⟩)
  | levels + 1 => .or (.atom ⟨"mean_2", .cash⟩) (tower levels)

end Sample

/-- At the height of 7 the vote is read back, and one alternative more is refused. So is one that keeps the
height and has 8 connectives. -/
theorem parse_rendered_sample :
    let wide : Vote := .or (Sample.tower 3) (Sample.tower 2)
    (∀ vote ∈ [Sample.tower 5, Sample.tower 6, wide],
      ∀ test ∈ vote.atoms, Condition.isName test.strategy = true) ∧
      ((Sample.tower 5).connectives ≤ 7 ∧ (Sample.tower 5).height = 7) ∧
      parse (Sample.tower 5).render = .ok (Sample.tower 5) ∧
      ((Sample.tower 6).connectives = 7 ∧ (Sample.tower 6).height = 8) ∧
      (∃ refusal, parse (Sample.tower 6).render = .error refusal) ∧
      (wide.connectives = 8 ∧ wide.height ≤ 7) ∧ ∃ refusal, parse wide.render = .error refusal := by
  intro wide
  have hnames : ∀ vote ∈ [Sample.tower 5, Sample.tower 6, wide],
      ∀ test ∈ vote.atoms, Condition.isName test.strategy = true := by
    decide
  have hread : (Sample.tower 5).connectives ≤ 7 ∧ (Sample.tower 5).height = 7 := by decide
  have hhigh : (Sample.tower 6).connectives = 7 ∧ (Sample.tower 6).height = 8 := by decide
  have hwide : wide.connectives = 8 ∧ wide.height ≤ 7 := by decide
  refine ⟨hnames, hread, (parse_rendered (hnames _ (by simp))).1 ⟨hread.1, hread.2.le⟩, hhigh,
    (parse_rendered (hnames _ (by simp))).2 ?_, hwide, (parse_rendered (hnames _ (by simp))).2 ?_⟩
  · omega
  · omega

end Backtest.Vote
