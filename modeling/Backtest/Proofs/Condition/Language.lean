import Mathlib.Data.List.TakeWhile
import Backtest.Condition.Parser
import Backtest.Proofs.Formula.Limits
import Backtest.Proofs.Formula.Parsing

/-!
# The condition language

A text of the language is a list of tokens with white space between them. A word goes on for as long
as it can, so two words never touch. The tokens are those of a formula whose operands are single words
that name available conditions. The parser accepts the texts of the language within the two limits, and
no others.
-/

namespace Backtest

/-! ### Runs of characters -/

namespace Text

variable {accepts : Char → Bool} {run rest : List Char}

theorem takeWhile_append_of_stop (hrun : ∀ c ∈ run, accepts c = true)
    (hstop : ∀ c ∈ rest.head?, accepts c = false) : (run ++ rest).takeWhile accepts = run := by
  rw [List.takeWhile_append_of_pos hrun]
  cases rest with
  | nil => exact List.append_nil run
  | cons next later => simp [hstop next rfl]

theorem dropWhile_append_of_stop (hrun : ∀ c ∈ run, accepts c = true)
    (hstop : ∀ c ∈ rest.head?, accepts c = false) : (run ++ rest).dropWhile accepts = rest := by
  rw [List.dropWhile_append_of_pos hrun]
  cases rest with
  | nil => rfl
  | cons next later => simp [hstop next rfl]

theorem not_accepts_of_head?_dropWhile (accepts : Char → Bool) (text : List Char) :
    ∀ c ∈ (text.dropWhile accepts).head?, accepts c = false := by
  intro c hc
  have hstop := List.head?_dropWhile_not accepts text
  rwa [hc] at hstop

end Text

namespace Condition

open Formula

/-! ### Texts and their tokens -/

/-- The text consists of the tokens and of white space. -/
inductive Spells : List Char → List (Token String) → Prop
  | done : Spells [] []
  | blank {c : Char} {rest : List Char} {tokens : List (Token String)}
      (hblank : Text.isBlank c = true) (hrest : Spells rest tokens) : Spells (c :: rest) tokens
  | opening {rest : List Char} {tokens : List (Token String)} (hrest : Spells rest tokens) :
      Spells ('(' :: rest) (.opening :: tokens)
  | closing {rest : List Char} {tokens : List (Token String)} (hrest : Spells rest tokens) :
      Spells (')' :: rest) (.closing :: tokens)
  | word {first : Char} {others rest : List Char} {tokens : List (Token String)}
      (hfirst : startsWord first = true) (hothers : ∀ c ∈ others, continuesWord c = true)
      (hend : ∀ c ∈ rest.head?, continuesWord c = false) (hrest : Spells rest tokens) :
      Spells (first :: (others ++ rest)) (tokenOfWord (String.ofList (first :: others)) :: tokens)

theorem startsWord_iff {c : Char} :
    startsWord c = true ↔
      (65 ≤ c.toNat ∧ c.toNat ≤ 90 ∨ 97 ≤ c.toNat ∧ c.toNat ≤ 122) ∨ c.toNat = 95 := by
  unfold startsWord Char.isAlpha Char.isUpper Char.isLower
  simp only [Bool.or_eq_true, Bool.and_eq_true, decide_eq_true_eq, ge_iff_le,
    UInt32.le_iff_toNat_le, Char.ext_iff, ← UInt32.toNat_inj]
  rfl

theorem continuesWord_iff {c : Char} :
    continuesWord c = true ↔
      ((65 ≤ c.toNat ∧ c.toNat ≤ 90 ∨ 97 ≤ c.toNat ∧ c.toNat ≤ 122) ∨
        48 ≤ c.toNat ∧ c.toNat ≤ 57) ∨ c.toNat = 95 := by
  unfold continuesWord Char.isAlphanum Char.isAlpha Char.isUpper Char.isLower Char.isDigit
  simp only [Bool.or_eq_true, Bool.and_eq_true, decide_eq_true_eq, ge_iff_le,
    UInt32.le_iff_toNat_le, Char.ext_iff, ← UInt32.toNat_inj]
  rfl

theorem isBlank_of_startsWord {c : Char} (hstarts : startsWord c = true) : Text.isBlank c = false := by
  rw [← Bool.not_eq_true]
  intro hblank
  rw [startsWord_iff] at hstarts
  simp only [Text.isBlank, Bool.or_eq_true, Bool.and_eq_true, decide_eq_true_eq] at hblank
  omega

section Lexer

variable {position : Nat} {c : Char} {rest : List Char}

theorem tokensFrom_cons : tokensFrom position (c :: rest) =
    if Text.isBlank c then tokensFrom (position + c.utf8Size) rest
    else if c = '(' then (⟨.opening, position⟩ :: ·) <$> tokensFrom (position + 1) rest
    else if c = ')' then (⟨.closing, position⟩ :: ·) <$> tokensFrom (position + 1) rest
    else if startsWord c then
      (⟨tokenOfWord (String.ofList (c :: rest.takeWhile continuesWord)), position⟩ :: ·) <$>
        tokensFrom (position + (c :: rest.takeWhile continuesWord).length) (rest.dropWhile continuesWord)
    else .error ⟨.unexpectedCharacter c, position⟩ := by
  rw [tokensFrom.eq_def]

theorem tokensFrom_blank (hblank : Text.isBlank c = true) :
    tokensFrom position (c :: rest) = tokensFrom (position + c.utf8Size) rest := by
  rw [tokensFrom_cons, if_pos hblank]

theorem tokensFrom_opening :
    tokensFrom position ('(' :: rest) = (⟨.opening, position⟩ :: ·) <$> tokensFrom (position + 1) rest := by
  rw [tokensFrom_cons, if_neg (by decide), if_pos rfl]

theorem tokensFrom_closing :
    tokensFrom position (')' :: rest) = (⟨.closing, position⟩ :: ·) <$> tokensFrom (position + 1) rest := by
  rw [tokensFrom_cons, if_neg (by decide), if_neg (by decide), if_pos rfl]

theorem tokensFrom_word {others : List Char} (hfirst : startsWord c = true)
    (hothers : ∀ other ∈ others, continuesWord other = true)
    (hend : ∀ next ∈ rest.head?, continuesWord next = false) :
    tokensFrom position (c :: (others ++ rest)) =
      (⟨tokenOfWord (String.ofList (c :: others)), position⟩ :: ·) <$>
        tokensFrom (position + (c :: others).length) rest := by
  have hopening : c ≠ '(' := by
    rintro rfl
    exact absurd hfirst (by decide)
  have hclosing : c ≠ ')' := by
    rintro rfl
    exact absurd hfirst (by decide)
  rw [tokensFrom_cons, if_neg (by simp [isBlank_of_startsWord hfirst]), if_neg hopening, if_neg hclosing,
    if_pos hfirst, Text.takeWhile_append_of_stop hothers hend, Text.dropWhile_append_of_stop hothers hend]

end Lexer

theorem spells_of_tokensFrom {position : Nat} {text : List Char}
    {located : List (Located (Token String))} (hlocated : tokensFrom position text = .ok located) :
    Spells text (located.map Located.token) := by
  fun_induction tokensFrom position text generalizing located with
  | case1 =>
      cases hlocated
      exact .done
  | case2 position c rest hblank ih => exact .blank hblank (ih hlocated)
  | case3 position rest _ ih =>
      obtain ⟨others, hothers, rfl⟩ := map_eq_ok_iff.mp hlocated
      exact .opening (ih hothers)
  | case4 position rest _ _ ih =>
      obtain ⟨others, hothers, rfl⟩ := map_eq_ok_iff.mp hlocated
      exact .closing (ih hothers)
  | case5 position c rest _ _ _ hstarts word =>
      rename_i ih
      obtain ⟨others, hothers, rfl⟩ := map_eq_ok_iff.mp hlocated
      have hend := Text.not_accepts_of_head?_dropWhile continuesWord rest
      have hcontinues : ∀ next ∈ rest.takeWhile continuesWord, continuesWord next = true :=
        fun next hnext => List.mem_takeWhile_imp hnext
      have hspells := Spells.word hstarts hcontinues hend (ih hothers)
      rwa [List.takeWhile_append_dropWhile] at hspells
  | case6 => cases hlocated

theorem exists_tokensFrom_of_spells {text : List Char} {tokens : List (Token String)}
    (hspells : Spells text tokens) (position : Nat) :
    ∃ located, tokensFrom position text = .ok located ∧ located.map Located.token = tokens := by
  induction hspells generalizing position with
  | done => exact ⟨[], by rw [tokensFrom.eq_def], rfl⟩
  | blank hblank _ ih =>
      rw [tokensFrom_blank hblank]
      exact ih _
  | opening _ ih =>
      obtain ⟨located, hlocated, rfl⟩ := ih (position + 1)
      rw [tokensFrom_opening, hlocated]
      exact ⟨_, rfl, rfl⟩
  | closing _ ih =>
      obtain ⟨located, hlocated, rfl⟩ := ih (position + 1)
      rw [tokensFrom_closing, hlocated]
      exact ⟨_, rfl, rfl⟩
  | word hfirst hothers hend _ ih =>
      obtain ⟨located, hlocated, rfl⟩ := ih _
      rw [tokensFrom_word hfirst hothers hend, hlocated]
      exact ⟨_, rfl, rfl⟩

theorem tokens_eq_ok_iff {text : String} {tokens : List (Token String)} :
    (∃ located, Condition.tokens text = .ok located ∧ located.map Located.token = tokens) ↔
      Spells text.toList tokens := by
  constructor
  · rintro ⟨located, hlocated, rfl⟩
    exact spells_of_tokensFrom hlocated
  · intro hspells
    exact exists_tokensFrom_of_spells hspells 0

theorem eq_nil_of_spells_blank {text : List Char} {tokens : List (Token String)}
    (hblank : text.all Text.isBlank = true) (hspells : Spells text tokens) : tokens = [] := by
  induction hspells with
  | done => rfl
  | blank _ _ ih =>
      rw [List.all_cons, Bool.and_eq_true] at hblank
      exact ih hblank.2
  | opening => simp [Text.isBlank] at hblank
  | closing => simp [Text.isBlank] at hblank
  | word hfirst =>
      rw [List.all_cons, isBlank_of_startsWord hfirst] at hblank
      cases hblank

/-! ### Formulas over available names -/

/-- The tokens are derived as a formula whose operands are available names. -/
def Derives (available : List String) (tokens : List (Token String)) (condition : Condition) : Prop :=
  Formula.Derives (fun words name => words = [name] ∧ name ∈ available) .formula tokens condition

theorem reads_iff {available words : List String} {name : String} :
    (operands available).Reads words name ↔ words = [name] ∧ name ∈ available := by
  constructor
  · intro hreads
    cases hreads with
    | start hstart =>
        simp only [operands, List.contains_iff_mem] at hstart
        split_ifs at hstart with hname
        cases hstart
        exact ⟨rfl, hname⟩
    | @resume _ progress => exact nomatch progress
  · rintro ⟨rfl, hname⟩
    refine .start ?_
    simp [operands, hname]

theorem derives_iff {available : List String} {tokens : List (Token String)} {condition : Condition} :
    Derives available tokens condition ↔
      Formula.Derives (operands available).Reads .formula tokens condition := by
  constructor
  · exact Formula.Derives.mono fun _ _ => reads_iff.mpr
  · exact Formula.Derives.mono fun _ _ => reads_iff.mp

theorem derives_of_parse {available : List String} {text : String} {condition : Condition}
    (hparse : parse available text = .ok condition) :
    ∃ tokens, Derives available tokens condition := by
  rw [parse] at hparse
  split_ifs at hparse
  obtain ⟨located, _, hrest⟩ := bind_eq_ok_iff.mp hparse
  obtain ⟨_, _, htree⟩ := bind_eq_ok_iff.mp hrest
  exact ⟨_, derives_iff.mpr (ofTokens_eq_ok_iff.mp htree)⟩

theorem exists_mem_atoms (condition : Condition) : ∃ name, name ∈ condition.atoms := by
  induction condition with
  | atom name => exact ⟨name, List.mem_singleton.mpr rfl⟩
  | and left right ihleft _ => exact ihleft.imp fun name hname => List.mem_append_left _ hname
  | or left right ihleft _ => exact ihleft.imp fun name hname => List.mem_append_left _ hname

/-- What is read mentions available names only. -/
theorem mem_of_mem_atoms {available : List String} {text : String} {condition : Condition}
    (hparse : parse available text = .ok condition) {name : String} (hname : name ∈ condition.atoms) :
    name ∈ available := by
  obtain ⟨tokens, hderives⟩ := derives_of_parse hparse
  obtain ⟨_, _, hmem⟩ := hderives.exists_operand_of_mem_atoms hname
  exact hmem

theorem Derives.ne_nil {available : List String} {condition : Condition} :
    ¬Derives available [] condition := fun hderives =>
  not_derives_nil (derives_iff.mp hderives)

/-- A text that is nothing but blanks has no tokens, and no formula has none. -/
theorem parse_eq_ok_iff_exists_derives {available : List String} {text : String} {condition : Condition} :
    parse available text = .ok condition ↔
      ∃ tokens, Spells text.toList tokens ∧ tokens.length ≤ 50 ∧ NestsWithin 6 tokens ∧
        Derives available tokens condition := by
  rw [parse]
  split_ifs with hblank
  · refine iff_of_false (by simp) ?_
    rintro ⟨tokens, hspells, _, _, hderives⟩
    rw [eq_nil_of_spells_blank hblank hspells] at hderives
    exact Derives.ne_nil hderives
  simp only [bind_eq_ok_iff, ofTokens_eq_ok_iff]
  constructor
  · rintro ⟨located, hlocated, _, hlimits, hderives⟩
    obtain ⟨hlength, hnests⟩ := (checkLimits_eq_ok_iff hderives.balanced).mp hlimits
    refine ⟨_, spells_of_tokensFrom hlocated, ?_, hnests, derives_iff.mpr hderives⟩
    rwa [List.length_map]
  · rintro ⟨tokens, hspells, hlength, hnests, hderives⟩
    obtain ⟨located, hlocated, rfl⟩ := tokens_eq_ok_iff.mpr hspells
    rw [List.length_map] at hlength
    exact ⟨located, hlocated, (), (checkLimits_eq_ok_iff hderives.balanced).mpr ⟨hlength, hnests⟩,
      derives_iff.mp hderives⟩

/-- **The condition language.** A text is accepted when it falls into at most 50 tokens, never opens
more than 6 parentheses and is derived from the grammar over the available names. The result is the
tree of the derivation, and a list of tokens has no second one. -/
theorem parse_eq_ok_iff (available : List String) :
    (∀ text condition, parse available text = .ok condition ↔
      ∃ tokens, Spells text.toList tokens ∧ tokens.length ≤ 50 ∧ NestsWithin 6 tokens ∧
        Derives available tokens condition) ∧
    ∀ tokens first second, Derives available tokens first → Derives available tokens second →
      first = second := by
  refine ⟨fun text condition => parse_eq_ok_iff_exists_derives, fun tokens first second hfirst hsecond => ?_⟩
  exact (derives_iff.mp hfirst).unique (derives_iff.mp hsecond)

theorem parse_eq_ok_iff_sample :
    let available := ["calm", "down", "up"]
    let condition : Condition := .or (.atom "calm") (.and (.atom "up") (.atom "down"))
    parse available "calm OR (up) AND down" = .ok condition ∧
      ∃ tokens, Spells "calm OR (up) AND down".toList tokens ∧ Derives available tokens condition ∧
        ∀ other, Derives available tokens other → other = condition := by
  intro available condition
  have hparse : parse available "calm OR (up) AND down" = .ok condition := by decide +kernel
  obtain ⟨tokens, hspells, _, _, hderives⟩ := ((parse_eq_ok_iff available).1 _ _).mp hparse
  refine ⟨hparse, tokens, hspells, hderives, fun other hother => ?_⟩
  exact (parse_eq_ok_iff available).2 tokens other condition hother hderives

end Condition

end Backtest
