import Backtest.Proofs.Condition.Names
import Backtest.Proofs.Formula.Printing

/-!
# Reading printed conditions

The text of a condition over available names spells the tokens of the printed formula, and these have one
tree. So a printed condition is read back unless it is over one of the two limits, and then it is refused:
12 connectives make 49 tokens, and a height of 7 makes 6 pairs of parentheses around one another.
-/

namespace Backtest.Condition

open Formula

/-! ### The text and its tokens -/

/-- The text spells the tokens, whatever follows that does not continue its last word. -/
def Writes (text : List Char) (tokens : List (Token String)) : Prop :=
  ∀ rest more, (∀ c ∈ rest.head?, continuesWord c = false) → Spells rest more →
    Spells (text ++ rest) (tokens ++ more)

theorem Writes.spells {text : List Char} {tokens : List (Token String)} (hwrites : Writes text tokens) :
    Spells text tokens := by
  have hspells := hwrites [] [] (by simp) .done
  rwa [List.append_nil, List.append_nil] at hspells

theorem writes_name {name : String} (hname : isName name = true) : Writes name.toList [.word name] := by
  intro rest more hend hrest
  obtain ⟨first, others, htext, hfirst, hothers, _⟩ := isName_iff.mp hname
  have hword := Spells.word hfirst hothers hend hrest
  rwa [← htext, String.ofList_toList, tokenOfWord_of_isName hname, ← List.cons_append, ← htext] at hword

/-- A name that is available is a formula. -/
theorem parse_name {available : List String} {name : String} (hname : isName name = true)
    (havailable : name ∈ available) : parse available name = .ok (.atom name) := by
  have hoperand : Formula.Derives (fun words value => words = [value] ∧ value ∈ available) .primary
      ([name].map .word) (.atom name) := .operand ⟨rfl, havailable⟩
  have hnests : NestsWithin 6 [Token.word name] := nestsWithin_of_not_opening (by simp [Token.isOpening])
  exact parse_eq_ok_iff_exists_derives.mpr ⟨[.word name], (writes_name hname).spells, by simp, hnests,
    .ofConjunction (.ofPrimary hoperand)⟩

/-- Two texts in parentheses with a word between them. -/
theorem Writes.group {left right : List Char} {before after : List (Token String)}
    (hleft : Writes left before) (hright : Writes right after) (first : Char) (others : List Char)
    (hfirst : startsWord first = true) (hothers : others.all continuesWord = true) :
    Writes ('(' :: (left ++ ' ' :: first :: (others ++ ' ' :: (right ++ [')']))))
      (.opening :: (before ++ tokenOfWord (String.ofList (first :: others)) :: after ++ [.closing])) := by
  intro rest more _ hrest
  have hclosed : Spells (right ++ ')' :: rest) (after ++ .closing :: more) :=
    hright _ _ (by simp; decide) (.closing hrest)
  have hword := Spells.blank (c := ' ') (by decide)
    (.word hfirst (List.all_eq_true.mp hothers) (by simp; decide) (.blank (c := ' ') (by decide) hclosed))
  have hopened := Spells.opening (hleft _ _ (by simp; decide) hword)
  simpa only [List.append_assoc, List.cons_append, List.nil_append] using hopened

theorem writes_render {condition : Condition} (hnames : ∀ name ∈ condition.atoms, isName name = true) :
    Writes condition.render.toList (condition.printed fun name => [name]) := by
  rw [render]
  induction condition with
  | atom name => exact writes_name (hnames name (List.mem_singleton.mpr rfl))
  | and left right ihleft ihright =>
      have hleft := ihleft fun name hname => hnames name (List.mem_append_left _ hname)
      have hright := ihright fun name hname => hnames name (List.mem_append_right _ hname)
      have hgroup := hleft.group hright 'A' ['N', 'D'] (by decide) (by decide)
      simpa [Formula.text, printed, tokenOfWord] using hgroup
  | or left right ihleft ihright =>
      have hleft := ihleft fun name hname => hnames name (List.mem_append_left _ hname)
      have hright := ihright fun name hname => hnames name (List.mem_append_right _ hname)
      have hgroup := hleft.group hright 'O' ['R'] (by decide) (by decide)
      simpa [Formula.text, printed, tokenOfWord] using hgroup

/-! ### The two limits -/

theorem checkLimits_of_printed {condition : Condition} {located : List (Located (Token String))}
    (hlocated : located.map Located.token = condition.printed fun name => [name]) :
    checkLimits located = .ok () ↔ condition.connectives ≤ 12 ∧ condition.height ≤ 7 := by
  have hword : ∀ name : String, [name].length = 1 := fun _ => rfl
  rw [checkLimits_printed_iff hword hlocated]
  omega

/-- **Reading printed conditions.** The text of a condition over available names is read back as this
condition when there are at most 12 connectives and the height is at most 7. Otherwise it is refused. -/
theorem parse_render {available : List String} {condition : Condition}
    (hnames : ∀ name ∈ condition.atoms, isName name = true ∧ name ∈ available) :
    (condition.connectives ≤ 12 ∧ condition.height ≤ 7 →
      parse available condition.render = .ok condition) ∧
    (¬(condition.connectives ≤ 12 ∧ condition.height ≤ 7) →
      ∃ refusal, parse available condition.render = .error refusal) := by
  have hspells := (writes_render fun name hname => (hnames name hname).1).spells
  obtain ⟨located, hlocated, htokens⟩ := tokens_eq_ok_iff.mpr hspells
  have hderives : Derives available (condition.printed fun name => [name]) condition :=
    .ofConjunction (.ofPrimary (derives_printed fun name hname => ⟨rfl, (hnames name hname).2⟩))
  have hblank : Text.isBlankText condition.render = false := by
    rw [← Bool.not_eq_true]
    intro hblank
    rw [eq_nil_of_spells_blank hblank hspells] at hderives
    exact Derives.ne_nil hderives
  rw [parse_of_tokens hblank hlocated, ← checkLimits_of_printed htokens]
  constructor
  · intro hlimits
    rw [hlimits, ok_bind]
    exact ofTokens_eq_ok_iff.mpr (derives_iff.mp (htokens ▸ hderives))
  · intro hlimits
    cases hcheck : checkLimits located with
    | error refusal => exact ⟨refusal, error_bind _ _⟩
    | ok => exact absurd hcheck hlimits

namespace Sample

/-- Alternatives inside one another, `levels` deep. -/
def tower : Nat → Condition
  | 0 => .and (.atom "up") (.atom "calm_2")
  | levels + 1 => .or (.atom "calm_2") (tower levels)

end Sample

theorem parse_render_sample :
    let available := ["calm_2", "up"]
    (∀ levels ∈ [5, 6], ∀ name ∈ (Sample.tower levels).atoms, isName name = true ∧ name ∈ available) ∧
      ((Sample.tower 5).connectives ≤ 12 ∧ (Sample.tower 5).height ≤ 7) ∧
      parse available (Sample.tower 5).render = .ok (Sample.tower 5) ∧
      ¬((Sample.tower 6).connectives ≤ 12 ∧ (Sample.tower 6).height ≤ 7) ∧
      ∃ refusal, parse available (Sample.tower 6).render = .error refusal := by
  intro available
  have hnames : ∀ levels ∈ [5, 6], ∀ name ∈ (Sample.tower levels).atoms,
      isName name = true ∧ name ∈ available := by
    decide
  have hwithin : (Sample.tower 5).connectives ≤ 12 ∧ (Sample.tower 5).height ≤ 7 := by decide
  have hbeyond : ¬((Sample.tower 6).connectives ≤ 12 ∧ (Sample.tower 6).height ≤ 7) := by decide
  exact ⟨hnames, hwithin, (parse_render (hnames 5 (by decide))).1 hwithin, hbeyond,
    (parse_render (hnames 6 (by decide))).2 hbeyond⟩

end Backtest.Condition
