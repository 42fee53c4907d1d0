import Backtest.Proofs.Formula.Grammar

/-!
# The limits on formulas

The depth is checked before any token is parsed, with a counter that does not go below zero. On a list
whose parentheses match, the counter is the number of parentheses that are open. On any other list it
may only be too high, which refuses nothing that the grammar derives.
-/

namespace Backtest.Formula

variable {ω : Type} {located : List (Located (Token ω))} {depth : Nat}

theorem depth_le_of_firstTooDeep?_eq_none (hdepth : depth ≤ maxDepth)
    (hnone : firstTooDeep? depth located = none) {start : List (Token ω)}
    (hstart : start <+: located.map Located.token) :
    depth + openings start ≤ closings start + maxDepth := by
  induction located generalizing depth start with
  | nil =>
      rw [List.map_nil, List.prefix_nil] at hstart
      subst hstart
      simpa using hdepth
  | cons first rest ih =>
      obtain ⟨token, position⟩ := first
      rcases List.prefix_cons_iff.mp hstart with rfl | ⟨later, rfl, hlater⟩
      · simpa using hdepth
      cases token with
      | opening =>
          rw [firstTooDeep?] at hnone
          split_ifs at hnone with hdeep
          have hrest := ih (by omega) hnone hlater
          suffices depth + (openings later + 1) ≤ closings later + maxDepth by simpa
          omega
      | closing =>
          have hrest := ih (by omega) hnone hlater
          suffices depth + openings later ≤ closings later + 1 + maxDepth by simpa
          omega
      | word | conjunction | disjunction => simpa using ih hdepth hnone hlater

theorem firstTooDeep?_eq_none
    (hclosed : ∀ start, start <+: located.map Located.token → closings start ≤ depth + openings start)
    (hopen : ∀ start, start <+: located.map Located.token →
      depth + openings start ≤ closings start + maxDepth) :
    firstTooDeep? depth located = none := by
  induction located generalizing depth with
  | nil => rfl
  | cons first rest ih =>
      obtain ⟨token, position⟩ := first
      have hnext : ∀ start, start <+: rest.map Located.token →
          token :: start <+: (⟨token, position⟩ :: rest).map Located.token :=
        fun start hstart => List.cons_prefix_cons.mpr ⟨rfl, hstart⟩
      cases token with
      | opening =>
          have hdepth : depth + 1 ≤ maxDepth := by simpa using hopen [.opening] (by simp)
          rw [firstTooDeep?, if_neg (by omega)]
          refine ih (fun start hstart => ?_) fun start hstart => ?_
          · have hle : closings start ≤ depth + (openings start + 1) := by
              simpa using hclosed _ (hnext start hstart)
            omega
          · have hle : depth + (openings start + 1) ≤ closings start + maxDepth := by
              simpa using hopen _ (hnext start hstart)
            omega
      | closing =>
          have hpositive : 1 ≤ depth := by simpa using hclosed [.closing] (by simp)
          rw [firstTooDeep?]
          refine ih (fun start hstart => ?_) fun start hstart => ?_
          · have hle : closings start + 1 ≤ depth + openings start := by
              simpa using hclosed _ (hnext start hstart)
            omega
          · have hle : depth + openings start ≤ closings start + 1 + maxDepth := by
              simpa using hopen _ (hnext start hstart)
            omega
      | word | conjunction | disjunction =>
          refine ih (fun start hstart => ?_) fun start hstart => ?_
          · simpa using hclosed _ (hnext start hstart)
          · simpa using hopen _ (hnext start hstart)

theorem checkLimits_eq_ok_iff_none :
    checkLimits located = .ok () ↔ located.length ≤ maxTokens ∧ firstTooDeep? 0 located = none := by
  rw [← List.getElem?_eq_none_iff, checkLimits]
  cases located[maxTokens]? with
  | some extra => simp
  | none => cases firstTooDeep? 0 located <;> simp

theorem checkLimits_eq_ok_iff (hbalanced : Balanced (located.map Located.token)) :
    checkLimits located = .ok () ↔
      located.length ≤ maxTokens ∧ NestsWithin maxDepth (located.map Located.token) := by
  rw [checkLimits_eq_ok_iff_none]
  refine and_congr_right fun _ => ⟨fun hnone start hstart => ?_, fun hnests => ?_⟩
  · simpa using depth_le_of_firstTooDeep?_eq_none (Nat.zero_le _) hnone hstart
  · refine firstTooDeep?_eq_none ?_ ?_
    · simpa using hbalanced.closings_le
    · simpa [NestsWithin] using hnests

/-! ### Where a limit is exceeded -/

theorem exists_mem_of_firstTooDeep? {position : Nat} (hdeep : firstTooDeep? depth located = some position) :
    ∃ token ∈ located, token.position = position := by
  induction located generalizing depth with
  | nil => cases hdeep
  | cons first rest ih =>
      obtain ⟨token, start⟩ := first
      have hlater {next : Nat} (hrest : firstTooDeep? next rest = some position) :
          ∃ other ∈ (⟨token, start⟩ :: rest), other.position = position := by
        obtain ⟨other, hother, hposition⟩ := ih hrest
        exact ⟨other, List.mem_cons_of_mem _ hother, hposition⟩
      cases token with
      | opening =>
          rw [firstTooDeep?] at hdeep
          split_ifs at hdeep
          · cases hdeep
            exact ⟨_, List.mem_cons_self, rfl⟩
          · exact hlater hdeep
      | closing | word | conjunction | disjunction => exact hlater hdeep

theorem exists_mem_of_checkLimits {refusal : Refusal} (hrefusal : checkLimits located = .error refusal) :
    ∃ token ∈ located, token.position = refusal.position := by
  unfold checkLimits at hrefusal
  split at hrefusal
  · next extra hextra =>
      cases hrefusal
      exact ⟨extra, List.mem_of_getElem? hextra, rfl⟩
  · split at hrefusal
    · next position hdeep =>
        cases hrefusal
        exact exists_mem_of_firstTooDeep? hdeep
    · cases hrefusal

end Backtest.Formula
