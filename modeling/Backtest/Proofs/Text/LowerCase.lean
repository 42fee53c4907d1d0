import Mathlib
import Backtest.Text.LowerCase

/-!
# Texts in lower case

A text in lower case has no capitals: no lower-case form is a capital itself, which is checked on the table
of ranges, two ranges at a time. A text without capitals outside of ASCII is lower-cased one character at a
time, so it differs from its lower-case form in the case of ASCII letters only. Any other text differs from
it in more.
-/

namespace Backtest.Text

/-- A character that is not its own lower-case form. -/
def IsCapital (c : Char) : Prop := lower (String.singleton c) ≠ String.singleton c

/-! ### The table -/

namespace CapitalRange

/-- The code is one of the range's. -/
def Holds (range : CapitalRange) (code : Nat) : Prop :=
  range.first ≤ code ∧ code ≤ range.last ∧ (code - range.first) % range.step = 0

/-- The code of the lower-case form of one of the range's letters. -/
def lowered (range : CapitalRange) (code : Nat) : Nat := (code + range.shift).toNat

/-- No lower-case form of the first range is one of the second range's letters: they are all below or all
above them, or they stand between them. -/
def avoids (range other : CapitalRange) : Bool :=
  range.lowered range.last < other.first || other.last < range.lowered range.first ||
    other.step = 2 && (range.step = 2 || range.first = range.last) &&
      (range.lowered range.first + other.first) % 2 = 1

end CapitalRange

/-- The dotted I, whose lower-case form is two characters, and the letters whose form is one. -/
def allCapitals : List CapitalRange := ⟨0x0130, 0x0130, 1, 0⟩ :: capitalRanges

theorem avoids_of_mem {range other : CapitalRange} (hrange : range ∈ capitalRanges)
    (hother : other ∈ allCapitals) : range.avoids other = true := by
  have htable : (capitalRanges.all fun range => allCapitals.all range.avoids) = true := by decide +kernel
  exact List.all_eq_true.mp (List.all_eq_true.mp htable range hrange) other hother

theorem lowered_pos {range : CapitalRange} (hrange : range ∈ capitalRanges) :
    0 < range.lowered range.first := by
  have htable : (capitalRanges.all fun range => decide (0 < range.lowered range.first)) = true := by decide
  exact of_decide_eq_true (List.all_eq_true.mp htable range hrange)

theorem first_pos {range : CapitalRange} (hrange : range ∈ allCapitals) : 0 < range.first := by
  have htable : (allCapitals.all fun range => decide (0 < range.first)) = true := by decide
  exact of_decide_eq_true (List.all_eq_true.mp htable range hrange)

theorem CapitalRange.not_holds_lowered {range other : CapitalRange} (hrange : range ∈ capitalRanges)
    (hother : other ∈ allCapitals) {code : Nat} (hcode : range.Holds code) :
    ¬other.Holds (range.lowered code) := by
  have havoids := avoids_of_mem hrange hother
  have hpositive := lowered_pos hrange
  obtain ⟨hfirst, hlast, hstep⟩ := hcode
  rintro ⟨hfirst', hlast', hstep'⟩
  simp only [avoids, Bool.or_eq_true, Bool.and_eq_true, decide_eq_true_eq] at havoids
  unfold lowered at *
  rcases havoids with (hbelow | habove) | ⟨⟨htwo, hsteps⟩, hbetween⟩
  · omega
  · omega
  · rw [htwo] at hstep'
    rcases hsteps with hsame | hsingle
    · rw [hsame] at hstep
      omega
    · omega

/-! ### Single characters -/

section Characters

variable {c : Char}

theorem isUpper_iff : c.isUpper = true ↔ 65 ≤ c.toNat ∧ c.toNat ≤ 90 := by
  unfold Char.isUpper
  simp only [decide_eq_true_eq, ge_iff_le, UInt32.le_iff_toNat_le]
  rfl

theorem toLower_eq_self (hcode : 128 ≤ c.toNat) : c.toLower = c := by
  refine Char.toLower_eq_of_not_isUpper ?_
  rw [isUpper_iff]
  omega

theorem isCapital_iff : IsCapital c ↔ c = 'İ' ∨ lowerChar c ≠ c := by
  by_cases hdotted : c = 'İ'
  · subst hdotted
    exact iff_of_true (by unfold IsCapital; decide) (.inl rfl)
  by_cases hsigma : c = 'Σ'
  · subst hsigma
    exact iff_of_true (by unfold IsCapital; decide) (.inr (by decide))
  have hlower : lowerFrom [] [c] = [lowerChar c] := by
    simp [lowerFrom, hdotted, hsigma]
  rw [IsCapital, lower, String.toList_singleton, hlower, String.singleton_eq_ofList, Ne, String.ofList_inj,
    List.singleton_inj, or_iff_right hdotted]

/-- A character is its own form, or it is one of the table's letters. -/
theorem lowerChar_cases (c : Char) : lowerChar c = c ∨
    ∃ range ∈ capitalRanges, range.Holds c.toNat ∧ lowerChar c = Char.ofNat (range.lowered c.toNat) := by
  rw [lowerChar]
  split_ifs with hcode
  · by_cases hupper : c.isUpper = true
    · obtain ⟨hfirst, hlast⟩ := isUpper_iff.mp hupper
      exact .inr ⟨⟨0x0041, 0x005A, 1, 32⟩, List.mem_cons_self, ⟨hfirst, hlast, Nat.mod_one _⟩,
        Char.toLower_eq_of_isUpper hupper⟩
    · exact .inl (Char.toLower_eq_of_not_isUpper hupper)
  · split
    · next range hrange =>
        have hholds := List.find?_some hrange
        simp only [Bool.and_eq_true, decide_eq_true_eq] at hholds
        exact .inr ⟨range, List.mem_of_find?_eq_some hrange, ⟨hholds.1.1, hholds.1.2, hholds.2⟩, rfl⟩
    · exact .inl rfl

theorem not_isCapital_of_not_holds (hholds : ∀ range ∈ allCapitals, ¬range.Holds c.toNat) :
    ¬IsCapital c := by
  rw [isCapital_iff]
  rintro (rfl | hchanges)
  · exact hholds _ List.mem_cons_self ⟨Nat.le_refl _, Nat.le_refl _, rfl⟩
  · rcases lowerChar_cases c with hsame | ⟨range, hrange, hcode, _⟩
    · exact hchanges hsame
    · exact hholds range (List.mem_cons_of_mem _ hrange) hcode

/-- No character's form is a capital again. -/
theorem not_isCapital_lowerChar (hdotted : c ≠ 'İ') : ¬IsCapital (lowerChar c) := by
  rcases lowerChar_cases c with hsame | ⟨range, hrange, hcode, hlower⟩
  · rw [hsame, isCapital_iff]
    exact fun hcapital => hcapital.elim hdotted fun hchanges => hchanges hsame
  · rw [hlower]
    refine not_isCapital_of_not_holds fun other hother hholds => ?_
    rw [Char.toNat_ofNat] at hholds
    split_ifs at hholds with hvalid
    · exact CapitalRange.not_holds_lowered hrange hother hcode hholds
    · exact absurd hholds.1 (Nat.not_le_of_lt (first_pos hother))

theorem lowerChar_of_lt (hcode : c.toNat < 128) : lowerChar c = c.toLower := by
  rw [lowerChar, if_pos hcode]

theorem lowerChar_of_not_isCapital (hcapital : ¬IsCapital c) : lowerChar c = c := by
  rw [isCapital_iff, not_or, not_not] at hcapital
  exact hcapital.2

theorem toLower_of_not_isCapital (hcapital : ¬IsCapital c) : c.toLower = c := by
  by_cases hcode : c.toNat < 128
  · rw [← lowerChar_of_lt hcode, lowerChar_of_not_isCapital hcapital]
  · exact toLower_eq_self (Nat.le_of_not_lt hcode)

/-- The characters that a dotted I and a sigma become. -/
theorem not_isCapital_special : ∀ c ∈ ['i', '\u0307', 'ς', 'σ'], ¬IsCapital c := by
  have hsame : (['i', '\u0307', 'ς', 'σ'].all fun c => lowerChar c == c && c != 'İ') = true := by decide
  intro c hc
  have hc := List.all_eq_true.mp hsame c hc
  rw [Bool.and_eq_true, beq_iff_eq, bne_iff_ne] at hc
  rw [isCapital_iff]
  exact fun hcapital => hcapital.elim hc.2 fun hchanges => hchanges hc.1

end Characters

/-! ### Texts -/

theorem not_isCapital_of_mem_lowerFrom {before text : List Char} :
    ∀ c ∈ lowerFrom before text, ¬IsCapital c := by
  induction text generalizing before with
  | nil => simp [lowerFrom]
  | cons first rest ih =>
      refine List.forall_mem_append.mpr ⟨?_, ih⟩
      split_ifs with hdotted hsigma
      · exact fun c hc => not_isCapital_special c (by simp at hc ⊢; tauto)
      · rw [List.forall_mem_singleton, lowerSigma]
        split_ifs <;> exact not_isCapital_special _ (by simp)
      · exact List.forall_mem_singleton.mpr (not_isCapital_lowerChar hdotted)

theorem not_isCapital_of_mem_lower {text : String} : ∀ c ∈ (lower text).toList, ¬IsCapital c := by
  rw [lower, String.toList_ofList]
  exact not_isCapital_of_mem_lowerFrom

/-- All capitals of the text are of ASCII. -/
def PlainCapitals (text : List Char) : Prop := ∀ c ∈ text, IsCapital c → c.toNat < 128

theorem lowerFrom_eq_map {before text : List Char} (hplain : PlainCapitals text) :
    lowerFrom before text = text.map Char.toLower := by
  induction text generalizing before with
  | nil => rfl
  | cons c rest ih =>
      obtain ⟨hfirst, hrest⟩ := List.forall_mem_cons.mp hplain
      have hdotted : c ≠ 'İ' := by
        rintro rfl
        exact absurd (hfirst (isCapital_iff.mpr (.inl rfl))) (by decide)
      have hsigma : c ≠ 'Σ' := by
        rintro rfl
        exact absurd (hfirst (isCapital_iff.mpr (.inr (by decide)))) (by decide)
      have hlower : lowerChar c = c.toLower := by
        by_cases hcode : c.toNat < 128
        · exact lowerChar_of_lt hcode
        · rw [lowerChar_of_not_isCapital (mt hfirst hcode), toLower_of_not_isCapital (mt hfirst hcode)]
      rw [lowerFrom, if_neg hdotted, if_neg hsigma, hlower, ih hrest]
      rfl

theorem map_toLower_of_not_isCapital {text : List Char} (hcapital : ∀ c ∈ text, ¬IsCapital c) :
    text.map Char.toLower = text :=
  (List.map_congr_left fun c hc => toLower_of_not_isCapital (hcapital c hc)).trans (List.map_id text)

/-- A text without capitals differs in the case of ASCII letters at most from those texts whose lower-case
form it is and whose capitals are of ASCII. -/
theorem equalIgnoringCase_iff {left right : String} (hright : ∀ c ∈ right.toList, ¬IsCapital c) :
    equalIgnoringCase left right = true ↔ lower left = right ∧ PlainCapitals left.toList := by
  rw [equalIgnoringCase, decide_eq_true_iff, map_toLower_of_not_isCapital hright]
  constructor
  · intro hsame
    have hplain : PlainCapitals left.toList := by
      intro c hc hcapital
      by_contra hcode
      refine hright c ?_ hcapital
      rw [← hsame, ← toLower_eq_self (Nat.le_of_not_lt hcode)]
      exact List.mem_map_of_mem hc
    refine ⟨?_, hplain⟩
    rw [lower, lowerFrom_eq_map hplain, hsame, String.ofList_toList]
  · rintro ⟨rfl, hplain⟩
    rw [lower, lowerFrom_eq_map hplain, String.toList_ofList]

end Backtest.Text
