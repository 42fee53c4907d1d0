import Mathlib.Data.List.DropRight
import Backtest.Text.Split

/-!
# Trimming

A trimmed text that is not empty has a first and a last character that are not blank. So nothing of it
is lost when blank texts are sorted out afterwards, or when it is trimmed again.
-/

namespace Backtest.Text

theorem dropWhile_eq_nil_of_all {accepts : Char → Bool} {text : List Char}
    (hall : ∀ c ∈ text.dropWhile accepts, accepts c = true) : text.dropWhile accepts = [] := by
  cases hrest : text.dropWhile accepts with
  | nil => rfl
  | cons first rest =>
      have hfirst := List.head?_dropWhile_not accepts text
      rw [hrest] at hall hfirst
      simp only [List.head?_cons] at hfirst
      rw [hall first List.mem_cons_self] at hfirst
      cases hfirst

theorem trimChars_eq_nil_of_blank {text : List Char}
    (hblank : ∀ c ∈ trimChars text, isBlank c = true) : trimChars text = [] := by
  rw [trimChars, trimRight, List.reverse_eq_nil_iff]
  refine dropWhile_eq_nil_of_all fun c hc => hblank c ?_
  rwa [trimChars, trimRight, List.mem_reverse]

theorem isBlankText_trim {text : String} (hsome : trim text ≠ "") : isBlankText (trim text) = false := by
  rw [← Bool.not_eq_true, isBlankText, List.all_eq_true]
  intro hblank
  simp only [trim, String.toList_ofList] at hblank
  rw [trim, trimChars_eq_nil_of_blank hblank] at hsome
  exact hsome rfl

/-! ### Trimming again -/

theorem dropWhile_eq_self_of_isPrefix {accepts : Char → Bool} {text kept : List Char}
    (hkept : kept <+: text.dropWhile accepts) : kept.dropWhile accepts = kept := by
  cases kept with
  | nil => rfl
  | cons first rest =>
      obtain ⟨others, hothers⟩ := hkept
      have hfirst := List.head?_dropWhile_not accepts text
      rw [← hothers, List.cons_append, List.head?_cons] at hfirst
      rw [List.dropWhile_cons_of_neg (by simpa using hfirst)]

theorem trimChars_trimChars (text : List Char) : trimChars (trimChars text) = trimChars text := by
  have hleft : trimLeft (trimChars text) = trimChars text :=
    dropWhile_eq_self_of_isPrefix (List.rdropWhile_prefix isBlank (trimLeft text))
  rw [trimChars, hleft]
  exact List.rdropWhile_idempotent isBlank (trimLeft text)

theorem trim_ofList_trimChars (text : List Char) :
    trim (String.ofList (trimChars text)) = String.ofList (trimChars text) := by
  rw [trim, String.toList_ofList, trimChars_trimChars]

end Backtest.Text
