import Backtest.Config.Reader
import Backtest.Proofs.Error.Stages
import Backtest.Proofs.Lookup
import Backtest.Proofs.Text.Trimming

/-!
# What is read into a configuration

A section that is opened changes no value, and a key that is set changes its own value alone. A document
is made by these two steps, so every value in it is the value of some line, and this has no blanks around
it.
-/

namespace Backtest.Config.Document

variable {document : Document}

theorem get?_openGroup (document : Document) (opened group key : String) :
    (document.openGroup opened).get? group key = document.get? group key := by
  rw [get?, get?, openGroup, NameTable.get?_insert]
  by_cases hsame : Text.lower group = opened
  · rw [if_pos hsame, hsame]
    cases document.groups.get? opened with
    | none => rfl
    | some entries => rfl
  · rw [if_neg hsame]

theorem get?_set (document : Document) (changed name : String) (value : Option String)
    (group key : String) :
    (document.set changed name value).get? group key =
      if Text.lower group = changed ∧ Text.lower key = name then value
      else document.get? group key := by
  rw [get?, get?, set, NameTable.get?_insert]
  by_cases hgroup : Text.lower group = changed
  · rw [if_pos hgroup, hgroup]
    simp only [NameTable.get?_insert, true_and]
    by_cases hkey : Text.lower key = name
    · rw [if_pos hkey, if_pos hkey]
      rfl
    · rw [if_neg hkey, if_neg hkey]
      cases document.groups.get? changed with
      | none => rfl
      | some entries => rfl
  · rw [if_neg hgroup, if_neg fun hboth => hgroup hboth.1]

/-- No value has blanks around it. -/
def Trimmed (document : Document) : Prop :=
  ∀ group key text, document.get? group key = some text → Text.trim text = text

theorem trimmed_empty : Trimmed .empty := by
  intro group key text htext
  cases htext

theorem Trimmed.openGroup (htrimmed : document.Trimmed) (opened : String) :
    (document.openGroup opened).Trimmed := by
  intro group key text htext
  rw [get?_openGroup] at htext
  exact htrimmed group key text htext

theorem Trimmed.set (htrimmed : document.Trimmed) (changed name : String) {value : Option String}
    (hvalue : ∀ text, value = some text → Text.trim text = text) :
    (document.set changed name value).Trimmed := by
  intro group key text htext
  rw [get?_set] at htext
  split_ifs at htext with hsame
  · exact hvalue text htext
  · exact htrimmed group key text htext

theorem trim_of_entry {number : Nat} {line : List Char} {key text : String}
    (hline : Line.ofChars number line = .ok (.entry key (some text))) : Text.trim text = text := by
  unfold Line.ofChars at hline
  split at hline
  · cases hline
  · split at hline <;> cases hline
  · split at hline
    · simp only [Except.ok.injEq, Line.entry.injEq, reduceCtorEq, and_false] at hline
    · cases hline
    · simp only [Except.ok.injEq, Line.entry.injEq, Option.some.injEq] at hline
      rw [← hline.2]
      exact Text.trim_ofList_trimChars _

theorem addLines_trimmed {lines : List (List Char)} {current : String} {number : Nat}
    {result : Document} (htrimmed : document.Trimmed)
    (hresult : addLines document current number lines = .ok result) : result.Trimmed := by
  induction lines generalizing document current number with
  | nil =>
      cases hresult
      exact htrimmed
  | cons line rest ih =>
      rw [addLines] at hresult
      split at hresult
      · cases hresult
      · exact ih htrimmed hresult
      · exact ih (htrimmed.openGroup _) hresult
      · next key value hline =>
          refine ih (htrimmed.set _ _ fun text hvalue => ?_) hresult
          rw [hvalue] at hline
          exact trim_of_entry hline

theorem ofText_trimmed {text : String} (hread : ofText text = .ok document) : document.Trimmed :=
  addLines_trimmed trimmed_empty hread

/-- Every configuration that is read from a file has its values without blanks around them. -/
theorem ofFile_trimmed {path : String} {contents : Except Storage.Fault Text.Bytes}
    (hread : ofFile path contents = .ok document) : document.Trimmed := by
  unfold ofFile at hread
  split at hread
  · cases hread
  · split at hread
    · cases hread
    · exact ofText_trimmed (mapError_eq_ok_iff.mp hread)

end Backtest.Config.Document
